import AdaptivePi.Yocto.InstallationPreparation

/-!
An installation that ends anywhere. Both directories are there afterwards or
neither is, exactly if no exception has got past the rollback when there was only
that of the SDK: one that is not an `Exception`, or one of the rollback itself.
They are of one verified manifest, unless a download has replaced a file.
-/

namespace AdaptivePi.Yocto

open Foundation Foundation.PythonText Script

variable {Content : Type}

namespace Machine

variable (library : Library Content) (options : InstallOptions) (machine : Machine Content)

def IsAbsent : Prop := machine.sdk = none ∧ machine.platform = none

def IsComplete : Prop := ∃ tree files,
  machine.sdk = some tree ∧ tree.environment = true ∧ machine.platform = some files

/-- They are of the same verified manifest. -/
def IsInstalled : Prop := ∃ tree files,
  machine.sdk = some tree ∧ tree.environment = true ∧ machine.platform = some files ∧
  Verified library options files tree.installer

def BothOrNeither : Prop := machine.IsAbsent ∨ machine.IsComplete

def AllOrNothing : Prop := machine.IsAbsent ∨ machine.IsInstalled library options

/-- There is an SDK, but no platform. -/
def IsPartial : Prop := machine.sdk.isSome = true ∧ machine.platform = none

end Machine

/-- The exception is not an `Exception`, or it is one of the rollback. -/
def IsUncaught (event : InstallEvent Content) : Prop :=
  ∃ error, event.answer = .error error ∧
    (error.isException = false ∨ event.question = .sdkExists)

/-- An exception that the handler does not catch leaves an SDK without a platform. -/
def Escapes (event : InstallEvent Content) : Prop := IsUncaught event ∧ event.after.IsPartial

def IsClean (events : List (InstallEvent Content)) : Prop := ∀ event ∈ events, ¬Escapes event

/-- How an installation may end, after its events. -/
inductive Settled (library : Library Content) (options : InstallOptions)
    (past : List (InstallEvent Content)) (machine : Machine Content) : Prop where
  | absent (habsent : machine.IsAbsent) (hclean : IsClean past)
  | complete (hcomplete : machine.IsComplete) (hclean : IsClean past)
      (hinstalled : AllKept past → machine.IsInstalled library options)
  | escaped (hunpaired : machine.IsPartial) (hescapes : ¬IsClean past)

namespace Machine

variable {library : Library Content} {options : InstallOptions} {machine machine' middle : Machine Content}

theorem Agrees.isPartial_iff (h : machine.Agrees machine') : machine'.IsPartial ↔ machine.IsPartial := by
  unfold IsPartial
  rw [h.1, h.2]

theorem Agrees.isAbsent_iff (h : machine.Agrees machine') : machine'.IsAbsent ↔ machine.IsAbsent := by
  unfold IsAbsent
  rw [h.1, h.2]

theorem not_isPartial_of_bothOrNeither (h : machine.BothOrNeither) : ¬machine.IsPartial := by
  rintro ⟨hsdk, hplatform⟩
  rcases h with ⟨hnone, -⟩ | ⟨tree, files, -, -, hfiles⟩
  · rw [hnone] at hsdk
    cases hsdk
  · rw [hplatform] at hfiles
    cases hfiles

theorem IsInstalled.isComplete (h : machine.IsInstalled library options) : machine.IsComplete := by
  obtain ⟨tree, files, hsdk, henvironment, hplatform, -⟩ := h
  exact ⟨tree, files, hsdk, henvironment, hplatform⟩

theorem AllOrNothing.bothOrNeither (h : machine.AllOrNothing library options) :
    machine.BothOrNeither :=
  h.imp_right IsInstalled.isComplete

end Machine

section Events

variable {library : Library Content} {options : InstallOptions} {machine machine' : Machine Content}
  {past events : List (InstallEvent Content)} {event : InstallEvent Content}

theorem isClean_nil : IsClean ([] : List (InstallEvent Content)) := by
  intro event hevent
  cases hevent

theorem isClean_append : IsClean (past ++ events) ↔ IsClean past ∧ IsClean events := by
  unfold IsClean
  simp [or_imp, forall_and]

theorem isClean_snoc : IsClean (past ++ [event]) ↔ IsClean past ∧ ¬Escapes event := by
  rw [isClean_append]
  simp [IsClean]

/-- Both directories or neither are there, exactly if no exception has escaped. -/
theorem Settled.bothOrNeither_iff (h : Settled library options past machine) :
    machine.BothOrNeither ↔ IsClean past := by
  cases h with
  | absent habsent hclean => exact ⟨fun _ => hclean, fun _ => .inl habsent⟩
  | complete hcomplete hclean hinstalled => exact ⟨fun _ => hclean, fun _ => .inr hcomplete⟩
  | escaped hunpaired hescapes =>
      exact ⟨fun hboth => absurd hunpaired (Machine.not_isPartial_of_bothOrNeither hboth),
        fun hclean => absurd hclean hescapes⟩

/-- All or nothing is installed exactly if no exception has escaped. -/
theorem Settled.allOrNothing_iff (h : Settled library options past machine) (hkept : AllKept past) :
    machine.AllOrNothing library options ↔ IsClean past := by
  refine ⟨fun hall => h.bothOrNeither_iff.mp hall.bothOrNeither, fun hclean => ?_⟩
  cases h with
  | absent habsent hclean => exact .inl habsent
  | complete hcomplete hclean hinstalled => exact .inr (hinstalled hkept)
  | escaped hunpaired hescapes => exact absurd hclean hescapes

theorem isClean_snoc_of_not_uncaught (hclean : IsClean past) (h : ¬IsUncaught event) :
    IsClean (past ++ [event]) :=
  isClean_snoc.mpr ⟨hclean, fun hescapes => h hescapes.1⟩

theorem isClean_snoc_ok {command : InstallCommand Content} {out : InstallOutput Content command}
    (hclean : IsClean past) : IsClean (past ++ [⟨machine, command, .ok out, machine'⟩]) := by
  refine isClean_snoc_of_not_uncaught hclean ?_
  rintro ⟨error, herror, -⟩
  cases herror

theorem not_isUncaught_of_exception {error : Raised} (h : event.answer = .error error)
    (hexception : error.isException = true) (hquestion : event.question ≠ .sdkExists) :
    ¬IsUncaught event := by
  rintro ⟨other, hother, hinterrupt | hexists⟩
  · obtain rfl := Except.error.inj (h.symm.trans hother)
    rw [hexception] at hinterrupt
    cases hinterrupt
  · exact hquestion hexists

/-- An uncaught exception without a platform is settled. -/
theorem settled_of_uncaught (hclean : IsClean past) (h : IsUncaught event)
    (hplatform : event.after.platform = none) : Settled library options (past ++ [event]) event.after := by
  cases hsdk : event.after.sdk with
  | none =>
      refine .absent ⟨hsdk, hplatform⟩ (isClean_snoc.mpr ⟨hclean, ?_⟩)
      rintro ⟨-, hsome, -⟩
      rw [hsdk] at hsome
      cases hsome
  | some tree =>
      have hunpaired : event.after.IsPartial := ⟨by rw [hsdk]; rfl, hplatform⟩
      exact .escaped hunpaired fun hnot => (isClean_snoc.mp hnot).2 ⟨h, hunpaired⟩

/-- Events that do not change what is installed keep an installation settled. -/
theorem Settled.append (h : Settled library options past machine) (hagrees : machine.Agrees machine')
    (hevents : ∀ event ∈ events, machine.Agrees event.after) :
    Settled library options (past ++ events) machine' := by
  have hclean : ¬machine.IsPartial → IsClean events := fun hnot event hevent hescapes =>
    hnot ((hevents event hevent).isPartial_iff.mp hescapes.2)
  cases h with
  | absent habsent hpast =>
      have hnot := Machine.not_isPartial_of_bothOrNeither (.inl habsent)
      exact .absent (hagrees.isAbsent_iff.mpr habsent) (isClean_append.mpr ⟨hpast, hclean hnot⟩)
  | complete hcomplete hpast hinstalled =>
      have hnot := Machine.not_isPartial_of_bothOrNeither (.inr hcomplete)
      refine .complete ?_ (isClean_append.mpr ⟨hpast, hclean hnot⟩) fun hkept => ?_
      · unfold Machine.IsComplete
        rw [hagrees.1, hagrees.2]
        exact hcomplete
      · unfold Machine.IsInstalled
        rw [hagrees.1, hagrees.2]
        exact hinstalled (allKept_append.mp hkept).1
  | escaped hunpaired hescapes =>
      exact .escaped (hagrees.isPartial_iff.mpr hunpaired) fun hnot => hescapes (isClean_append.mp hnot).1

end Events

section Rules

variable {α β : Type} {machine : Machine Content} {past : List (InstallEvent Content)}

theorem wp_give {command : InstallCommand Content}
    {post : List (InstallEvent Content) → Except Raised (InstallOutput Content command) →
      Machine Content → Prop}
    (h : ∀ reply after, machine.Responds command reply after →
      post (past ++ [⟨machine, command, reply, after⟩]) reply after) :
    wp Machine.Responds post (give command) past machine :=
  wp_perform.mpr h

theorem wp_then {script : Installer Content α} {next : α → Installer Content β}
    {post : List (InstallEvent Content) → Except Raised β → Machine Content → Prop}
    (h : wp Machine.Responds (sequel Machine.Responds post next) script past machine) :
    wp Machine.Responds post (script >>= next) past machine :=
  wp_bind.mpr h

end Rules

section Rollback

variable {library : Library Content} {options : InstallOptions} {machine : Machine Content}
  {past : List (InstallEvent Content)} {installer : Text} {event : InstallEvent Content}
  {error : Raised}

/-- The rollback of a caught exception removes the SDK, unless it is stopped. -/
theorem wp_rollBack (hexception : error.isException = true) (hplatform : machine.platform = none)
    (hclean : IsClean past) :
    wp Machine.Responds (fun past _ machine => Settled library options past machine)
      (rollBack error) past machine := by
  unfold rollBack
  rw [if_pos hexception]
  refine wp_then (@wp_give _ _ _ .sdkExists _ fun reply after hexists => ?_)
  cases reply with
  | error raised =>
      obtain rfl : after = machine := hexists
      exact @settled_of_uncaught _ _ _ _ ⟨after, .sdkExists, .error raised, after⟩ hclean
        ⟨raised, rfl, .inr rfl⟩ hplatform
  | ok there =>
      obtain ⟨rfl, rfl⟩ := hexists
      have hchecked : IsClean (past ++ [⟨after, .sdkExists, .ok after.sdk.isSome, after⟩]) :=
        isClean_snoc_ok hclean
      cases hsdk : after.sdk with
      | none => exact .absent ⟨hsdk, hplatform⟩ (hsdk ▸ hchecked)
      | some tree =>
          refine wp_then (@wp_give _ _ _ .removeSdk _ fun reply removed hremove => ?_)
          cases reply with
          | error raised =>
              obtain ⟨hinterrupt, sdk, rfl⟩ := hremove
              exact @settled_of_uncaught _ _ _ _ ⟨after, .removeSdk, .error raised, _⟩
                (hsdk ▸ hchecked) ⟨raised, rfl, .inl hinterrupt⟩ hplatform
          | ok done =>
              obtain rfl : removed = { after with sdk := none } := hremove
              exact .absent ⟨rfl, hplatform⟩ (isClean_snoc_ok (hsdk ▸ hchecked))

/-- After an exception of the last steps, caught or not, an installation is settled. -/
theorem wp_rollBack_of_error (hclean : IsClean past) (herror : event.answer = .error error)
    (hquestion : event.question ≠ .sdkExists) (hplatform : event.after.platform = none) :
    wp Machine.Responds (fun past _ machine => Settled library options past machine)
      (rollBack error) (past ++ [event]) event.after := by
  cases hexception : error.isException with
  | true =>
      have hcaught := not_isUncaught_of_exception herror hexception hquestion
      exact wp_rollBack hexception hplatform (isClean_snoc_of_not_uncaught hclean hcaught)
  | false =>
      unfold rollBack
      rw [if_neg (by rw [hexception]; exact Bool.false_ne_true)]
      exact wp_raise.mpr (settled_of_uncaught hclean ⟨error, herror, .inl hexception⟩ hplatform)

/-- What the preparation leaves. -/
structure Ready (library : Library Content) (options : InstallOptions)
    (past : List (InstallEvent Content)) (machine : Machine Content) (installer : Text) : Prop where
  absent : machine.IsAbsent
  clean : IsClean past
  verified : AllKept past → ∃ file,
    machine.stage installer = some file ∧ Verified library options machine.extracted file

/-- The last step makes an installation complete, whether it raises then or not. -/
theorem settled_replacePlatform {tree : SdkTree Content}
    {reply : Except Raised (InstallOutput Content .movePlatform)} (hclean : IsClean past)
    (hsdk : machine.sdk = some tree) (henvironment : tree.environment = true)
    (hverified : AllKept past → Verified library options machine.extracted tree.installer) :
    Settled library options (past ++ [⟨machine, .movePlatform, reply, machine.replacePlatform⟩])
      machine.replacePlatform := by
  refine .complete ⟨tree, _, hsdk, henvironment, rfl⟩ (isClean_snoc.mpr ⟨hclean, ?_⟩) fun hkept => ?_
  · rintro ⟨-, -, hplatform⟩
    cases hplatform
  · exact ⟨tree, _, hsdk, henvironment, rfl, hverified (allKept_append.mp hkept).1⟩

/-- The rename is the last step that can fail. -/
theorem wp_movePlatform {tree : SdkTree Content} (hclean : IsClean past)
    (hplatform : machine.platform = none) (hsdk : machine.sdk = some tree)
    (henvironment : tree.environment = true)
    (hverified : AllKept past → Verified library options machine.extracted tree.installer) :
    wp Machine.Responds (rescue Machine.Responds
        (fun past _ machine => Settled library options past machine) rollBack)
      (give .movePlatform) past machine := by
  refine @wp_give _ _ _ .movePlatform _ fun reply after hmove => ?_
  cases reply with
  | ok done =>
      obtain rfl : after = machine.replacePlatform := hmove
      exact settled_replacePlatform hclean hsdk henvironment hverified
  | error raised =>
      rcases hmove with rfl | ⟨hinterrupt, rfl⟩
      · exact @wp_rollBack_of_error _ _ _ _ ⟨after, .movePlatform, .error raised, after⟩ _
          hclean rfl nofun hplatform
      · -- not caught, but the platform is there
        change wp _ _ (rollBack raised) _ _
        unfold rollBack
        rw [if_neg (by rw [hinterrupt]; exact Bool.false_ne_true)]
        exact wp_raise.mpr (settled_replacePlatform hclean hsdk henvironment hverified)

/-- Whatever happens from the SDK installer on, the installation is settled. -/
theorem wp_installBoth (h : Ready library options past machine installer) :
    wp Machine.Responds (rescue Machine.Responds
        (fun past _ machine => Settled library options past machine) rollBack)
      (installBoth installer) past machine := by
  refine wp_then (@wp_give _ _ _ (.runInstaller installer) _ fun reply after hrun => ?_)
  obtain ⟨sdk, rfl, hinstaller⟩ := hrun
  cases reply with
  | error raised =>
      exact @wp_rollBack_of_error _ _ _ _ ⟨machine, .runInstaller installer, .error raised, _⟩ _
        h.clean rfl nofun h.absent.2
  | ok done =>
      refine wp_then (@wp_give _ _ _ .environmentExists _ fun reply after hexists => ?_)
      cases reply with
      | error raised =>
          obtain rfl : after = { machine with sdk := sdk } := hexists
          exact @wp_rollBack_of_error _ _ _ _ ⟨_, .environmentExists, .error raised, _⟩ _
            (isClean_snoc_ok h.clean) rfl nofun h.absent.2
      | ok there =>
          obtain ⟨hthere, rfl⟩ := hexists
          cases there with
          | false => exact wp_rollBack rfl h.absent.2 (isClean_snoc_ok (isClean_snoc_ok h.clean))
          | true =>
              obtain ⟨tree, rfl, henvironment⟩ := (Option.any_eq_true _ _).mp hthere.symm
              refine wp_movePlatform (isClean_snoc_ok (isClean_snoc_ok h.clean)) h.absent.2 rfl
                henvironment fun hkept => ?_
              obtain ⟨file, hfile, hverified⟩ := h.verified (allKept_append.mp (allKept_append.mp hkept).1).1
              obtain rfl := Option.some.inj (hfile.symm.trans (hinstaller tree rfl))
              exact hverified

end Rollback

section Main

variable {library : Library Content} {options : InstallOptions} {machine machine' : Machine Content}
  {past events : List (InstallEvent Content)}

/-- An idle script keeps an installation settled. -/
theorem wp_idle {α : Type} {script : Installer Content α}
    {post : List (InstallEvent Content) → Except Raised α → Machine Content → Prop}
    (hidle : Every IsIdle script) (hsettled : Settled library options past machine)
    (hpost : ∀ past result after, Settled library options past after → machine.Agrees after →
      post past result after) : wp Machine.Responds post script past machine := by
  refine wp_iff.mpr fun events result after hrun => ?_
  obtain ⟨hagrees, hevents⟩ := agrees_of_runs hidle hrun
  exact hpost _ result after (hsettled.append hagrees hevents) hagrees

theorem Settled.isClean (h : Settled library options past machine) (habsent : machine.IsAbsent) :
    IsClean past :=
  h.bothOrNeither_iff.mp (.inl habsent)

/-- The preparation fails without an effect, or it leaves what is verified. -/
theorem wp_stageAndInstall (hclean : IsClean past) (habsent : machine.IsAbsent) :
    wp Machine.Responds (fun past _ machine => Settled library options past machine)
      (stageAndInstall library options) past machine := by
  refine wp_then (wp_iff.mpr fun events result after hrun => ?_)
  obtain ⟨hagrees, hevents⟩ := agrees_of_runs idle_prepare hrun
  have hsettled : Settled library options (past ++ events) after :=
    (Settled.absent habsent hclean).append hagrees hevents
  have habsent' := hagrees.isAbsent_iff.mpr habsent
  cases result with
  | error error => exact hsettled
  | ok installer =>
      refine wp_catching.mpr (wp_installBoth ⟨habsent', hsettled.isClean habsent', fun hkept => ?_⟩)
      have hkeeps : Runs Machine.Keeps machine (prepare library options) events (.ok installer) after :=
        Program.Leads.of_forall hrun fun event hevent =>
          ⟨Program.Leads.forall_respond hrun event hevent, (allKept_append.mp hkept).2 event hevent⟩
      exact yields_prepare events installer after hkeeps

/-- The temporary directory is left at last. -/
theorem wp_stage (hclean : IsClean past) (habsent : machine.IsAbsent) :
    wp Machine.Responds (fun past _ machine => Settled library options past machine)
      ((stageAndInstall library options).lastly (give .removeStage)) past machine := by
  refine wp_lastly.mpr (wp_mono ?_ (wp_stageAndInstall hclean habsent))
  intro past outcome after hsettled
  have hidle : Every IsIdle (@give Content .removeStage) := idle_give rfl
  refine wp_idle hidle hsettled fun past removal left hleft _ => ?_
  cases removal with
  | ok removed => exact hleft
  | error error => exact hleft

/-- What follows a part that is settled, unless that raises. -/
theorem wp_settled_bind {α β : Type} {script : Installer Content α} {next : α → Installer Content β}
    (h : wp Machine.Responds (fun past _ machine => Settled library options past machine) script
      past machine)
    (hnext : ∀ past value after, Settled library options past after →
      wp Machine.Responds (fun past _ machine => Settled library options past machine) (next value)
        past after) :
    wp Machine.Responds (fun past _ machine => Settled library options past machine)
      (script >>= next) past machine := by
  refine wp_then (wp_mono (fun past result after hafter => ?_) h)
  cases result with
  | error error => exact hafter
  | ok value => exact hnext past value after hafter

theorem wp_idle_bind {α β : Type} {script : Installer Content α} {next : α → Installer Content β}
    (hidle : Every IsIdle script) (hsettled : Settled library options past machine)
    (hnext : ∀ past value after, Settled library options past after → machine.Agrees after →
      wp Machine.Responds (fun past _ machine => Settled library options past machine) (next value)
        past after) :
    wp Machine.Responds (fun past _ machine => Settled library options past machine)
      (script >>= next) past machine := by
  refine wp_then (wp_idle hidle hsettled fun past result after hafter hagrees => ?_)
  cases result with
  | error error => exact hafter
  | ok value => exact hnext past value after hafter hagrees

/-- Every run of the installer settles. -/
theorem wp_main (habsent : machine.IsAbsent) :
    wp Machine.Responds (fun past _ machine => Settled library options past machine)
      (Installer.main library options) [] machine := by
  have hstart : Settled library options [] machine := .absent habsent isClean_nil
  have hcreate : Every IsIdle (@give Content .createStage) := idle_give rfl
  refine wp_idle_bind idle_checkHost hstart fun past _ checked hchecked hagrees => ?_
  refine wp_idle_bind hcreate hchecked fun past _ staged hstaged hsame => ?_
  have hnothing := (hagrees.trans hsame).isAbsent_iff.mpr habsent
  have hstagedClean : IsClean past := hstaged.isClean hnothing
  refine wp_settled_bind (wp_stage hstagedClean hnothing) fun past _ left hleft => ?_
  refine wp_idle ?_ hleft fun past result final hfinal _ => hfinal
  exact every_bind (idle_give rfl) fun _ => every_bind (idle_give rfl) fun _ =>
    every_bind (idle_give rfl) fun _ => idle_give rfl

/-- Both directories are there after a run or neither is, exactly if no exception has
escaped. What is there is of one verified manifest, if no download has replaced a file. -/
theorem all_or_nothing_iff {result : Except Raised Unit}
    (hrun : Runs Machine.Responds machine (Installer.main library options) events result machine')
    (habsent : machine.IsAbsent) : (machine'.BothOrNeither ↔ IsClean events) ∧
      (AllKept events → (machine'.AllOrNothing library options ↔ IsClean events)) := by
  have hsettled : Settled library options events machine' :=
    wp_iff.mp (wp_main habsent) events result machine' hrun
  exact ⟨hsettled.bothOrNeither_iff, hsettled.allOrNothing_iff⟩

theorem yields_isInstalled (hsdk : machine.sdk.isSome = true) :
    Yields Machine.Responds (fun there _ => there = true) isInstalled machine := by
  refine yields_bind.mpr fun events there after hrun => ?_
  obtain ⟨hexists, -⟩ := (@runs_perform_iff _ _ _ _ Machine.Responds _ _ _ .sdkExists _).mp hrun
  obtain rfl : there = machine.sdk.isSome := hexists.1
  rw [hsdk]
  exact yields_pure.mpr rfl

/-- An installation is refused if there is an SDK. -/
theorem refused_of_sdk (hsdk : machine.sdk.isSome = true) :
    Yields Machine.Responds (fun _ _ => False) (Installer.main library options) machine := by
  have hcheck : Yields Machine.Responds (fun _ _ => False) (checkHost options) machine := by
    refine yields_bind.mpr (yields_require.mpr fun _ => yields_bind.mpr (yields_require.mpr fun _ => ?_))
    refine yields_bind.mpr fun events checks after hrun => ?_
    have hagrees := (agrees_of_runs (idle_of_staging staging_checkTools) hrun).1
    have hthere := yields_isInstalled (hagrees.1 ▸ hsdk)
    refine yields_bind.mpr fun events there checked hrun => yields_require.mpr fun hfree => ?_
    rw [hthere events there checked hrun] at hfree
    cases hfree
  exact yields_bind.mpr fun events checks after hrun => (hcheck events checks after hrun).elim

end Main

section Example

inductive ExampleFile where
  | text (text : Text)
  | archive

def exampleText (parts : List String) : Text := parts.flatMap String.toList

def exampleArchiveDigest : Text :=
  exampleText ["a8811758b33b44acf4da30217053b1fd", "3f6b4023632063e76972122379d1ef27"]

def exampleInstaller : Text :=
  exampleText ["mkdir $3\n: > $3/", "environment-setup-cortexa57-poky-linux\n"]

def exampleInstallerDigest : Text :=
  exampleText ["e682b3b94fb975d7b2d70610408c7256", "886932a9a914c0cf98c1b04f94c7f6a4"]

def exampleManifest : Text :=
  exampleText ["\x7b\"release_version\": \"v0.3.0\", ", "\"machine\": \"qemuarm64\", ",
    "\"image\": \"adaptive-pi-image\", ", "\"source_tree_dirty\": false, ",
    "\"sdk_host\": \"x86_64\", ", "\"tune\": \"cortexa57\", ",
    "\"platform_bundle\": ", "\"platform.tar.xz\", ", "\"platform_sha256\": \""] ++
  exampleArchiveDigest ++
  exampleText ["\", \"sdk_installer\": \"sdk.sh\", ", "\"sdk_sha256\": \""] ++
  exampleInstallerDigest ++ "\"\x7d".toList

def exampleManifestDigest : Text :=
  exampleText ["26f555a5fd3d044f66e1e5b3a8daccc1", "9d4f01f81cff1f2e391661a29b75b847"]

def exampleLibrary : Library ExampleFile where
  python := ⟨.ascii, fun _ _ => false, fun _ _ => false, fun _ => []⟩
  readText
    | .text text => .ok text
    | .archive => .error (.valueError "invalid start byte".toList)
  sha256
    | .text text => if text = exampleManifest then exampleManifestDigest else exampleInstallerDigest
    | .archive => exampleArchiveDigest
  members
    | .text _ => none
    | .archive => some (expectedMembers.map fun name => ⟨name, true, 1, .text "x".toList⟩)

def exampleRelease : List (Text × ExampleFile) :=
  [(manifestName, .text exampleManifest, exampleManifestDigest),
    ("platform.tar.xz".toList, .archive, exampleArchiveDigest),
    ("sdk.sh".toList, .text exampleInstaller, exampleInstallerDigest)].flatMap
  fun (name, file, digest) =>
    [(name, file), (name ++ ".sha256".toList, .text (digest ++ "  ".toList ++ name ++ "\n".toList))]

/-- What commands answer and do if all goes well. -/
def exampleAnswer (machine : Machine ExampleFile) : (command : InstallCommand ExampleFile) →
    Option (InstallOutput ExampleFile command × Machine ExampleFile)
  | .which _ => some (true, machine)
  | .sdkExists => some (machine.sdk.isSome, machine)
  | .platformExists => some (machine.platform.isSome, machine)
  | .environmentExists => some (machine.sdk.any (·.environment), machine)
  | .createStage => some ((), machine.clearStage)
  | .fetch _ name =>
      if name = [] ∨ (machine.stage name).isSome = true then none
      else (exampleRelease.lookup name).map fun file => ((), machine.writeStage name (some file))
  | .read name => (machine.stage name).map fun file => (file, machine)
  | .makeDirectory => some ((), { machine with extracted := [] })
  | .extract member => some ((), machine.addExtracted member.name member.contents)
  | .copyManifest =>
      (machine.stage manifestName).map fun file => ((), machine.addExtracted manifestName file)
  | .runInstaller name => some ((), { machine with sdk := (machine.stage name).map (⟨·, true⟩) })
  | .movePlatform => some ((), machine.replacePlatform)
  | .removeSdk => some ((), { machine with sdk := none })
  | .removeStage => some ((), machine.clearStage)
  | .print _ | .configure | .build => some ((), machine)

/-- The SDK installer is interrupted when it has made its directory. -/
def exampleInterrupt (machine : Machine ExampleFile) (command : InstallCommand ExampleFile) :
    Option (Except Raised (InstallOutput ExampleFile command) × Machine ExampleFile) :=
  match command with
  | .runInstaller name =>
      some (.error .interrupt, { machine with sdk := (machine.stage name).map (⟨·, false⟩) })
  | command => success exampleAnswer machine command

/-- The platform cannot be moved when the SDK is there. -/
def exampleMoveFails (machine : Machine ExampleFile) (command : InstallCommand ExampleFile) :
    Option (Except Raised (InstallOutput ExampleFile command) × Machine ExampleFile) :=
  match command with
  | .movePlatform => if machine.sdk.isSome then some (.error .command, machine) else none
  | command => success exampleAnswer machine command

def exampleMachine : Machine ExampleFile := ⟨none, none, fun _ => none, []⟩

def exampleInstall : InstallOptions where
  version := "v0.3.0".toList

/-- How a run ends: whether it succeeds, the environment of the SDK, and the platform. -/
def ending (final : Except Raised Unit × Machine ExampleFile) : Bool × Option Bool × Bool :=
  (final.1.isOk, final.2.sdk.map (·.environment), final.2.platform.isSome)

theorem example_endings :
    (execute exampleAnswer (Installer.main exampleLibrary exampleInstall) exampleMachine).map ending =
      some (true, some true, true) ∧
    (Program.execute exampleInterrupt (Installer.main exampleLibrary exampleInstall)
      exampleMachine).map ending = some (false, some false, false) ∧
    (Program.execute exampleMoveFails (Installer.main exampleLibrary exampleInstall)
      exampleMachine).map ending = some (false, none, false) := by
  decide +kernel

/-- The example does what commands may do. -/
theorem responds_of_exampleAnswer {machine machine' : Machine ExampleFile}
    {command : InstallCommand ExampleFile} {out : InstallOutput ExampleFile command}
    (h : exampleAnswer machine command = some (out, machine')) :
    machine.Responds command (.ok out) machine' := by
  cases command with
  | fetch url name =>
      obtain ⟨hfresh, hlookup⟩ := Option.ite_none_left_eq_some.mp h
      obtain ⟨file, -, heq⟩ := Option.map_eq_some_iff.mp hlookup
      cases heq
      exact ⟨fun hname => hfresh (.inl hname), file, rfl⟩
  | read name =>
      obtain ⟨file, hfile, heq⟩ := Option.map_eq_some_iff.mp h
      cases heq
      exact ⟨hfile, rfl⟩
  | copyManifest =>
      obtain ⟨file, hfile, heq⟩ := Option.map_eq_some_iff.mp h
      cases heq
      exact ⟨file, hfile, rfl⟩
  | runInstaller name =>
      cases h
      refine ⟨_, rfl, fun tree htree => ?_⟩
      obtain ⟨file, hfile, rfl⟩ := Option.map_eq_some_iff.mp htree
      exact hfile
  | sdkExists | platformExists | environmentExists =>
      cases h
      exact ⟨rfl, rfl⟩
  | which tool | createStage | print message | makeDirectory | extract member | movePlatform
  | removeSdk | removeStage | configure | build =>
      cases h
      rfl

theorem keeps_of_exampleAnswer {machine machine' : Machine ExampleFile}
    {command : InstallCommand ExampleFile} {out : InstallOutput ExampleFile command}
    (h : exampleAnswer machine command = some (out, machine')) :
    machine.Keeps command (.ok out) machine' := by
  refine ⟨responds_of_exampleAnswer h, ?_⟩
  rintro ⟨url, name, file, hquestion, hfile, -⟩
  obtain rfl : command = .fetch url name := hquestion
  obtain ⟨hfresh, -⟩ := Option.ite_none_left_eq_some.mp h
  exact hfresh (.inr (Option.isSome_of_eq_some hfile))

theorem responds_of_exampleInterrupt {machine machine' : Machine ExampleFile}
    {command : InstallCommand ExampleFile}
    {reply : Except Raised (InstallOutput ExampleFile command)}
    (h : exampleInterrupt machine command = some (reply, machine')) :
    machine.Responds command reply machine' := by
  unfold exampleInterrupt at h
  split at h
  · cases h
    refine ⟨_, rfl, fun tree htree => ?_⟩
    obtain ⟨file, hfile, rfl⟩ := Option.map_eq_some_iff.mp htree
    exact hfile
  · obtain ⟨⟨out, after⟩, hanswer, heq⟩ := Option.map_eq_some_iff.mp h
    cases heq
    exact responds_of_exampleAnswer hanswer

/-- A command of the run with the failing move succeeds, or it is that move. -/
private theorem of_exampleMoveFails {machine machine' : Machine ExampleFile}
    {command : InstallCommand ExampleFile}
    {reply : Except Raised (InstallOutput ExampleFile command)}
    (h : exampleMoveFails machine command = some (reply, machine')) :
    success exampleAnswer machine command = some (reply, machine') ∨
      (command = .movePlatform ∧ reply = .error .command ∧ machine' = machine ∧
        machine.sdk.isSome = true) := by
  unfold exampleMoveFails at h
  split at h
  · split at h
    · rename_i hsdk
      cases h
      exact .inr ⟨rfl, rfl, rfl, hsdk⟩
    · cases h
  · exact .inl h

private theorem keeps_of_exampleMoveFails {machine machine' : Machine ExampleFile}
    {command : InstallCommand ExampleFile}
    {reply : Except Raised (InstallOutput ExampleFile command)}
    (h : exampleMoveFails machine command = some (reply, machine')) :
    machine.Keeps command reply machine' ∧
      ∀ error, reply = .error error → error.isException = true ∧ command ≠ .sdkExists := by
  rcases of_exampleMoveFails h with hsuccess | ⟨rfl, rfl, rfl, -⟩
  · obtain ⟨⟨out, after⟩, hanswer, heq⟩ := Option.map_eq_some_iff.mp hsuccess
    obtain ⟨rfl, rfl⟩ := Prod.mk.inj heq
    exact ⟨keeps_of_exampleAnswer hanswer, fun error herror => nomatch herror⟩
  · refine ⟨⟨.inl rfl, ?_⟩, ?_⟩
    · rintro ⟨url, name, file, hquestion, -⟩
      cases hquestion
    · rintro error ⟨⟩
      exact ⟨rfl, fun hcommand => nomatch hcommand⟩

/-- The move of the platform fails when the SDK is installed. The rollback removes it, and
neither directory is there. -/
theorem all_or_nothing_iff_rolled_back : ∃ events result machine',
    Runs Machine.Responds exampleMachine (Installer.main exampleLibrary exampleInstall) events
      result machine' ∧
    (∃ event ∈ events, event.question = .movePlatform ∧ event.before.sdk.isSome = true) ∧
    machine'.sdk = none ∧ machine'.BothOrNeither ∧
    machine'.AllOrNothing exampleLibrary exampleInstall := by
  obtain ⟨⟨result, machine'⟩, hexecute, hending⟩ := Option.map_eq_some_iff.mp example_endings.2.2
  obtain ⟨hfailed, hsdk, -⟩ : result.isOk = false ∧
      machine'.sdk.map (·.environment) = none ∧ machine'.platform.isSome = false := by
    simpa only [ending, Prod.mk.injEq] using hending
  obtain ⟨events, hevents⟩ := Program.execute_eq_some_iff.mp hexecute
  have hanswers := fun event hevent => hevents.forall_respond event hevent
  have hrun : Runs Machine.Responds exampleMachine (Installer.main exampleLibrary exampleInstall)
      events result machine' := hevents.of_forall fun event hevent =>
    (keeps_of_exampleMoveFails (hanswers event hevent)).1.1
  have hclean : IsClean events := by
    rintro event hevent ⟨⟨error, herror, huncaught⟩, -⟩
    obtain ⟨hexception, hquestion⟩ :=
      (keeps_of_exampleMoveFails (hanswers event hevent)).2 error herror
    rcases huncaught with hinterrupt | hexists
    · exact absurd (hexception.symm.trans hinterrupt) (by simp)
    · exact hquestion hexists
  have hmove : ∃ event ∈ events, event.question = .movePlatform ∧
      event.before.sdk.isSome = true := by
    by_contra hnone
    push Not at hnone
    have hsuccess : (execute exampleAnswer (Installer.main exampleLibrary exampleInstall)
        exampleMachine) = some (result, machine') := by
      apply Program.execute_eq_some_iff.mpr
      refine ⟨events, hevents.of_forall fun event hevent => ?_⟩
      rcases of_exampleMoveFails (hanswers event hevent) with h | ⟨hquestion, -, -, hthere⟩
      · exact h
      · exact absurd hthere (hnone event hevent hquestion)
    have hok := example_endings.1
    rw [hsuccess, Option.map_some, Option.some.injEq, ending, Prod.mk.injEq, hfailed] at hok
    exact absurd hok.1 (by simp)
  obtain ⟨hboth, hall⟩ := all_or_nothing_iff hrun ⟨rfl, rfl⟩
  refine ⟨events, result, machine', hrun, hmove, Option.map_eq_none_iff.mp hsdk,
    hboth.mpr hclean, ?_⟩
  exact (hall fun event hevent =>
    (keeps_of_exampleMoveFails (hanswers event hevent)).1.2).mpr hclean

/-- After an interrupt in the SDK installer there is its directory only, and whatever
is installed next is refused. -/
theorem interrupted_sdk_refused : ∃ events result machine',
    Runs Machine.Responds exampleMachine (Installer.main exampleLibrary exampleInstall) events
      result machine' ∧ exampleMachine.IsAbsent ∧ machine'.IsPartial ∧
    ¬machine'.AllOrNothing exampleLibrary exampleInstall ∧
    ∀ options events' after,
      ¬Runs Machine.Responds machine' (Installer.main exampleLibrary options) events' (.ok ()) after := by
  obtain ⟨⟨result, machine'⟩, hexecute, hending⟩ := Option.map_eq_some_iff.mp example_endings.2.1
  obtain ⟨-, hsdk, hplatform⟩ : result.isOk = false ∧
      machine'.sdk.map (·.environment) = some false ∧ machine'.platform.isSome = false := by
    simpa only [ending, Prod.mk.injEq] using hending
  obtain ⟨events, hevents⟩ := Program.execute_eq_some_iff.mp hexecute
  have hrun : Runs Machine.Responds exampleMachine (Installer.main exampleLibrary exampleInstall)
      events result machine' := hevents.of_forall fun event hevent =>
    responds_of_exampleInterrupt (hevents.forall_respond event hevent)
  obtain ⟨tree, htree, -⟩ := Option.map_eq_some_iff.mp hsdk
  have hsome : machine'.sdk.isSome = true := Option.isSome_of_eq_some htree
  have hunpaired : machine'.IsPartial := ⟨hsome, by simpa using hplatform⟩
  refine ⟨events, result, machine', hrun, ⟨rfl, rfl⟩, hunpaired, fun hall => ?_, ?_⟩
  · exact Machine.not_isPartial_of_bothOrNeither hall.bothOrNeither hunpaired
  · intro options events' after hrerun
    exact refused_of_sdk hsome events' () after hrerun

end Example

end AdaptivePi.Yocto
