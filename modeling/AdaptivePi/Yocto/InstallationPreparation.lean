import AdaptivePi.Yocto.InstallRelease

namespace AdaptivePi.Yocto

open Foundation Foundation.PythonText Script

variable {Content : Type}

/-- The files of the platform and the SDK installer that one manifest lists. -/
def Verified (library : Library Content) (options : InstallOptions)
    (files : List (Text × Content)) (installer : Content) : Prop :=
  ∃ manifestFile manifest bundle members,
    readManifest library options manifestFile = .ok manifest ∧
    manifest.subscript "platform_sha256".toList = .ok (.string (library.sha256 bundle)) ∧
    manifest.subscript "sdk_sha256".toList = .ok (.string (library.sha256 installer)) ∧
    library.members bundle = some members ∧ areExpected members = true ∧
    files = members.map (fun member => (member.name, member.contents)) ++ [(manifestName, manifestFile)]

namespace Machine

variable (machine machine' : Machine Content)

def Agrees : Prop := machine'.sdk = machine.sdk ∧ machine'.platform = machine.platform

def Extends : Prop := ∀ name file, machine.stage name = some file → machine'.stage name = some file

end Machine

abbrev InstallEvent (Content : Type) :=
  Event (InstallCommand Content) (InstallOutput Content) Raised (Machine Content)

/-- A download puts another file in the place of one that is there. -/
def Replaces (event : InstallEvent Content) : Prop := ∃ url name file,
  event.question = .fetch url name ∧ event.before.stage name = some file ∧
  event.after.stage name ≠ some file

def AllKept (events : List (InstallEvent Content)) : Prop := ∀ event ∈ events, ¬Replaces event

theorem allKept_append {past events : List (InstallEvent Content)} :
    AllKept (past ++ events) ↔ AllKept past ∧ AllKept events := by
  unfold AllKept
  simp [or_imp, forall_and]

namespace Machine

variable {machine machine' middle : Machine Content}

theorem Agrees.refl (machine : Machine Content) : machine.Agrees machine := ⟨rfl, rfl⟩

theorem Agrees.trans (h : machine.Agrees middle) (h' : middle.Agrees machine') :
    machine.Agrees machine' :=
  ⟨h'.1.trans h.1, h'.2.trans h.2⟩

theorem Extends.refl (machine : Machine Content) : machine.Extends machine := fun _ _ h => h

theorem Extends.trans (h : machine.Extends middle) (h' : middle.Extends machine') :
    machine.Extends machine' :=
  fun name file hfile => h' name file (h name file hfile)

end Machine

/-- The commands that change what is installed. -/
def InstallCommand.installs : InstallCommand Content → Bool
  | .runInstaller _ | .movePlatform | .removeSdk => true
  | _ => false

/-- The commands that clear the temporary directory. -/
def InstallCommand.clears : InstallCommand Content → Bool
  | .createStage | .removeStage => true
  | _ => false

abbrev IsIdle (command : InstallCommand Content) : Prop := command.installs = false

/-- The commands of the preparation. -/
abbrev IsStaging (command : InstallCommand Content) : Prop :=
  command.installs = false ∧ command.clears = false

section Steps

variable {machine machine' : Machine Content} {command : InstallCommand Content}
  {reply : Except Raised (InstallOutput Content command)}

/-- An idle command changes files of the temporary directory only, and only a download
replaces those of the release. -/
theorem idle_cases (h : machine.Responds command reply machine') (hidle : IsIdle command) :
    ∃ stage extracted, machine' = { machine with stage := stage, extracted := extracted } ∧
      (command.clears = true ∨ stage = machine.stage ∨ ∃ url name file,
        command = .fetch url name ∧ stage = Function.update machine.stage name file) := by
  cases command with
  | runInstaller name => cases hidle
  | movePlatform => cases hidle
  | removeSdk => cases hidle
  | sdkExists | platformExists | environmentExists | read name =>
      cases reply with
      | ok out =>
          obtain ⟨-, rfl⟩ := h
          exact ⟨_, _, rfl, .inr (.inl rfl)⟩
      | error error =>
          obtain rfl : machine' = machine := h
          exact ⟨_, _, rfl, .inr (.inl rfl)⟩
  | fetch url name =>
      cases reply with
      | ok out =>
          obtain ⟨-, file, rfl⟩ := h
          exact ⟨_, _, rfl, .inr (.inr ⟨url, name, some file, rfl, rfl⟩)⟩
      | error error =>
          obtain ⟨file, rfl⟩ := h
          exact ⟨_, _, rfl, .inr (.inr ⟨url, name, file, rfl, rfl⟩)⟩
  | makeDirectory =>
      cases reply with
      | ok out => exact ⟨_, _, h, .inr (.inl rfl)⟩
      | error error => exact ⟨_, _, h, .inr (.inl rfl)⟩
  | extract member =>
      cases reply with
      | ok out => exact ⟨_, _, h, .inr (.inl rfl)⟩
      | error error =>
          obtain ⟨extracted, rfl⟩ := h
          exact ⟨_, _, rfl, .inr (.inl rfl)⟩
  | copyManifest =>
      cases reply with
      | ok out =>
          obtain ⟨file, -, rfl⟩ := h
          exact ⟨_, _, rfl, .inr (.inl rfl)⟩
      | error error =>
          obtain ⟨extracted, rfl⟩ := h
          exact ⟨_, _, rfl, .inr (.inl rfl)⟩
  | createStage =>
      cases reply with
      | ok out => exact ⟨_, _, h, .inl rfl⟩
      | error error => exact ⟨_, _, h, .inl rfl⟩
  | removeStage =>
      cases reply with
      | ok out => exact ⟨_, _, h, .inl rfl⟩
      | error error =>
          obtain ⟨-, stage, extracted, rfl⟩ := h
          exact ⟨_, _, rfl, .inl rfl⟩
  | which tool | print message | configure | build => exact ⟨_, _, h, .inr (.inl rfl)⟩

theorem agrees_of_idle (h : machine.Responds command reply machine') (hidle : IsIdle command) :
    machine.Agrees machine' := by
  obtain ⟨stage, extracted, rfl, -⟩ := idle_cases h hidle
  exact ⟨rfl, rfl⟩

/-- What a command of the preparation keeps, unless it replaces a file. -/
theorem extends_of_staging (h : machine.Responds command reply machine') (hstaging : IsStaging command)
    (hkept : ¬Replaces ⟨machine, command, reply, machine'⟩) : machine.Extends machine' := by
  obtain ⟨stage, extracted, rfl, hclears | rfl | ⟨url, name, file, rfl, rfl⟩⟩ :=
    idle_cases h hstaging.1
  · rw [hstaging.2] at hclears
    cases hclears
  · exact .refl _
  · intro other before hbefore
    by_cases hother : other = name
    · subst hother
      by_contra hreplaced
      exact hkept ⟨url, other, before, rfl, hbefore, hreplaced⟩
    · exact (Function.update_of_ne hother _ _).trans hbefore

end Steps

section Commands

variable {library : Library Content} {options : InstallOptions}

theorem staging_give {command : InstallCommand Content} (h : IsStaging command) :
    Every IsStaging (give command) := every_perform h

theorem staging_expect {condition : Bool} {message : Text} :
    Every IsStaging (@expect Content condition message) := every_require

theorem staging_pureCode {α : Type} {result : Except PythonError α} :
    Every IsStaging (@pureCode Content α result) := by
  cases result with
  | ok value => exact every_pure
  | error error => exact every_raise

theorem staging_download {name : Text} : Every IsStaging (@download Content options name) :=
  every_bind staging_expect fun _ => every_bind (staging_give ⟨rfl, rfl⟩) fun _ => staging_give ⟨rfl, rfl⟩

theorem staging_verify {name : Text} : Every IsStaging (verify library name) :=
  every_bind (staging_give ⟨rfl, rfl⟩) fun _ => every_bind staging_pureCode fun _ =>
    every_bind staging_pureCode fun _ => every_bind (staging_give ⟨rfl, rfl⟩) fun _ =>
    every_bind staging_expect fun _ => every_pure

theorem staging_fetchVerified {name : Text} : Every IsStaging (fetchVerified library options name) :=
  every_bind staging_download fun _ => every_bind staging_download fun _ => staging_verify

theorem staging_fetchListed {manifest : Json} {nameKey digestKey message : String} :
    Every IsStaging (fetchListed library options manifest nameKey digestKey message) :=
  every_bind staging_pureCode fun _ => every_bind staging_fetchVerified fun _ =>
    every_bind staging_pureCode fun _ => every_bind staging_expect fun _ => every_pure

theorem staging_extractAll {members : List (Member Content)} :
    Every IsStaging (extractAll members) := by
  induction members with
  | nil => exact every_pure
  | cons member members ih => exact every_bind (staging_give ⟨rfl, rfl⟩) fun _ => ih

theorem staging_extractPlatform {bundle : Text} : Every IsStaging (extractPlatform library bundle) := by
  refine every_bind (staging_give ⟨rfl, rfl⟩) fun _ => every_bind (staging_give ⟨rfl, rfl⟩) fun archive => ?_
  cases library.members archive with
  | none => exact every_raise
  | some members =>
      exact every_bind staging_expect fun _ => every_bind staging_extractAll fun _ => staging_give ⟨rfl, rfl⟩

/-- The preparation only downloads and extracts. -/
theorem staging_prepare : Every IsStaging (prepare library options) :=
  every_bind staging_fetchVerified fun _ => every_bind (staging_give ⟨rfl, rfl⟩) fun _ =>
    every_bind staging_pureCode fun _ => every_bind staging_fetchListed fun _ =>
    every_bind staging_fetchListed fun _ => every_bind staging_extractPlatform fun _ => every_pure

theorem staging_checkTools {tools : List Text} :
    Every IsStaging (@checkTools Content tools) := by
  induction tools with
  | nil => exact every_pure
  | cons tool tools ih =>
      exact every_bind (staging_give ⟨rfl, rfl⟩) fun _ => every_bind staging_expect fun _ => ih

theorem staging_isInstalled : Every IsStaging (@isInstalled Content) := by
  refine every_bind (staging_give ⟨rfl, rfl⟩) fun there => ?_
  cases there with
  | true => exact every_pure
  | false => exact staging_give ⟨rfl, rfl⟩

/-- The checks of the host change nothing. -/
theorem staging_checkHost : Every IsStaging (@checkHost Content options) :=
  every_bind staging_expect fun _ => every_bind staging_expect fun _ =>
    every_bind staging_checkTools fun _ => every_bind staging_isInstalled fun _ => staging_expect

theorem idle_of_staging {α : Type} {script : Installer Content α} (h : Every IsStaging script) :
    Every IsIdle script :=
  Every.mono h fun _ hstaging => hstaging.1

theorem idle_checkHost : Every IsIdle (@checkHost Content options) :=
  idle_of_staging staging_checkHost

theorem idle_prepare : Every IsIdle (prepare library options) :=
  idle_of_staging staging_prepare

theorem idle_give {command : InstallCommand Content} (h : IsIdle command) :
    Every IsIdle (give command) := every_perform h

end Commands

/-- What is installed is the same at any time of an idle script. -/
theorem agrees_of_runs {α : Type} {machine machine' : Machine Content}
    {events : List (InstallEvent Content)} {script : Installer Content α} {result : Except Raised α}
    (hidle : Every IsIdle script) (hrun : Runs Machine.Responds machine script events result machine') :
    machine.Agrees machine' ∧ ∀ event ∈ events, machine.Agrees event.after :=
  Program.Leads.invariant hrun (.refl machine) fun event hevent hbefore =>
    hbefore.trans (agrees_of_idle (Program.Leads.forall_respond hrun event hevent)
      (hidle.forall_event hrun event hevent))

/-- What commands do when no download replaces a file. -/
def Machine.Keeps (machine : Machine Content) (command : InstallCommand Content)
    (reply : Except Raised (InstallOutput Content command)) (machine' : Machine Content) : Prop :=
  machine.Responds command reply machine' ∧ ¬Replaces ⟨machine, command, reply, machine'⟩

section Preparation

variable {library : Library Content} {options : InstallOptions} {machine : Machine Content}

theorem yields_give {command : InstallCommand Content}
    {P : InstallOutput Content command → Machine Content → Prop}
    (h : ∀ out after, machine.Responds command (.ok out) after → P out after) :
    Yields Machine.Keeps P (give command) machine :=
  yields_perform.mpr fun out after hrespond => h out after hrespond.1

variable {respond : Responses (fun command => Except Raised (InstallOutput Content command))
  (Machine Content)}

theorem yields_expect {condition : Bool} {message : Text} {P : Unit → Machine Content → Prop}
    (h : condition = true → P () machine) :
    Yields respond P (expect condition message) machine :=
  yields_require.mpr h

theorem yields_pureCode {α : Type} {result : Except PythonError α} {P : α → Machine Content → Prop}
    (h : ∀ value, result = .ok value → P value machine) :
    Yields respond P (pureCode result) machine := by
  cases result with
  | ok value => exact yields_pure.mpr (h value rfl)
  | error error => exact yields_raise

/-- The preparation keeps the files that are there. -/
theorem yields_extends {α : Type} {script : Installer Content α} {P : α → Machine Content → Prop}
    (hstaging : Every IsStaging script) (h : Yields Machine.Keeps P script machine) :
    Yields Machine.Keeps (fun value after => P value after ∧ machine.Extends after) script machine := by
  intro events value after hrun
  refine ⟨h events value after hrun, Program.Leads.preserves Machine.Extends.refl
    (fun _ _ _ => Machine.Extends.trans) hrun fun event hevent => ?_⟩
  obtain ⟨hrespond, hkept⟩ := Program.Leads.forall_respond hrun event hevent
  exact extends_of_staging hrespond (hstaging.forall_event hrun event hevent) hkept

/-- A file that is verified has the digest that is returned. -/
theorem yields_verify {name : Text} : Yields Machine.Keeps (fun digest after =>
    ∃ file, after.stage name = some file ∧ digest = library.sha256 file)
    (verify library name) machine := by
  refine yields_bind_of_forall fun checksum _ => yields_bind_of_forall fun text _ =>
    yields_bind_of_forall fun digest between => yields_bind.mpr (@yields_give _ between (.read name) _ ?_)
  rintro file after ⟨hfile, rfl⟩
  exact yields_bind.mpr (yields_expect fun _ => yields_pure.mpr ⟨file, hfile, rfl⟩)

theorem yields_fetchVerified {name : Text} : Yields Machine.Keeps (fun digest after =>
    ∃ file, after.stage name = some file ∧ digest = library.sha256 file)
    (fetchVerified library options name) machine :=
  yields_bind_of_forall fun _ _ => yields_bind_of_forall fun _ _ => yields_verify

theorem eq_of_not_differs {manifest : Json} {key text : Text}
    (h : differs manifest key text = .ok false) : manifest.subscript key = .ok (.string text) := by
  unfold differs at h
  cases hvalue : manifest.subscript key with
  | error error =>
      rw [hvalue] at h
      cases h
  | ok value =>
      rw [hvalue] at h
      have hequal : value.equalsText text = true := by
        have heq : (!value.equalsText text) = false := Except.ok.inj h
        rwa [Bool.not_eq_false'] at heq
      rw [Json.equalsText_iff.mp hequal]

/-- A file that is listed has the digest of the manifest. -/
theorem yields_fetchListed {manifest : Json} {nameKey digestKey message : String} :
    Yields Machine.Keeps (fun name after => ∃ file, after.stage name = some file ∧
      manifest.subscript digestKey.toList = .ok (.string (library.sha256 file)))
    (fetchListed library options manifest nameKey digestKey message) machine := by
  refine yields_bind_of_forall fun name _ => yields_bind.mpr ?_
  intro events digest after hrun
  obtain ⟨file, hfile, rfl⟩ := yields_fetchVerified events digest after hrun
  refine yields_bind.mpr (yields_pureCode fun mismatch hmismatch => ?_)
  refine yields_bind.mpr (yields_expect fun hsame => yields_pure.mpr ⟨file, hfile, ?_⟩)
  rw [Bool.not_eq_true'] at hsame
  subst hsame
  exact eq_of_not_differs hmismatch

theorem yields_extractAll {members : List (Member Content)} : Yields Machine.Keeps (fun _ after =>
    after.extracted = machine.extracted ++ members.map (fun member => (member.name, member.contents)))
    (extractAll members) machine := by
  induction members generalizing machine with
  | nil => exact yields_pure.mpr (List.append_nil _).symm
  | cons member members ih =>
      refine yields_bind.mpr (@yields_give _ machine (.extract member) _ ?_)
      rintro out after rfl
      intro events value final hrun
      rw [ih events value final hrun, List.map_cons]
      exact List.append_assoc _ _ _

/-- What is extracted is the archive and the manifest. -/
theorem yields_extractPlatform {bundle : Text} {archive manifestFile : Content}
    (harchive : machine.stage bundle = some archive)
    (hmanifest : machine.stage manifestName = some manifestFile) :
    Yields Machine.Keeps (fun _ after => ∃ members, library.members archive = some members ∧
      areExpected members = true ∧ after.extracted =
        members.map (fun member => (member.name, member.contents)) ++ [(manifestName, manifestFile)])
    (extractPlatform library bundle) machine := by
  refine yields_bind.mpr (@yields_give _ machine .makeDirectory _ ?_)
  rintro out cleared rfl
  refine yields_bind.mpr (@yields_give _ _ (.read bundle) _ ?_)
  rintro file after ⟨hfile, rfl⟩
  obtain rfl := Option.some.inj (harchive.symm.trans hfile)
  cases hmembers : library.members archive with
  | none => exact yields_raise
  | some members =>
      refine yields_bind.mpr (yields_expect fun hexpected => yields_bind.mpr ?_)
      intro events value after hrun
      obtain ⟨hextracted, hextends⟩ :=
        yields_extends staging_extractAll yields_extractAll events value after hrun
      refine @yields_give _ after .copyManifest _ ?_
      rintro out copied ⟨copy, hcopy, rfl⟩
      obtain rfl := Option.some.inj (hcopy.symm.trans (hextends manifestName manifestFile hmanifest))
      exact ⟨members, rfl, hexpected, congrArg (· ++ [(manifestName, copy)]) hextracted⟩

/-- What is prepared is verified. -/
theorem yields_prepare : Yields Machine.Keeps (fun installer after => ∃ file,
    after.stage installer = some file ∧ Verified library options after.extracted file)
    (prepare library options) machine := by
  refine yields_bind_of_forall fun _ _ => yields_bind.mpr (@yields_give _ _ (.read manifestName) _ ?_)
  rintro manifestFile start ⟨hmanifestFile, rfl⟩
  refine yields_bind.mpr (yields_pureCode fun manifest hmanifest => yields_bind.mpr ?_)
  intro events bundle second hbundle
  obtain ⟨⟨archive, harchive, hplatform⟩, hsecond⟩ :=
    yields_extends staging_fetchListed yields_fetchListed events bundle second hbundle
  refine yields_bind.mpr ?_
  intro events installer third hinstaller
  obtain ⟨⟨file, hfile, hsdk⟩, hthird⟩ :=
    yields_extends staging_fetchListed yields_fetchListed events installer third hinstaller
  refine yields_bind.mpr ?_
  intro events done after hextract
  obtain ⟨⟨members, hmembers, hexpected, hextracted⟩, hafter⟩ :=
    yields_extends staging_extractPlatform (yields_extractPlatform (hthird _ _ harchive)
      (hthird _ _ (hsecond _ _ hmanifestFile))) events done after hextract
  exact yields_pure.mpr ⟨file, hafter _ _ hfile, manifestFile, manifest, archive, members, hmanifest,
    hplatform, hsdk, hmembers, hexpected, hextracted⟩

end Preparation

end AdaptivePi.Yocto
