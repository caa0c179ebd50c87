import AdaptivePi.Yocto.PublicationChecks

/-!
An interrupted publication, and the retry that replaces its assets. The draft
that the first run leaves has no tag, and the retry asks for one. So it completes
the publication only if the tag was there before, or if what failed was the last
command and it has created the tag.
-/

namespace AdaptivePi.Yocto

open Foundation Script

section GitHub

variable {github : GitHub} {version : Text}

theorem release_addRelease {release : Release} {version' : Text} :
    (github.addRelease release).release version' =
      if release.tagName = version' then some release else github.release version' := by
  unfold GitHub.release GitHub.addRelease
  cases github.pages <;> by_cases h : release.tagName = version' <;> simp [h]

/-- A change that keeps the tag names changes the releases that are found. -/
theorem release_modifyRelease_eq {f : Release → Release} {version' : Text}
    (hf : ∀ release, (f release).tagName = release.tagName) :
    (github.modifyRelease version f).release version' =
      (github.release version').map fun release =>
        if release.tagName = version then f release else release := by
  have hname : ∀ release : Release,
      (if release.tagName = version then f release else release).tagName = release.tagName := by
    intro release
    split
    · exact hf release
    · rfl
  unfold GitHub.release GitHub.modifyRelease
  rw [← List.map_flatten, List.find?_map]
  simp only [Function.comp_def, hname]

/-- The release that is changed is found under its tag. -/
theorem release_modifyRelease {f : Release → Release} {release : Release}
    (h : github.release version = some release)
    (hf : ∀ release, (f release).tagName = release.tagName) :
    (github.modifyRelease version f).release version = some (f release) := by
  have htag : release.tagName = version := by simpa using List.find?_some h
  rw [release_modifyRelease_eq hf, h, Option.map_some, if_pos htag]

theorem refs_createTag {commit : Text} : (github.createTag version commit).refs =
    if (github.tag version).isSome then github.refs
    else github.refs ++ [⟨tagRef version, ⟨"commit".toList, commit⟩⟩] := by
  unfold GitHub.createTag
  split <;> rfl

theorem release_createTag {commit : Text} :
    (github.createTag version commit).release version = github.release version := by
  unfold GitHub.createTag
  split <;> rfl

/-- A tag that is there stays where it is. -/
theorem tag_createTag {commit : Text} : (github.createTag version commit).tag version =
    if (github.tag version).isSome then github.tag version
    else some ⟨tagRef version, ⟨"commit".toList, commit⟩⟩ := by
  unfold GitHub.createTag
  split
  · rfl
  · rename_i htag
    have hnone : github.refs.find? (fun ref => ref.name = tagRef version) = none := by
      simpa [GitHub.tag] using htag
    unfold GitHub.tag
    rw [List.find?_append, hnone]
    simp

end GitHub

def World.IsPublic (world : World) (version : Text) : Prop :=
  ∃ release, world.github.release version = some release ∧ release.draft = false

def IsCreated (event : Event Command Output Failure World) : Prop :=
  (∃ repo version commit, event.question = .createRelease repo version commit) ∧
    ∃ out, event.answer = .ok out

/-- The commands that change GitHub change only its releases and references. -/
structure Framed (world world' : World) : Prop where
  checkout : world'.checkout = world.checkout
  commits : world'.github.commits = world.github.commits
  tagObjects : world'.github.tagObjects = world.github.tagObjects

theorem Framed.trans {world middle world' : World} (h : Framed world middle)
    (h' : Framed middle world') : Framed world world' :=
  ⟨h'.checkout.trans h.checkout, h'.commits.trans h.commits, h'.tagObjects.trans h.tagObjects⟩

/-- What a failed run leaves of a release that it has created: a draft, or a
public release with its tag. -/
inductive Leaves (version commit : Text) (github github' : GitHub) : Prop where
  | draft (release : Release) (hrelease : github'.release version = some release)
      (hdraft : release.draft = true) (hrefs : github'.refs = github.refs)
  | published (release : Release) (hrelease : github'.release version = some release)
      (hdraft : release.draft = false) (hrefs : github'.refs = (github.createTag version commit).refs)

section FirstRun

variable {fuel : Nat} {options : Options} {repo version commit : Text} {assets : List Text}
  {clobber : Bool} {world world' : World} {error : Failure} {release : Release}
  {events : List (Event Command Output Failure World)}

/-- An upload, complete or not, changes nothing but assets. -/
theorem release_of_upload (hrelease : world.github.release version = some release)
    {reply : Except Failure Unit}
    (h : World.Responds world (.upload repo version assets clobber) reply world') :
    Framed world world' ∧ world'.github.refs = world.github.refs ∧ ∃ release',
      world'.github.release version = some release' ∧ release'.draft = release.draft ∧
        release'.target = release.target := by
  cases reply with
  | ok out =>
      have hanswer : world.answer (.upload repo version assets clobber) = some (out, world') := h
      simp only [World.answer, hrelease] at hanswer
      obtain ⟨-, heq⟩ := Option.ite_none_right_eq_some.mp hanswer
      cases heq
      refine ⟨⟨rfl, rfl, rfl⟩, rfl, release.addAssets assets, ?_, rfl, rfl⟩
      exact release_modifyRelease hrelease fun _ => rfl
  | error error =>
      obtain ⟨-, left, -, rfl⟩ := h
      refine ⟨⟨rfl, rfl, rfl⟩, rfl, { release with assets := left release }, ?_, rfl, rfl⟩
      exact release_modifyRelease hrelease fun _ => rfl

/-- What publishing does. -/
theorem release_of_publish (hrelease : world.github.release version = some release) {out : Unit}
    (h : world.answer (.publish repo version) = some (out, world')) :
    Framed world world' ∧ world'.github.refs = (world.github.createTag version release.target).refs ∧
      world'.github.release version = some { release with draft := false } := by
  simp only [World.answer, hrelease] at h
  obtain ⟨-, heq⟩ := Option.ite_none_right_eq_some.mp h
  cases heq
  refine ⟨?_, ?_, ?_⟩
  · unfold GitHub.createTag
    split <;> exact ⟨rfl, rfl, rfl⟩
  · exact refs_createTag.trans (@refs_createTag world.github version _).symm
  · exact release_createTag.trans (release_modifyRelease hrelease fun _ => rfl)

theorem leaves_of_publishAssets
    (hrun : Runs World.Responds world (publishAssets options repo commit none assets) events
      (.error error) world')
    (hcreated : ∃ event ∈ events, IsCreated event) :
    Leaves options.version commit world.github world'.github ∧ Framed world world' := by
  rcases runs_bind_iff.mp hrun with ⟨_, -, hfirst⟩ | ⟨_, first, rest, between, rfl, hfirst, hrest⟩
  · obtain ⟨-, rfl⟩ := runs_perform_iff.mp hfirst
    obtain ⟨event, hevent, -, out, hout⟩ := hcreated
    obtain rfl := List.mem_singleton.mp hevent
    cases hout
  · obtain ⟨hcreate, -⟩ := runs_perform_iff.mp hfirst
    obtain ⟨⟨-, hnone⟩, heq⟩ := Option.ite_none_right_eq_some.mp hcreate
    cases heq
    have hrelease : (world.github.addRelease ⟨options.version, true, commit, []⟩).release
        options.version = some ⟨options.version, true, commit, []⟩ :=
      release_addRelease.trans (if_pos rfl)
    have hframed : Framed world
        (world.withGitHub (world.github.addRelease ⟨options.version, true, commit, []⟩)) :=
      ⟨rfl, rfl, rfl⟩
    rcases runs_bind_iff.mp hrest with
      ⟨_, -, hupload⟩ | ⟨_, second, last, between, rfl, hupload, hlast⟩
    · obtain ⟨hframed', hrefs, release', hrelease', hdraft, -⟩ :=
        release_of_upload hrelease (runs_perform_iff.mp hupload).1
      exact ⟨.draft release' hrelease' hdraft hrefs, hframed.trans hframed'⟩
    · obtain ⟨hframed', hrefs, release', hrelease', hdraft, htarget⟩ :=
        release_of_upload hrelease (runs_perform_iff.mp hupload).1
      obtain ⟨-, hpublish⟩ := (runs_perform_iff.mp hlast).1
      rcases hpublish with rfl | hpublish
      · exact ⟨.draft release' hrelease' hdraft hrefs, hframed.trans hframed'⟩
      · obtain ⟨hframed'', hrefs', hpublic⟩ := release_of_publish hrelease' hpublish
        refine ⟨.published _ hpublic rfl ?_, (hframed.trans hframed').trans hframed''⟩
        rw [hrefs', htarget, refs_createTag, refs_createTag]
        unfold GitHub.tag
        rw [hrefs]
        rfl

theorem not_isCreated_of_quiet {α : Type} {script : Publisher α} {result : Except Failure α}
    (hquiet : Every IsQuiet script)
    (hrun : Runs World.Responds world script events result world') :
    ¬∃ event ∈ events, IsCreated event := by
  rintro ⟨event, hevent, ⟨repo, version, commit, hcommand⟩, -⟩
  have hquestion := hquiet.forall_event hrun event hevent
  rw [hcommand] at hquestion
  cases hquestion

/-- No release is created if there is one. -/
theorem not_isCreated_of_some {result : Except Failure Unit}
    (hrun : Runs World.Responds world (publishAssets options repo commit (some release) assets)
      events result world') : ¬∃ event ∈ events, IsCreated event := by
  rintro ⟨event, hevent, ⟨repo', version, commit', hcommand⟩, -⟩
  have hother : Every (fun command => ∀ repo version commit, command ≠ .createRelease repo version commit)
      (publishAssets options repo commit (some release) assets) :=
    every_bind every_pure fun _ => every_bind (every_perform fun _ _ _ => nofun) fun _ =>
      every_onlyIf (every_perform fun _ _ _ => nofun)
  exact hother.forall_event hrun event hevent _ _ _ hcommand

/-- A created release is created by the last part of a run. -/
theorem exists_isCreated_of_append {first rest : List (Event Command Output Failure World)}
    (hfirst : ¬∃ event ∈ first, IsCreated event)
    (h : ∃ event ∈ first ++ rest, IsCreated event) : ∃ event ∈ rest, IsCreated event := by
  obtain ⟨event, hevent, hcreated⟩ := h
  rcases List.mem_append.mp hevent with hmem | hmem
  · exact absurd ⟨event, hmem, hcreated⟩ hfirst
  · exact ⟨event, hmem, hcreated⟩

/-- A failed run that has created a release has passed its checks, and leaves a
state in which they pass again. -/
theorem leaves_of_main
    (hrun : Runs World.Responds world (Publisher.main fuel options) events (.error error) world')
    (hcreated : ∃ event ∈ events, IsCreated event) :
    options.prepareOnly = false ∧ ∃ sdk commit, Prepared options.version sdk commit world'.checkout ∧
      Pushed fuel options.version commit world.github ∧
      Leaves options.version commit world.github world'.github ∧
      world'.github.commits = world.github.commits ∧
      world'.github.tagObjects = world.github.tagObjects := by
  rcases runs_bind_iff.mp hrun with ⟨_, -, hfirst⟩ | ⟨sdk, first, rest, between, rfl, hfirst, hrest⟩
  · exact absurd hcreated (not_isCreated_of_quiet quiet_checkArtifacts hfirst)
  have hcreated := exists_isCreated_of_append (not_isCreated_of_quiet quiet_checkArtifacts hfirst) hcreated
  rcases runs_bind_iff.mp hrest with
    ⟨_, -, hsecond⟩ | ⟨⟨commit, dirty⟩, second, rest, checked, rfl, hsecond, hrest⟩
  · exact absurd hcreated (not_isCreated_of_quiet quiet_checkCheckout hsecond)
  have hcreated := exists_isCreated_of_append (not_isCreated_of_quiet quiet_checkCheckout hsecond) hcreated
  cases hprepareOnly : options.prepareOnly with
  | true =>
      simp only [hprepareOnly, if_true] at hrest
      exact absurd hcreated (not_isCreated_of_quiet (quiet_run rfl) hrest)
  | false =>
      simp only [hprepareOnly, Bool.false_eq_true, if_false] at hrest
      obtain ⟨hprepared, hsdk⟩ := prepared_of_runs hprepareOnly hfirst hsecond
      have hgithub : checked.github = world.github :=
        (github_eq_of_runs quiet_checkCheckout hsecond).trans
          (github_eq_of_runs quiet_checkArtifacts hfirst)
      rcases runs_bind_iff.mp hrest with
        ⟨_, -, hthird⟩ | ⟨⟨repo, release⟩, third, rest, remote, rfl, hthird, hrest⟩
      · exact absurd hcreated (not_isCreated_of_quiet quiet_checkRemote hthird)
      have hcreated := exists_isCreated_of_append
        (not_isCreated_of_quiet quiet_checkRemote hthird) hcreated
      obtain ⟨rfl, rfl, rfl, htag, hcommit⟩ := yields_checkRemote _ _ _ hthird
      rcases runs_bind_iff.mp hrest with ⟨_, -, hfourth⟩ | ⟨_, fourth, rest, packed, rfl, hfourth, hrest⟩
      · exact absurd hcreated (not_isCreated_of_quiet (quiet_run rfl) hfourth)
      have hcreated := exists_isCreated_of_append (not_isCreated_of_quiet (quiet_run rfl) hfourth) hcreated
      obtain ⟨hpackage, -⟩ := runs_perform_iff.mp hfourth
      cases hpackage
      cases hrelease : remote.github.release options.version with
      | some release =>
          rw [hrelease] at hrest
          exact absurd hcreated (not_isCreated_of_some hrest)
      | none =>
          rw [hrelease] at hrest
          obtain ⟨hleaves, hframed⟩ := leaves_of_publishAssets hrest hcreated
          rw [← hframed.checkout] at hprepared
          rw [hgithub] at htag hcommit hleaves
          exact ⟨rfl, sdk, commit, hprepared, ⟨htag, hcommit⟩, hleaves,
            hframed.commits.trans (congrArg _ hgithub), hframed.tagObjects.trans (congrArg _ hgithub)⟩

end FirstRun

section Second

variable {fuel : Nat} {options : Options} {sdk commit version : Text} {world world' : World}
  {release : Release} {assets : List Text}

/-- What is left passes the remote checks too, and has a tag unless it is a draft
that had none. -/
theorem pushed_of_leaves {github github' : GitHub} (h : Pushed fuel version commit github)
    (hleaves : Leaves version commit github github') (hcommits : github'.commits = github.commits)
    (htagObjects : github'.tagObjects = github.tagObjects) :
    Pushed fuel version commit github' ∧ (github'.release version).isSome = true ∧
      ((github'.tag version).isSome = true ↔ (github.tag version).isSome = true ∨
        ∃ release, github'.release version = some release ∧ release.draft = false) := by
  cases hleaves with
  | draft release hrelease hdraft hrefs =>
      have htag : github'.tag version = github.tag version := by
        unfold GitHub.tag
        rw [hrefs]
      refine ⟨⟨?_, hcommits ▸ h.commit⟩, by rw [hrelease]; rfl, ?_⟩
      · intro ref href
        unfold GitHub.IsAt
        rw [htagObjects]
        exact h.tag ref (htag ▸ href)
      · rw [htag]
        refine ⟨.inl, fun hor => hor.resolve_right ?_⟩
        rintro ⟨release', hrelease', hpublic⟩
        obtain rfl := Option.some.inj (hrelease.symm.trans hrelease')
        rw [hdraft] at hpublic
        cases hpublic
  | published release hrelease hdraft hrefs =>
      have htag : github'.tag version = (github.createTag version commit).tag version := by
        unfold GitHub.tag
        rw [hrefs]
      rw [tag_createTag] at htag
      refine ⟨⟨?_, hcommits ▸ h.commit⟩, by rw [hrelease]; rfl, ?_⟩
      · intro ref href
        unfold GitHub.IsAt
        rw [htagObjects]
        rw [htag] at href
        split at href
        · exact h.tag ref href
        · obtain rfl := Option.some.inj href
          refine ⟨⟨"commit".toList, commit⟩, ?_, decide_eq_true rfl, rfl⟩
          cases fuel <;> rfl
      · refine ⟨fun _ => .inr ⟨release, hrelease, hdraft⟩, fun _ => ?_⟩
        rw [htag]
        split
        · assumption
        · rfl

/-- The retry uploads to the release that is there, and publishes it. -/
theorem execute_publishAssets (hreplace : options.replaceAssets = true)
    (hrelease : world.github.release options.version = some release) :
    ∃ world', execute World.answer
        (publishAssets options world.github.repo commit (some release) assets) world =
          some (.ok (), world') ∧ world'.IsPublished options.version assets := by
  have hupload : world.answer (.upload world.github.repo options.version assets options.replaceAssets) =
      some ((), world.withGitHub
        (world.github.modifyRelease options.version (·.addAssets assets))) := by
    simp only [World.answer, hrelease, hreplace]
    simp
  have hrelease' : (world.github.modifyRelease options.version (·.addAssets assets)).release
      options.version = some (release.addAssets assets) :=
    release_modifyRelease hrelease fun _ => rfl
  have hassets : ∀ asset ∈ assets, asset ∈ (release.addAssets assets).assets :=
    fun asset hasset => List.mem_append_right _ hasset
  simp only [publishAssets, Option.isNone_some, Option.all_some, run, execute_bind, execute_onlyIf,
    execute_perform, hupload, Bool.false_eq_true, if_false, Option.map_some]
  cases hdraft : release.draft with
  | false => exact ⟨_, rfl, release.addAssets assets, hrelease', hdraft, hassets⟩
  | true =>
      have hpublish : (world.withGitHub (world.github.modifyRelease options.version
          (·.addAssets assets))).answer (.publish world.github.repo options.version) =
          some ((), world.withGitHub (((world.github.modifyRelease options.version
            (·.addAssets assets)).modifyRelease options.version
            ({ · with draft := false })).createTag options.version release.target)) := by
        simp only [World.answer, World.withGitHub, hrelease']
        exact if_pos rfl
      simp only [if_true, hpublish, Option.map_some]
      refine ⟨_, rfl, { release.addAssets assets with draft := false }, ?_, rfl, hassets⟩
      exact release_createTag.trans (release_modifyRelease hrelease' fun _ => rfl)

/-- The retry. -/
theorem execute_main (hprepareOnly : options.prepareOnly = false)
    (hreplace : options.replaceAssets = true)
    (hprepared : Prepared options.version sdk commit world.checkout)
    (hpushed : Pushed fuel options.version commit world.github)
    (hrelease : (world.github.release options.version).isSome = true) :
    if (world.github.tag options.version).isSome then
      ∃ world', execute World.answer (Publisher.main fuel options) world = some (.ok (), world') ∧
        world'.IsPublished options.version (assetNames options.version sdk)
    else execute World.answer (Publisher.main fuel options) world =
      some (.error (.unmet "Existing release must have a matching remote tag".toList), world) := by
  obtain ⟨release, hfound⟩ := Option.isSome_iff_exists.mp hrelease
  have hremote := execute_checkRemote hpushed fun _ => hreplace
  rw [hfound] at hremote
  simp only [Publisher.main, execute_bind, execute_checkArtifacts hprepared,
    execute_checkCheckout hprepareOnly hprepared, hprepareOnly, Bool.false_eq_true, if_false, hremote,
    Option.isNone_some, Bool.false_or]
  split
  · simp only [run, execute_perform, World.answer, Option.map_some]
    exact execute_publishAssets hreplace hfound
  · rfl

end Second

section Order

variable {fuel : Nat} {options : Options} {version : Text} {world world' : World}

def IsPublish (command : Command) : Prop := ∃ repo version, command = .publish repo version

def IsUpload (options : Options) (command : Command) (reply : Except Failure (Output command)) : Prop :=
  (∃ repo sdk, command = .upload repo options.version (assetNames options.version sdk)
    options.replaceAssets) ∧ ∃ out, reply = .ok out

theorem isPublic_of_modifyRelease {f : Release → Release} {version' : Text}
    (h : (world.withGitHub (world.github.modifyRelease version f)).IsPublic version')
    (hname : ∀ release, (f release).tagName = release.tagName)
    (hdraft : ∀ release, (f release).draft = release.draft) : world.IsPublic version' := by
  obtain ⟨release, hrelease, hpublic⟩ := h
  have hmap := (release_modifyRelease_eq hname).symm.trans hrelease
  obtain ⟨found, hfound, rfl⟩ := Option.map_eq_some_iff.mp hmap
  refine ⟨found, hfound, ?_⟩
  split at hpublic
  · exact (hdraft found).symm.trans hpublic
  · exact hpublic

theorem isPublic_of_addRelease {release : Release} (hdraft : release.draft = true)
    (h : (world.withGitHub (world.github.addRelease release)).IsPublic version) :
    world.IsPublic version := by
  obtain ⟨found, hfound, hpublic⟩ := h
  have hcases := release_addRelease.symm.trans hfound
  split at hcases
  · obtain rfl := Option.some.inj hcases
    rw [hdraft] at hpublic
    cases hpublic
  · exact ⟨found, hcases, hpublic⟩

/-- Only the last command makes a release public. -/
theorem isPublish_of_isPublic {command : Command} {reply : Except Failure (Output command)}
    (h : World.Responds world command reply world') (hbefore : ¬world.IsPublic version)
    (hafter : world'.IsPublic version) : IsPublish command := by
  have hquiet : command.changesGitHub = true := by
    by_contra hquiet
    have hgithub := github_eq_of_quiet (Bool.not_eq_true _ ▸ hquiet) h
    unfold World.IsPublic at hbefore hafter
    rw [hgithub] at hafter
    exact hbefore hafter
  cases command with
  | publish repo version => exact ⟨repo, version, rfl⟩
  | createRelease repo version' commit =>
      have hcreated : world' = world ∨
          world.answer (.createRelease repo version' commit) = some ((), world') := by
        cases reply with
        | ok out => exact .inr h
        | error error => exact h.2
      rcases hcreated with rfl | hanswer
      · exact absurd hafter hbefore
      · obtain ⟨-, heq⟩ := Option.ite_none_right_eq_some.mp hanswer
        cases heq
        exact absurd (isPublic_of_addRelease rfl hafter) hbefore
  | upload repo version' assets clobber =>
      refine absurd ?_ hbefore
      cases reply with
      | error error =>
          obtain ⟨-, left, -, rfl⟩ := h
          exact isPublic_of_modifyRelease hafter (fun _ => rfl) (fun _ => rfl)
      | ok out =>
          have hanswer : world.answer (.upload repo version' assets clobber) = some (out, world') := h
          simp only [World.answer] at hanswer
          split at hanswer
          · cases hanswer
          · obtain ⟨-, heq⟩ := Option.ite_none_right_eq_some.mp hanswer
            cases heq
            exact isPublic_of_modifyRelease hafter (fun _ => rfl) (fun _ => rfl)
  | _ => cases hquiet

theorem not_isPublish_of_quiet {command : Command} (h : IsQuiet command) : ¬IsPublish command := by
  rintro ⟨repo, version, rfl⟩
  cases h

/-- The last command is given after the upload only. -/
theorem precedes_main : Precedes (IsUpload options) IsPublish (Publisher.main fuel options) := by
  have hquiet : ∀ {α : Type} {script : Publisher α}, Every IsQuiet script →
      Every (fun command => ¬IsPublish command) script :=
    fun h => h.mono fun _ => not_isPublish_of_quiet
  refine precedes_bind_of_every (hquiet quiet_checkArtifacts) fun sdk => ?_
  refine precedes_bind_of_every (hquiet quiet_checkCheckout) fun (commit, dirty) => ?_
  dsimp only
  split
  · exact precedes_of_every (hquiet (quiet_run rfl))
  · refine precedes_bind_of_every (hquiet quiet_checkRemote) fun (repo, release) => ?_
    refine precedes_bind_of_every (hquiet (quiet_run rfl)) fun _ => ?_
    refine precedes_bind_of_every (every_onlyIf (every_perform ?_)) fun _ => ?_
    · rintro ⟨_, _, heq⟩
      cases heq
    · refine precedes_perform_bind ?_ fun out => ⟨⟨repo, sdk, rfl⟩, out, rfl⟩
      rintro ⟨_, _, heq⟩
      cases heq

/-- In every run, complete or not, a release is made public after an upload of all
assets that has succeeded. -/
def PublicAfterUpload (fuel : Nat) (options : Options) : Prop :=
  ∀ world events rest world',
    Program.Leads World.Responds world (Publisher.main fuel options) events rest world' →
    ∀ before event after version, events = before ++ event :: after →
      ¬event.before.IsPublic version → event.after.IsPublic version →
      ∃ earlier ∈ before, IsUpload options earlier.question earlier.answer

/-- Nothing is public before its assets are uploaded. -/
theorem publicAfterUpload (fuel : Nat) (options : Options) : PublicAfterUpload fuel options := by
  intro world events rest world' hrun before event after version hsplit hbefore hafter
  have hevent : event ∈ events := by
    rw [hsplit]
    simp
  have hpublish := isPublish_of_isPublic (hrun.forall_respond event hevent) hbefore hafter
  exact Program.Precedes.exists_early precedes_main hrun hsplit hpublish

end Order

/-- The run in which every command succeeds ends, and the release is public and has
all assets. -/
structure Completes (fuel : Nat) (options : Options) (world : World) : Prop where
  possible : ∃ events result world',
    Runs World.Responds world (Publisher.main fuel options) events result world' ∧ AllSucceed events
  published : ∀ events result world',
    Runs World.Responds world (Publisher.main fuel options) events result world' →
    AllSucceed events → result = .ok () ∧ ∃ sdk, world.checkout.sdk = some sdk ∧
      world'.IsPublished options.version (assetNames options.version sdk)

section

variable {fuel : Nat} {options : Options} {world world' : World} {error : Failure}
  {events : List (Event Command Output Failure World)}

theorem responds_ok_iff (world : World) (command : Command) (out : Output command) (world' : World) :
    World.Responds world command (.ok out) world' ↔ world.answer command = some (out, world') :=
  Iff.rfl

/-- The retry succeeds exactly if the tag is there. -/
theorem completes_iff {sdk commit : Text} (hprepareOnly : options.prepareOnly = false)
    (hreplace : options.replaceAssets = true)
    (hprepared : Prepared options.version sdk commit world.checkout)
    (hpushed : Pushed fuel options.version commit world.github)
    (hrelease : (world.github.release options.version).isSome = true) :
    Completes fuel options world ↔ (world.github.tag options.version).isSome = true := by
  have hmain := execute_main hprepareOnly hreplace hprepared hpushed hrelease
  constructor
  · intro hcompletes
    by_contra htag
    rw [if_neg htag] at hmain
    obtain ⟨events, hrun, hall⟩ := (execute_eq_some_iff responds_ok_iff).mp hmain
    cases (hcompletes.published events _ _ hrun hall).1
  · intro htag
    rw [if_pos htag] at hmain
    obtain ⟨final, hexecute, hpublished⟩ := hmain
    obtain ⟨events, hrun, hall⟩ := (execute_eq_some_iff responds_ok_iff).mp hexecute
    refine ⟨⟨events, _, _, hrun, hall⟩, fun events' result world' hrun' hall' => ?_⟩
    have hsame := (execute_eq_some_iff responds_ok_iff).mpr ⟨events', hrun', hall'⟩
    obtain ⟨rfl, rfl⟩ := Prod.mk.inj (Option.some.inj (hexecute.symm.trans hsame))
    exact ⟨rfl, sdk, hprepared.sdk, hpublished⟩

/-- A run that passes its checks may fail when it uploads, without an effect. -/
theorem exists_interrupted {sdk commit : Text} (hprepareOnly : options.prepareOnly = false)
    (hprepared : Prepared options.version sdk commit world.checkout)
    (hpushed : Pushed fuel options.version commit world.github)
    (hrelease : world.github.release options.version = none) :
    ∃ events, Runs World.Responds world (Publisher.main fuel options) events (.error .raised)
        (world.withGitHub (world.github.addRelease ⟨options.version, true, commit, []⟩)) ∧
      ∃ event ∈ events, IsCreated event := by
  have hremote : execute World.answer (checkRemote fuel options commit) world =
      some (.ok (world.github.repo, none), world) := by
    rw [execute_checkRemote hpushed (by rw [hrelease]; exact nofun), hrelease]
    rfl
  obtain ⟨first, hfirst, -⟩ := (execute_eq_some_iff responds_ok_iff).mp (execute_checkArtifacts hprepared)
  obtain ⟨second, hsecond, -⟩ :=
    (execute_eq_some_iff responds_ok_iff).mp (execute_checkCheckout hprepareOnly hprepared)
  obtain ⟨third, hthird, -⟩ := (execute_eq_some_iff responds_ok_iff).mp hremote
  let draft : Release := ⟨options.version, true, commit, []⟩
  let drafted := world.withGitHub (world.github.addRelease draft)
  have hcreate : World.Responds world (.createRelease world.github.repo options.version commit)
      (.ok ()) drafted := if_pos ⟨rfl, hrelease⟩
  have hupload : World.Responds drafted (.upload world.github.repo options.version
      (assetNames options.version sdk) options.replaceAssets) (.error .raised) drafted := by
    refine ⟨rfl, Release.assets, fun _ _ _ => Iff.rfl, ?_⟩
    simp [GitHub.modifyRelease, World.withGitHub]
  let packed : Event Command Output Failure World :=
    ⟨world, .package options.version commit false sdk, .ok (), world⟩
  let created : Event Command Output Failure World :=
    ⟨world, .createRelease world.github.repo options.version commit, .ok (), drafted⟩
  let failed : Event Command Output Failure World := ⟨drafted, .upload world.github.repo
    options.version (assetNames options.version sdk) options.replaceAssets, .error .raised, drafted⟩
  have hassets : Runs World.Responds world (publishAssets options world.github.repo commit none
      (assetNames options.version sdk)) [created, failed] (.error .raised) drafted :=
    .ask hcreate (.ask hupload (.refl _ _))
  refine ⟨first ++ (second ++ (third ++ ([packed] ++ [created, failed]))), ?_, ?_⟩
  · refine runs_bind_iff.mpr (.inr ⟨sdk, _, _, _, rfl, hfirst, ?_⟩)
    refine runs_bind_iff.mpr (.inr ⟨(commit, false), _, _, _, rfl, hsecond, ?_⟩)
    simp only [hprepareOnly, Bool.false_eq_true, if_false]
    refine runs_bind_iff.mpr (.inr ⟨(world.github.repo, none), _, _, _, rfl, hthird, ?_⟩)
    exact runs_bind_iff.mpr (.inr ⟨(), _, _, _, rfl, runs_perform_iff.mpr ⟨rfl, rfl⟩, hassets⟩)
  · exact ⟨created, by simp, ⟨_, _, _, rfl⟩, (), rfl⟩

/-- The retry of a run that has created the release completes the publication
exactly if there was a tag, or the release is public already. -/
theorem retry_completes_iff
    (hrun : Runs World.Responds world (Publisher.main fuel options) events (.error error) world')
    (hcreated : ∃ event ∈ events, IsCreated event) :
    (Completes fuel { options with replaceAssets := true } world' ↔
      (world.github.tag options.version).isSome = true ∨ world'.IsPublic options.version) ∧
    ∀ fuel options, PublicAfterUpload fuel options := by
  obtain ⟨hprepareOnly, sdk, commit, hprepared, hpushed, hleaves, hcommits, htagObjects⟩ :=
    leaves_of_main hrun hcreated
  obtain ⟨hpushed', hrelease, htag⟩ := pushed_of_leaves hpushed hleaves hcommits htagObjects
  refine ⟨?_, publicAfterUpload⟩
  exact (@completes_iff fuel { options with replaceAssets := true } _ _ _ hprepareOnly rfl hprepared
    hpushed' hrelease).trans htag

end

section Example

def exampleOptions : Options where
  version := "v0.3.0".toList
  prepareOnly := false
  replaceAssets := false

def exampleCheckout : Checkout where
  sdk := some "poky-toolchain-5.0.20.sh".toList
  pokyHead := pin
  pokyStatus := []
  sdkChecksum := true
  platformVersion := some "v0.3.0".toList
  committedVersion := some "v0.3.0".toList
  changes := []
  hasGh := true
  isLoggedIn := true
  head := "c0ffee".toList

def exampleWorld (refs : List Ref) : World where
  checkout := exampleCheckout
  github := {
    repo := "owner/adaptive-pi".toList
    pages := [[]]
    refs := refs
    tagObjects := fun _ => none
    commits := ["c0ffee".toList] }

def exampleRef : Ref := ⟨tagRef "v0.3.0".toList, ⟨"commit".toList, "c0ffee".toList⟩⟩

theorem exampleCheckout_prepared : Prepared exampleOptions.version "poky-toolchain-5.0.20.sh".toList
    "c0ffee".toList exampleCheckout :=
  ⟨by decide, rfl, rfl, rfl, rfl, rfl, rfl, rfl, rfl, rfl⟩

/-- With its tag, a release is completed by the retry. -/
theorem retry_completes_iff_tagged : ∃ events world',
    Runs World.Responds (exampleWorld [exampleRef]) (Publisher.main 0 exampleOptions) events
      (.error .raised) world' ∧
    Completes 0 { exampleOptions with replaceAssets := true } world' := by
  have hpushed : Pushed 0 exampleOptions.version "c0ffee".toList (exampleWorld [exampleRef]).github := by
    refine ⟨fun ref href => ?_, List.mem_singleton_self _⟩
    obtain rfl : exampleRef = ref := Option.some.inj href
    exact ⟨_, rfl, rfl, rfl⟩
  obtain ⟨events, hrun, hcreated⟩ := exists_interrupted rfl exampleCheckout_prepared hpushed rfl
  exact ⟨events, _, hrun, (retry_completes_iff hrun hcreated).1.mpr (.inl rfl)⟩

/-- Without it, the retry of an upload that has failed is refused. -/
theorem retry_of_draft_refused : ∃ events world',
    Runs World.Responds (exampleWorld []) (Publisher.main 0 exampleOptions) events
      (.error .raised) world' ∧ (∃ event ∈ events, IsCreated event) ∧
    execute World.answer (Publisher.main 0 { exampleOptions with replaceAssets := true }) world' =
      some (.error (.unmet "Existing release must have a matching remote tag".toList), world') ∧
    ¬Completes 0 { exampleOptions with replaceAssets := true } world' := by
  have hpushed : Pushed 0 exampleOptions.version "c0ffee".toList (exampleWorld []).github :=
    ⟨nofun, List.mem_singleton_self _⟩
  obtain ⟨events, hrun, hcreated⟩ := exists_interrupted rfl exampleCheckout_prepared hpushed rfl
  have hrelease : (((exampleWorld []).github.addRelease
      ⟨exampleOptions.version, true, "c0ffee".toList, []⟩).release
        exampleOptions.version).isSome = true := by
    rw [release_addRelease, if_pos rfl]
    rfl
  have hpushed' : Pushed 0 exampleOptions.version "c0ffee".toList
      ((exampleWorld []).github.addRelease ⟨exampleOptions.version, true, "c0ffee".toList, []⟩) :=
    ⟨nofun, List.mem_singleton_self _⟩
  refine ⟨events, _, hrun, hcreated, ?_, fun hcompletes => ?_⟩
  · exact @execute_main 0 { exampleOptions with replaceAssets := true } _ _ ((exampleWorld []).withGitHub _)
      rfl rfl exampleCheckout_prepared hpushed' hrelease
  · have htag := (@completes_iff 0 { exampleOptions with replaceAssets := true }
      ((exampleWorld []).withGitHub _) _ _ rfl rfl exampleCheckout_prepared hpushed'
      hrelease).mp hcompletes
    cases htag

end Example

end AdaptivePi.Yocto
