import AdaptivePi.Yocto.PublishRelease

namespace AdaptivePi.Yocto

open Foundation Script

/-- The commands that change GitHub. -/
def Command.changesGitHub : Command → Bool
  | .createRelease _ _ _ | .upload _ _ _ _ | .publish _ _ => true
  | _ => false

abbrev IsQuiet (command : Command) : Prop := command.changesGitHub = false

section Checks

variable {fuel : Nat} {options : Options} {commit : Text} {world world' : World}

theorem quiet_demand {condition : Bool} {message : String} :
    Every IsQuiet (demand condition message) := every_require

theorem quiet_run {command : Command} (h : command.changesGitHub = false) :
    Every IsQuiet (run command) := every_perform h

theorem quiet_checkArtifacts : Every IsQuiet (checkArtifacts options) :=
  every_bind quiet_demand fun _ => every_bind (quiet_run rfl) fun _ =>
    every_bind (quiet_run rfl) fun _ => every_bind quiet_demand fun _ =>
    every_bind (quiet_run rfl) fun _ => every_bind quiet_demand fun _ =>
    every_bind (quiet_run rfl) fun _ => every_bind (quiet_run rfl) fun _ => every_pure

theorem quiet_checkGh : Every IsQuiet checkGh :=
  every_bind (quiet_run rfl) fun _ => every_bind quiet_demand fun _ => quiet_run rfl

theorem quiet_checkClean : Every IsQuiet (checkClean options) :=
  every_bind (quiet_run rfl) fun _ => every_bind quiet_demand fun _ =>
    every_bind (quiet_run rfl) fun _ => every_pure

theorem quiet_checkCheckout : Every IsQuiet (checkCheckout options) :=
  every_bind (quiet_run rfl) fun _ => every_bind (every_onlyIf quiet_checkGh) fun _ =>
    every_bind (every_onlyIf (quiet_run rfl)) fun _ => quiet_checkClean

theorem quiet_resolve {repo : Text} {obj : GitObject} :
    Every IsQuiet (resolve repo fuel obj) := by
  induction fuel generalizing obj with
  | zero =>
      unfold resolve
      split
      · exact every_raise
      · exact every_pure
  | succ fuel ih =>
      unfold resolve
      split
      · exact every_bind (quiet_run rfl) fun _ => ih
      · exact every_pure

theorem quiet_checkTag {repo : Text} {ref : Option Ref} :
    Every IsQuiet (checkTag fuel repo commit ref) := by
  cases ref with
  | none => exact every_pure
  | some ref => exact every_bind quiet_resolve fun _ => quiet_demand

theorem quiet_checkRemote : Every IsQuiet (checkRemote fuel options commit) :=
  every_bind (quiet_run rfl) fun _ => every_bind (quiet_run rfl) fun _ =>
    every_bind (quiet_run rfl) fun _ => every_bind quiet_checkTag fun _ =>
    every_bind quiet_demand fun _ => every_bind quiet_demand fun _ =>
    every_bind (quiet_run rfl) fun _ => every_bind quiet_demand fun _ => every_pure

/-- A quiet command leaves GitHub as it is. -/
theorem github_eq_of_quiet {command : Command} {reply : Except Failure (Output command)}
    (hquiet : command.changesGitHub = false) (h : World.Responds world command reply world') :
    world'.github = world.github := by
  cases reply with
  | error error =>
      have hinterrupted : world.Interrupted command world' := h.2
      cases command with
      | createRelease | upload | publish => cases hquiet
      | writeVersion version =>
          obtain ⟨version', rfl⟩ := hinterrupted
          rfl
      | _ =>
          obtain rfl : world' = world := hinterrupted
          rfl
  | ok output =>
      have hanswer : world.answer command = some (output, world') := h
      cases command with
      | createRelease | upload | publish => cases hquiet
      | artifacts =>
          obtain ⟨_, -, heq⟩ := Option.map_eq_some_iff.mp hanswer
          cases heq
          rfl
      | tagObject repo sha =>
          obtain ⟨-, hfound⟩ := Option.ite_none_right_eq_some.mp hanswer
          obtain ⟨_, -, heq⟩ := Option.map_eq_some_iff.mp hfound
          cases heq
          rfl
      | sdkChecksum | authStatus | listReleases | matchingRefs | viewCommit =>
          obtain ⟨-, heq⟩ := Option.ite_none_right_eq_some.mp hanswer
          cases heq
          rfl
      | _ =>
          cases hanswer
          rfl

/-- Quiet commands leave GitHub as it is. -/
theorem github_eq_of_runs {α : Type} {script : Publisher α}
    {events : List (Event Command Output Failure World)} {result : Except Failure α}
    (hquiet : Every IsQuiet script)
    (hrun : Runs World.Responds world script events result world') :
    world'.github = world.github := by
  have hall := hquiet.forall_event hrun
  have hrespond := Program.Leads.forall_respond hrun
  refine Program.Leads.preserves (R := fun before after : World => after.github = before.github)
    (fun _ => rfl) (fun _ _ _ hfirst hrest => hrest.trans hfirst) hrun fun event hevent => ?_
  exact github_eq_of_quiet (hall event hevent) (hrespond event hevent)

end Checks

/-- The checks of the checkout pass. -/
structure Prepared (version sdk commit : Text) (checkout : Checkout) : Prop where
  isStable : isStableVersion version = true
  sdk : checkout.sdk = some sdk
  pokyHead : checkout.pokyHead = pin
  pokyStatus : checkout.pokyStatus = []
  sdkChecksum : checkout.sdkChecksum = true
  platformVersion : checkout.platformVersion = some version
  hasGh : checkout.hasGh = true
  isLoggedIn : checkout.isLoggedIn = true
  status : checkout.status = []
  head : checkout.head = commit

/-- What a command yields is what it answers. -/
theorem yields_run {command : Command} {P : Output command → World → Prop} {world : World}
    (h : ∀ out after, world.answer command = some (out, after) → P out after) :
    Yields World.Responds P (run command) world :=
  yields_perform.mpr h

theorem yields_demand {condition : Bool} {message : String} {P : Unit → World → Prop} {world : World}
    (h : condition = true → P () world) : Yields World.Responds P (demand condition message) world :=
  yields_require.mpr h

theorem yields_then {α β : Type} {script : Publisher α} {next : α → Publisher β}
    {P : β → World → Prop} {world : World}
    (h : Yields World.Responds (fun value between => Yields World.Responds P (next value) between)
      script world) : Yields World.Responds P (script >>= next) world :=
  yields_bind.mpr h

section Stages

variable {fuel : Nat} {options : Options} {sdk commit : Text} {world world' : World}

/-- What the first checks have found. -/
theorem yields_checkArtifacts : Yields World.Responds (fun sdk world' => world' = world ∧
    isStableVersion options.version = true ∧ world.checkout.sdk = some sdk ∧
    world.checkout.pokyHead = pin ∧ world.checkout.pokyStatus = [] ∧
    world.checkout.sdkChecksum = true) (checkArtifacts options) world := by
  refine yields_then (yields_demand fun hversion => ?_)
  refine yields_then (yields_run fun sdk _ hsdk => ?_)
  obtain ⟨found, hfound, heq⟩ := Option.map_eq_some_iff.mp hsdk
  cases heq
  refine yields_then (yields_run fun _ _ h => ?_)
  cases h
  refine yields_then (yields_demand fun hhead => ?_)
  refine yields_then (yields_run fun _ _ h => ?_)
  cases h
  refine yields_then (yields_demand fun hstatus => ?_)
  refine yields_then (@yields_run .configuration _ _ fun _ _ h => ?_)
  cases h
  refine yields_then (@yields_run .sdkChecksum _ _ fun _ _ h => ?_)
  obtain ⟨hchecksum, heq⟩ := Option.ite_none_right_eq_some.mp h
  cases heq
  exact yields_pure.mpr ⟨rfl, hversion, hfound, of_decide_eq_true hhead, of_decide_eq_true hstatus,
    hchecksum⟩

theorem yields_checkClean (hprepareOnly : options.prepareOnly = false) :
    Yields World.Responds (fun (commit, dirty) world' => world' = world ∧ dirty = false ∧
      world.checkout.status = [] ∧ world.checkout.head = commit) (checkClean options) world := by
  refine yields_then (yields_run fun status _ h => ?_)
  cases h
  refine yields_then (yields_demand fun hclean => ?_)
  refine yields_then (yields_run fun _ _ h => ?_)
  cases h
  rw [hprepareOnly, Bool.false_or, Bool.not_eq_true'] at hclean
  exact yields_pure.mpr ⟨rfl, hclean, by simpa using hclean, rfl⟩

/-- The version is written if it is another one. -/
theorem yields_checkCheckout (hprepareOnly : options.prepareOnly = false) :
    Yields World.Responds (fun (commit, dirty) world' => dirty = false ∧
      (∃ version, world'.checkout = { world.checkout with platformVersion := version }) ∧
      world'.checkout.platformVersion = some options.version ∧
      world.checkout.hasGh = true ∧ world.checkout.isLoggedIn = true ∧
      world'.checkout.status = [] ∧ world'.checkout.head = commit) (checkCheckout options) world := by
  refine yields_then (yields_run fun previous _ h => ?_)
  cases h
  refine yields_then (yields_onlyIf.mpr ?_)
  rw [hprepareOnly]
  refine yields_then (yields_run fun _ _ h => ?_)
  cases h
  refine yields_then (yields_demand fun hgh => @yields_run .authStatus _ _ fun _ _ h => ?_)
  obtain ⟨hlogin, heq⟩ := Option.ite_none_right_eq_some.mp h
  cases heq
  refine yields_then (yields_onlyIf.mpr ?_)
  split
  · refine @yields_run (.writeVersion options.version) _ _ fun _ _ h => ?_
    cases h
    intro events (commit, dirty) world' hrun
    obtain ⟨rfl, hdirty, hstatus, hhead⟩ := yields_checkClean hprepareOnly _ _ _ hrun
    exact ⟨hdirty, ⟨_, rfl⟩, rfl, hgh, hlogin, hstatus, hhead⟩
  · rename_i hversion
    intro events (commit, dirty) world' hrun
    obtain ⟨rfl, hdirty, hstatus, hhead⟩ := yields_checkClean hprepareOnly _ _ _ hrun
    have hsame : world'.checkout.platformVersion = some options.version := by simpa using hversion
    exact ⟨hdirty, ⟨_, rfl⟩, hsame, hgh, hlogin, hstatus, hhead⟩

/-- The first checks leave a checkout that passes them again. -/
theorem prepared_of_runs {commit : Text} {dirty : Bool} {between : World}
    {events events' : List (Event Command Output Failure World)}
    (hprepareOnly : options.prepareOnly = false)
    (hartifacts : Runs World.Responds world (checkArtifacts options) events (.ok sdk) between)
    (hcheckout : Runs World.Responds between (checkCheckout options) events' (.ok (commit, dirty)) world') :
    Prepared options.version sdk commit world'.checkout ∧ world.checkout.sdk = some sdk := by
  obtain ⟨rfl, hversion, hsdk, hpoky, hstatus, hchecksum⟩ := yields_checkArtifacts _ _ _ hartifacts
  obtain ⟨-, ⟨version, hworld⟩, hplatform, hgh, hlogin, hclean, hhead⟩ :=
    yields_checkCheckout hprepareOnly _ _ _ hcheckout
  refine ⟨⟨hversion, ?_, ?_, ?_, ?_, hplatform, ?_, ?_, hclean, hhead⟩, hsdk⟩
  all_goals rw [hworld]
  · exact hsdk
  · exact hpoky
  · exact hstatus
  · exact hchecksum
  · exact hgh
  · exact hlogin

end Stages

/-- The object that a tag of tags stands for. -/
def resolved (tagObjects : Text → Option GitObject) : Nat → GitObject → Option GitObject
  | 0, obj => if obj.isTag then none else some obj
  | fuel + 1, obj =>
      if obj.isTag then (tagObjects obj.sha).bind (resolved tagObjects fuel) else some obj

def GitHub.IsAt (github : GitHub) (fuel : Nat) (commit : Text) (ref : Ref) : Prop :=
  ∃ obj, resolved github.tagObjects fuel ref.object = some obj ∧ obj.isCommit = true ∧ obj.sha = commit

/-- The listing by prefix has the tag, if there is one. -/
theorem find_matchingRefs (github : GitHub) (version : Text) :
    (github.refs.filter fun ref => tagRef version <+: ref.name).find?
      (fun ref => ref.name = tagRef version) = github.tag version := by
  rw [List.find?_filter, GitHub.tag]
  congr 1
  funext ref
  by_cases hname : ref.name = tagRef version
  · simp [hname]
  · simp [hname]

section Remote

variable {fuel : Nat} {options : Options} {repo commit : Text} {world world' : World}

/-- The loop ends at an object that is not a tag. -/
theorem yields_resolve {obj : GitObject} :
    Yields World.Responds (fun obj' world' => world' = world ∧
      resolved world.github.tagObjects fuel obj = some obj') (resolve repo fuel obj) world := by
  induction fuel generalizing obj with
  | zero =>
      unfold resolve resolved
      split
      · exact yields_raise
      · exact yields_pure.mpr ⟨rfl, rfl⟩
  | succ fuel ih =>
      unfold resolve resolved
      split
      · refine yields_then (yields_run fun next _ h => ?_)
        obtain ⟨-, hnext⟩ := Option.ite_none_right_eq_some.mp h
        obtain ⟨found, hfound, heq⟩ := Option.map_eq_some_iff.mp hnext
        cases heq
        rw [hfound]
        exact ih
      · exact yields_pure.mpr ⟨rfl, rfl⟩

theorem yields_checkTag {ref : Option Ref} :
    Yields World.Responds (fun _ world' => world' = world ∧
      ∀ found, ref = some found → world.github.IsAt fuel commit found)
      (checkTag fuel repo commit ref) world := by
  cases ref with
  | none => exact yields_pure.mpr ⟨rfl, fun _ h => by cases h⟩
  | some ref =>
      refine yields_then ?_
      intro events obj _ hrun
      obtain ⟨rfl, hresolved⟩ := yields_resolve _ _ _ hrun
      refine yields_demand fun hcommit => ⟨rfl, fun found hfound => ?_⟩
      obtain rfl := Option.some.inj hfound
      rw [Bool.and_eq_true, decide_eq_true_eq] at hcommit
      exact ⟨obj, hresolved, hcommit⟩

/-- What the checks of GitHub have found. -/
theorem yields_checkRemote :
    Yields World.Responds (fun (repo, release) world' => world' = world ∧
      repo = world.github.repo ∧ release = world.github.release options.version ∧
      (∀ ref, world.github.tag options.version = some ref → world.github.IsAt fuel commit ref) ∧
      commit ∈ world.github.commits) (checkRemote fuel options commit) world := by
  refine yields_then (yields_run fun _ _ h => ?_)
  cases h
  refine yields_then (yields_run fun _ _ h => ?_)
  obtain ⟨-, heq⟩ := Option.ite_none_right_eq_some.mp h
  cases heq
  refine yields_then (yields_run fun _ _ h => ?_)
  obtain ⟨-, heq⟩ := Option.ite_none_right_eq_some.mp h
  cases heq
  rw [find_matchingRefs]
  refine yields_then ?_
  intro events _ _ hrun
  obtain ⟨rfl, htag⟩ := yields_checkTag _ _ _ hrun
  refine yields_then (yields_demand fun _ => ?_)
  refine yields_then (yields_demand fun _ => ?_)
  refine yields_then (yields_run fun remoteCommit _ h => ?_)
  obtain ⟨⟨-, hcommit⟩, heq⟩ := Option.ite_none_right_eq_some.mp h
  cases heq
  refine yields_then (yields_demand fun _ => ?_)
  exact yields_pure.mpr ⟨rfl, rfl, rfl, htag, List.contains_iff_mem.mp hcommit⟩

end Remote

section Retry

variable {fuel : Nat} {options : Options} {sdk commit : Text} {world : World}

theorem execute_demand {condition : Bool} {message : String} (h : condition = true) :
    execute World.answer (demand condition message) world = some (.ok (), world) := by
  rw [h]
  rfl

theorem execute_checkArtifacts (h : Prepared options.version sdk commit world.checkout) :
    execute World.answer (checkArtifacts options) world = some (.ok sdk, world) := by
  simp [checkArtifacts, execute_demand, run, execute_bind, World.answer, h.isStable, h.sdk, h.pokyHead,
    h.pokyStatus, h.sdkChecksum]

theorem execute_checkCheckout (hprepareOnly : options.prepareOnly = false)
    (h : Prepared options.version sdk commit world.checkout) :
    execute World.answer (checkCheckout options) world = some (.ok (commit, false), world) := by
  simp [checkCheckout, checkGh, checkClean, execute_demand, run, execute_bind, World.answer, hprepareOnly,
    h.platformVersion, h.hasGh, h.isLoggedIn, h.status, h.head]

theorem execute_resolve {obj obj' : GitObject} (h : resolved world.github.tagObjects fuel obj = some obj') :
    execute World.answer (resolve world.github.repo fuel obj) world = some (.ok obj', world) := by
  induction fuel generalizing obj with
  | zero =>
      unfold resolved at h
      unfold resolve
      split at h
      · cases h
      · cases h
        simp_all
  | succ fuel ih =>
      unfold resolved at h
      unfold resolve
      split at h
      · rename_i htag
        obtain ⟨next, hnext, hrest⟩ := Option.bind_eq_some_iff.mp h
        simp [htag, run, execute_bind, World.answer, hnext, ih hrest]
      · rename_i htag
        cases h
        simp [htag]

theorem execute_checkTag {ref : Option Ref}
    (h : ∀ found, ref = some found → world.github.IsAt fuel commit found) :
    execute World.answer (checkTag fuel world.github.repo commit ref) world = some (.ok (), world) := by
  cases ref with
  | none => rfl
  | some ref =>
      obtain ⟨obj, hresolved, htype, hsha⟩ := h ref rfl
      simp [checkTag, execute_bind, execute_resolve hresolved, execute_demand, htype, hsha]

/-- What the retry needs of GitHub. -/
structure Pushed (fuel : Nat) (version commit : Text) (github : GitHub) : Prop where
  tag : ∀ ref, github.tag version = some ref → github.IsAt fuel commit ref
  commit : commit ∈ github.commits

/-- A release that is listed has to have its tag. -/
theorem execute_checkRemote (h : Pushed fuel options.version commit world.github)
    (hrelease : (world.github.release options.version).isSome = true →
      options.replaceAssets = true) :
    execute World.answer (checkRemote fuel options commit) world =
      some (if (world.github.release options.version).isNone ||
          (world.github.tag options.version).isSome then
        .ok (world.github.repo, world.github.release options.version)
      else .error (.unmet "Existing release must have a matching remote tag".toList), world) := by
  have hfind : world.github.pages.flatten.find? (fun release => release.tagName = options.version) =
      world.github.release options.version := rfl
  have hreplace : (world.github.release options.version).isNone || options.replaceAssets := by
    cases hfound : world.github.release options.version with
    | none => rfl
    | some release => exact hrelease (by rw [hfound]; rfl)
  simp only [checkRemote, run, execute_bind, execute_perform, World.answer, if_true, Option.map_some,
    find_matchingRefs, execute_checkTag h.tag, demand, execute_require, hfind]
  split_ifs with htag
  · simp [h.commit]
  · rfl

end Retry

end AdaptivePi.Yocto
