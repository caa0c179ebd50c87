import AdaptivePi.Esbmc.InstallEsbmc

/-!
Installers of ESBMC that run at the same time. Whatever fails and whoever is killed,
the destination is what it was, or it is the whole distribution of an archive with the
pinned checksum; what is there is not changed any more, and an installer that exits
without an error leaves a checker there.
-/

namespace AdaptivePi.Esbmc

open Foundation Script

section Paths

/-- `dirname` of a path in a directory. -/
theorem dirname_append {directory name : Text} (hdirectory : directory ≠ [])
    (hlast : directory.getLast? ≠ some '/') (hname : name ≠ []) (hslash : '/' ∉ name) :
    dirname (directory ++ '/' :: name) = directory := by
  have hreverse : (directory ++ '/' :: name).reverse = name.reverse ++ '/' :: directory.reverse := by
    simp
  have htrimmed : (name.reverse ++ '/' :: directory.reverse).dropWhile (· = '/') =
      name.reverse ++ '/' :: directory.reverse := by
    cases hcase : name.reverse with
    | nil => exact absurd (List.reverse_eq_nil_iff.mp hcase) hname
    | cons first rest =>
        have hfirst : first ≠ '/' := by
          rintro rfl
          apply hslash
          rw [← List.mem_reverse, hcase]
          exact List.mem_cons_self
        rw [List.cons_append, List.dropWhile_cons_of_neg (by simpa using hfirst)]
  have hparent : (name.reverse ++ '/' :: directory.reverse).dropWhile (· ≠ '/') =
      '/' :: directory.reverse := by
    have hall : ∀ char ∈ name.reverse, decide (char ≠ '/') = true := by
      intro char hchar
      apply decide_eq_true
      rintro rfl
      exact hslash (List.mem_reverse.mp hchar)
    rw [List.dropWhile_append_of_pos hall, List.dropWhile_cons_of_neg (by simp)]
  have hrest : ('/' :: directory.reverse).dropWhile (· = '/') = directory.reverse := by
    rw [List.dropWhile_cons_of_pos (by simp)]
    cases hcase : directory.reverse with
    | nil => rfl
    | cons last init =>
        have hne : last ≠ '/' := by
          rintro rfl
          apply hlast
          rw [List.getLast?_eq_head?_reverse, hcase]
          rfl
        rw [List.dropWhile_cons_of_neg (by simpa using hne)]
  unfold dirname
  dsimp only
  rw [hreverse, htrimmed, hparent, hrest, if_neg (List.cons_ne_nil _ _), List.reverse_reverse,
    if_neg hdirectory]

theorem isSuffix_append_iff {text directory path : Text} :
    text <:+ directory ++ path ↔
      text <:+ path ∨ ∃ last, last ≠ [] ∧ text = last ++ path ∧ last <:+ directory := by
  constructor
  · rintro ⟨front, hfront⟩
    rcases List.append_eq_append_iff.mp hfront with ⟨middle, rfl, rfl⟩ | ⟨middle, rfl, rfl⟩
    · cases middle with
      | nil => exact .inl (List.suffix_refl _)
      | cons first rest => exact .inr ⟨first :: rest, List.cons_ne_nil _ _, rfl, List.suffix_append _ _⟩
    · exact .inl (List.suffix_append _ _)
  · rintro (h | ⟨last, -, rfl, front, rfl⟩)
    · exact h.trans (List.suffix_append _ _)
    · exact ⟨front, by rw [List.append_assoc]⟩

end Paths

section Distribution

variable {Content : Type} {tree unpacked : Tree Content} {root directory path : Text}

def executableKeys (tree : Tree Content) : List Text :=
  ((tree.items.filter fun item => item.2.isFile).map fun item => '/' :: item.1).filter
    fun path => "/bin/esbmc".toList <:+ path

/-- All that an archive with the pinned checksum has in the directory of its only checker. -/
def IsDistribution (host : Host Content) (tree : Tree Content) : Prop :=
  ∃ name checksum archive unpacked directory,
    release host.system = some (name, checksum) ∧ host.sha256 archive = checksum ∧
    host.unzip archive = some unpacked ∧
    executableKeys unpacked = [directory ++ "/bin/esbmc".toList] ∧
    tree = (unpacked.makeExecutable (directory ++ "/bin/esbmc".toList)).subtree directory

/-- The path of the directory does not count. -/
theorem executablePaths_eq (tree : Tree Content) :
    executablePaths (directory ++ "/unpacked".toList) tree =
      (executableKeys tree).map (directory ++ "/unpacked".toList ++ ·) := by
  have hsuffix : ∀ key : Text, "/bin/esbmc".toList <:+ directory ++ "/unpacked".toList ++ '/' :: key ↔
      "/bin/esbmc".toList <:+ '/' :: key := by
    intro key
    rw [isSuffix_append_iff]
    constructor
    · rintro (h | ⟨last, hne, htext, front, hfront⟩)
      · exact h
      · obtain ⟨init, char, rfl⟩ := List.eq_nil_or_concat last |>.resolve_left hne
        have hend : front ++ init ++ [char] = directory ++ "/unpacke".toList ++ ['d'] := by
          simpa using hfront
        obtain ⟨-, hchar⟩ := List.append_inj' hend rfl
        obtain rfl := List.singleton_inj.mp hchar
        have hmem : 'd' ∈ "/bin/esbmc".toList := by
          rw [htext]
          simp
        exact absurd hmem (by decide)
    · exact .inl
  unfold executablePaths executableKeys
  rw [List.filter_map, List.filter_map, List.map_map]
  congr 1
  apply List.filter_congr
  intro item _
  exact decide_eq_decide.mpr (hsuffix item.1)

theorem mem_executableKeys {key : Text} (hmem : key ∈ executableKeys tree) :
    ∃ path contents executable, (path, TreeEntry.file contents executable) ∈ tree.items ∧ key = '/' :: path := by
  unfold executableKeys at hmem
  obtain ⟨⟨path, entry⟩, hitem, rfl⟩ := List.mem_map.mp (List.mem_filter.mp hmem).1
  obtain ⟨hitem, hfile⟩ := List.mem_filter.mp hitem
  cases entry with
  | file contents executable => exact ⟨path, contents, executable, hitem, rfl⟩
  | directory => cases hfile
  | other executable => cases hfile

/-- What is published is found by the next installer. -/
theorem isInstallation_of_isDistribution {host : Host Content} (h : IsDistribution host tree) :
    tree.isInstallation = true := by
  obtain ⟨-, -, archive, unpacked, directory, -, -, -, hkeys, rfl⟩ := h
  obtain ⟨path, contents, executable, hitem, hpath⟩ :=
    mem_executableKeys (hkeys ▸ List.mem_singleton_self (directory ++ "/bin/esbmc".toList))
  have hexecutable : (path, TreeEntry.file contents true) ∈
      (unpacked.makeExecutable (directory ++ "/bin/esbmc".toList)).items := by
    apply List.mem_map.mpr
    refine ⟨_, hitem, ?_⟩
    rw [if_pos hpath.symm]
    rfl
  have hbelow : Tree.below (directory ++ ['/']) ('/' :: path) = some "bin/esbmc".toList := by
    rw [Tree.below_eq_some_iff, ← hpath, List.append_assoc]
    rfl
  have hinstalled : ("bin/esbmc".toList, TreeEntry.file contents true) ∈
      ((unpacked.makeExecutable (directory ++ "/bin/esbmc".toList)).subtree directory).items := by
    apply List.mem_filterMap.mpr
    refine ⟨_, hexecutable, ?_⟩
    rw [hbelow]
    rfl
  unfold Tree.isInstallation
  rw [Dictionary.mem_items_iff.mp hinstalled]
  rfl

/-- The directory that is moved is the one that the checker is in. -/
theorem dirname_dirname_executable (hkey : directory ++ "/bin/esbmc".toList ∈ executableKeys tree) :
    dirname (dirname (root ++ "/unpacked".toList ++ (directory ++ "/bin/esbmc".toList))) =
      root ++ "/unpacked".toList ++ directory := by
  have hname : root ++ "/unpacked".toList ++ (directory ++ "/bin/esbmc".toList) =
      (root ++ "/unpacked".toList ++ directory ++ "/bin".toList) ++ '/' :: "esbmc".toList := by
    simp
  have hbin : root ++ "/unpacked".toList ++ directory ++ "/bin".toList =
      (root ++ "/unpacked".toList ++ directory) ++ '/' :: "bin".toList := by
    simp
  have hlast : (root ++ "/unpacked".toList ++ directory).getLast? ≠ some '/' := by
    rcases List.eq_nil_or_concat directory with rfl | ⟨init, last, rfl⟩
    · rw [List.append_nil, List.getLast?_append_of_ne_nil _ (by decide)]
      decide
    · rw [List.concat_eq_append, ← List.append_assoc, List.getLast?_concat]
      rintro heq
      cases heq
      obtain ⟨path, contents, executable, hitem, hpath⟩ := mem_executableKeys hkey
      apply tree.clean _ hitem
      rw [← hpath]
      exact ⟨init, "bin/esbmc".toList, by simp⟩
  have hbinLast : (root ++ "/unpacked".toList ++ directory ++ "/bin".toList).getLast? ≠ some '/' := by
    rw [List.getLast?_append_of_ne_nil _ (by decide)]
    decide
  rw [hname, dirname_append (by simp) hbinLast (by decide) (by decide), hbin,
    dirname_append (by simp) hlast (by decide) (by decide)]

end Distribution

section Contracts

variable {ι Content : Type} {host : Host Content} {process : ι} {world world' : InstallWorld ι Content}
  {command : ShellCommand} {reply : Except Nat (ShellOutput command)}

/-- What an installer does to the world: it publishes a distribution, at most, and only
with the lock and if there is nothing. -/
structure Guarantee (host : Host Content) (process : ι) (world : InstallWorld ι Content)
    (command : ShellCommand) (reply : Except Nat (ShellOutput command))
    (world' : InstallWorld ι Content) : Prop where
  staging : ∀ other, other ≠ process → world'.staging other = world.staging other
  holder : ∀ other, other ≠ process → (world'.holder = some other ↔ world.holder = some other)
  installed : world'.installed = world.installed ∨
    (world.holder = some process ∧ world.installed = none ∧
      ∃ tree, IsDistribution host tree ∧ world'.installed = some (.directory tree))
  move : ∀ directory, command = .move directory → world.holder = some process ∧ world.installed = none

/-- What an installer relies on. -/
structure Rely (process : ι) (world world' : InstallWorld ι Content) : Prop where
  staging : world'.staging process = world.staging process
  holder : world'.holder = some process ↔ world.holder = some process
  installed : world.installed ≠ none ∨ world.holder = some process → world'.installed = world.installed

/-- What one installer guarantees is what the others rely on. -/
theorem rely_of_guarantee {other : ι} (hne : process ≠ other)
    (h : Guarantee host process world command reply world') : Rely other world world' where
  staging := h.staging other hne.symm
  holder := h.holder other hne.symm
  installed := by
    intro hkept
    rcases h.installed with heq | ⟨hholder, hnone, -⟩
    · exact heq
    · rcases hkept with hsome | hother
      · exact absurd hnone hsome
      · rw [hholder] at hother
        exact absurd (Option.some.inj hother) hne

theorem Guarantee.refl (hmove : ∀ directory, command ≠ .move directory) :
    Guarantee host process world command reply world :=
  ⟨fun _ _ => rfl, fun _ _ => Iff.rfl, .inl rfl, fun directory h => absurd h (hmove directory)⟩

def Installed (world : InstallWorld ι Content) : Prop := world.isInstalled = true

/-- The lock is held, nothing is installed, and the temporary directory is as it should be. -/
def Holding (process : ι) (P : Staging Content → Prop) (world : InstallWorld ι Content) : Prop :=
  world.holder = some process ∧ world.installed = none ∧
    ∃ staging, world.staging process = some staging ∧ P staging

def Finished (process : ι) (world : InstallWorld ι Content) : Prop :=
  Installed world ∧ world.staging process = none

/-- An exit status of zero says that there is a checker, and no temporary directory. -/
def ExitsInstalled (process : ι) (status : Nat) (world : InstallWorld ι Content) : Prop :=
  status = 0 → Finished process world

def Unstaged (process : ι) (world : InstallWorld ι Content) : Prop := world.staging process = none

/-- A checker that is there stays there. -/
theorem stable_installed : Stable (Rely process) (@Installed ι Content) := by
  intro world later h hrely
  have hsome : world.installed ≠ none := by
    intro hnone
    unfold Installed InstallWorld.isInstalled at h
    rw [hnone] at h
    cases h
  unfold Installed InstallWorld.isInstalled
  rw [hrely.installed (.inl hsome)]
  exact h

/-- No other process publishes while one has the lock. -/
theorem stable_locked : Stable (Rely process) fun world : InstallWorld ι Content =>
    world.holder = some process ∧ world.installed = none := by
  intro world later h hrely
  exact ⟨hrely.holder.mpr h.1, (hrely.installed (.inr h.1)).trans h.2⟩

theorem stable_holding {P : Staging Content → Prop} :
    Stable (Rely process) (Holding (ι := ι) process P) := by
  rintro world later ⟨hholder, hnone, staging, hstaging, hP⟩ hrely
  exact ⟨hrely.holder.mpr hholder, (hrely.installed (.inr hholder)).trans hnone, staging,
    hrely.staging.trans hstaging, hP⟩

theorem stable_finished : Stable (Rely process) (@Finished ι Content process) := by
  intro world later h hrely
  exact ⟨stable_installed world later h.1 hrely, hrely.staging.trans h.2⟩

theorem stable_exitsInstalled (status : Nat) :
    Stable (Rely process) (@ExitsInstalled ι Content process status) :=
  fun world later h hrely hzero => stable_finished world later (h hzero) hrely

theorem stable_unstaged : Stable (Rely process) (@Unstaged ι Content process) :=
  fun _ _ h hrely => hrely.staging.trans h

/-- The lock is held, and nothing is begun. -/
theorem stable_holder : Stable (Rely process) fun world : InstallWorld ι Content =>
    world.holder = some process ∧ Unstaged process world := by
  have hholder : Stable (Rely process) fun world : InstallWorld ι Content =>
      world.holder = some process := fun _ _ h hrely => hrely.holder.mpr h
  exact hholder.and stable_unstaged

end Contracts

section Commands

variable {ι Content : Type} [DecidableEq ι] {host : Host Content} {process : ι}
  {world world' : InstallWorld ι Content} {P : InstallWorld ι Content → Prop} {α : Type}

/-- The contract of the installers. -/
def installContract (host : Host Content) : Contract (installKernel (ι := ι) host) where
  rely := Rely
  guarantee := Guarantee host
  rely_of_guarantee := rely_of_guarantee
  rely_of_leave := by
    rintro process other world world' hne rfl
    refine ⟨rfl, ?_, fun _ => rfl⟩
    dsimp only
    split
    · rename_i hholder
      rw [hholder]
      constructor
      · intro h
        cases h
      · intro h
        exact absurd (Option.some.inj h) hne
    · rfl

theorem Guarantee.setStaging {command : ShellCommand} {reply : Except Nat (ShellOutput command)}
    (hmove : ∀ directory, command ≠ .move directory) (staging : Option (Staging Content)) :
    Guarantee host process world command reply (world.setStaging process staging) where
  staging := fun _ hne => Function.update_of_ne hne _ _
  holder := fun _ _ => Iff.rfl
  installed := .inl rfl
  move := fun directory h => absurd h (hmove directory)

/-- A part of an installer keeps to the contract. -/
def Keeps (host : Host Content) (process : ι) (success : α → InstallWorld ι Content → Prop)
    (script : ShellScript α) (world : InstallWorld ι Content) : Prop :=
  Guards (fun world => world.Responds host process) (Rely process) (Guarantee host process) success
    (ExitsInstalled process) script world

theorem Keeps.bind {β : Type} {script : ShellScript α} {next : α → ShellScript β}
    {success : α → InstallWorld ι Content → Prop} {success' : β → InstallWorld ι Content → Prop}
    (h : Keeps host process success script world)
    (hnext : ∀ value world, success value world → Keeps host process success' (next value) world) :
    Keeps host process success' (script >>= next) world :=
  Guards.bind h stable_exitsInstalled hnext

theorem keeps_raise {status : Nat} {success : α → InstallWorld ι Content → Prop}
    (h : ExitsInstalled process status world) : Keeps host process success (raise status) world :=
  guards_raise (stable_exitsInstalled status) h

theorem keeps_give {command : ShellCommand} {success : ShellOutput command → InstallWorld ι Content → Prop}
    (hP : Stable (Rely process) P) (h : P world) (hsuccess : ∀ out, Stable (Rely process) (success out))
    (hguarantee : ∀ world reply world', P world → world.Effect host process command reply world' →
      Guarantee host process world command reply world')
    (hok : ∀ world out world', P world → world.Effect host process command (.ok out) world' →
      success out world') :
    Keeps host process success (give command) world := by
  apply guards_perform hP h hsuccess stable_exitsInstalled
  rintro later reply after hlater ⟨hstatus, heffect⟩
  refine ⟨hguarantee later reply after hlater heffect, ?_⟩
  cases reply with
  | ok out => exact hok later out after hlater heffect
  | error status =>
      intro hzero
      rw [hzero] at hstatus
      exact absurd rfl hstatus

def isQuiet : ShellCommand → Bool
  | .print _ | .isInstalled | .showInstalled | .uname | .findTool _ | .makeParent | .realpath
  | .openLock | .isThere | .checkSum _ | .mapfile | .showVersion _ => true
  | _ => false

theorem eq_of_isQuiet {command : ShellCommand} {reply : Except Nat (ShellOutput command)}
    (hquiet : isQuiet command = true) (h : world.Effect host process command reply world') :
    world' = world := by
  cases reply with
  | error status => cases command <;> first | exact h | cases hquiet
  | ok out => cases command <;> first | exact h | exact h.1 | cases hquiet

theorem keeps_quiet {command : ShellCommand} {success : ShellOutput command → InstallWorld ι Content → Prop}
    (hquiet : isQuiet command = true) (hP : Stable (Rely process) P) (h : P world)
    (hsuccess : ∀ out, Stable (Rely process) (success out))
    (hok : ∀ world out, P world → world.Effect host process command (.ok out) world → success out world) :
    Keeps host process success (give command) world := by
  apply keeps_give hP h hsuccess
  · intro world reply world' _ heffect
    rw [eq_of_isQuiet hquiet heffect]
    apply Guarantee.refl
    rintro directory rfl
    cases hquiet
  · intro world out world' hworld heffect
    have heq := eq_of_isQuiet hquiet heffect
    rw [heq] at heffect ⊢
    exact hok world out hworld heffect

/-- Commands that change the temporary directory. -/
theorem keeps_staging {command : ShellCommand} {success : ShellOutput command → InstallWorld ι Content → Prop}
    (hmove : ∀ directory, command ≠ .move directory)
    (hstaging : ∀ (world : InstallWorld ι Content) reply world',
      world.Effect host process command reply world' →
        ∃ staging, world' = world.setStaging process staging)
    (hP : Stable (Rely process) P) (h : P world) (hsuccess : ∀ out, Stable (Rely process) (success out))
    (hok : ∀ world out world', P world → world.Effect host process command (.ok out) world' →
      success out world') :
    Keeps host process success (give command) world := by
  apply keeps_give hP h hsuccess
  · intro world reply world' _ heffect
    obtain ⟨staging, rfl⟩ := hstaging world reply world' heffect
    exact Guarantee.setStaging hmove staging
  · exact hok

theorem keeps_same {command : ShellCommand} (hquiet : isQuiet command = true)
    (hP : Stable (Rely process) P) (h : P world) :
    Keeps host process (fun _ => P) (give command) world :=
  keeps_quiet hquiet hP h (fun _ => hP) fun _ _ hworld _ => hworld

theorem keeps_onlyIf {condition : Bool} {part : ShellScript Unit} (hP : Stable (Rely process) P)
    (hpart : condition = true → Keeps host process (fun _ => P) part world)
    (hskip : condition = false → P world) :
    Keeps host process (fun _ => P) (onlyIf condition part) world :=
  guards_onlyIf hP hpart hskip

theorem keeps_fail {messages : List Text} {status : Nat} {success : Unit → InstallWorld ι Content → Prop}
    (hstatus : status ≠ 0) : Keeps host process success (fail messages status) world := by
  induction messages generalizing world with
  | nil => exact keeps_raise fun hzero => absurd hzero hstatus
  | cons message messages ih =>
      apply Keeps.bind (keeps_same rfl stable_true trivial)
      intro _ world _
      exact ih

theorem keeps_exitInstalled {success : Unit → InstallWorld ι Content → Prop}
    (h : Unstaged process world) : Keeps host process success exitInstalled world := by
  have hshow : Keeps host process (fun _ => Finished process) (give .showInstalled) world :=
    keeps_quiet rfl stable_unstaged h (fun _ => stable_finished) fun _ _ hworld heffect =>
      ⟨heffect.2, hworld⟩
  apply Keeps.bind hshow
  intro _ world hfinished
  exact keeps_raise fun _ => hfinished

theorem keeps_checkHostTools {tools : List Text} (h : Unstaged process world) :
    Keeps host process (fun _ => Unstaged process) (checkHostTools tools) world := by
  induction tools generalizing world with
  | nil => exact guards_pure stable_unstaged h
  | cons tool tools ih =>
      apply Keeps.bind (keeps_same rfl stable_unstaged h)
      intro found world hworld
      cases found with
      | true => exact ih hworld
      | false => exact keeps_fail (by decide)

end Commands

section Staged

variable {ι Content : Type} [DecidableEq ι] {host : Host Content} {process : ι}
  {world world' : InstallWorld ι Content} {P Q : Staging Content → Prop} {name checksum : Text}

theorem Holding.setStaging {staging : Staging Content} (hworld : Holding process P world)
    (hQ : Q staging) : Holding process Q (world.setStaging process (some staging)) :=
  ⟨hworld.1, hworld.2.1, staging, Function.update_self process _ _, hQ⟩

def Verified (host : Host Content) (checksum : Text) (staging : Staging Content) : Prop :=
  '\n' ∉ staging.directory → ∃ archive, staging.archive = some archive ∧ host.sha256 archive = checksum

def Unpacked (host : Host Content) (checksum : Text) (tree : Tree Content) (staging : Staging Content) :
    Prop :=
  staging.unpacked = some tree ∧ ('\n' ∉ staging.directory →
    ∃ archive, host.unzip archive = some tree ∧ host.sha256 archive = checksum)

def Listed (host : Host Content) (checksum : Text) (staging : Staging Content) : Prop :=
  ∃ tree paths, Unpacked host checksum tree staging ∧
    paths.Perm (executablePaths staging.root tree) ∧ staging.listing = unlines paths

/-- The path is that of the only executable of an archive with the checksum, whose
executable has its permission if `ready` says so. -/
def Found (host : Host Content) (checksum path : Text) (ready : Bool) (staging : Staging Content) :
    Prop :=
  ∃ archive tree directory, host.sha256 archive = checksum ∧ host.unzip archive = some tree ∧
    executableKeys tree = [directory ++ "/bin/esbmc".toList] ∧
    path = staging.root ++ (directory ++ "/bin/esbmc".toList) ∧
    staging.unpacked =
      some (if ready then tree.makeExecutable (directory ++ "/bin/esbmc".toList) else tree)

/-- The only executable that is listed is that of the distribution. -/
theorem found_of_listed {staging : Staging Content} {path : Text} (h : Listed host checksum staging)
    (hlines : fileLines staging.listing = [path]) : Found host checksum path false staging := by
  obtain ⟨tree, paths, ⟨hunpacked, harchive⟩, hperm, hlisting⟩ := h
  rw [hlisting] at hlines
  obtain ⟨rfl, hnewline⟩ := eq_singleton_of_fileLines_unlines hlines
  have hpaths := List.singleton_perm.mp hperm
  unfold Staging.root at hpaths
  rw [executablePaths_eq] at hpaths
  obtain ⟨key, hkey, hpath⟩ := List.map_eq_singleton_iff.mp hpaths.symm
  obtain ⟨directory, rfl⟩ : ∃ directory, key = directory ++ "/bin/esbmc".toList := by
    have hmem : key ∈ executableKeys tree := by
      rw [hkey]
      exact List.mem_singleton_self key
    obtain ⟨directory, hdirectory⟩ := of_decide_eq_true (List.mem_filter.mp hmem).2
    exact ⟨directory, hdirectory.symm⟩
  have hdirectory : '\n' ∉ staging.directory := by
    intro hmem
    apply hnewline
    rw [← hpath]
    simp [hmem]
  obtain ⟨archive, hunzip, hsha⟩ := harchive hdirectory
  exact ⟨archive, tree, directory, hsha, hunzip, hkey, hpath.symm, hunpacked⟩

/-- The archive has the pinned checksum. -/
theorem keeps_download (h : Holding process (fun _ => True) world) :
    Keeps host process (fun _ => Holding process (Verified host checksum)) (download name checksum) world := by
  have hfetch : ∀ world, Holding process (fun _ => True) world →
      Keeps host process (fun _ => Holding process fun _ => True) (give (.fetch (archiveUrl name))) world := by
    intro world hworld
    apply keeps_staging (by rintro _ ⟨⟩) _ stable_holding hworld fun _ => stable_holding
    · rintro world _ world' hholding ⟨staging, archive, -, rfl⟩
      exact hholding.setStaging trivial
    · intro world reply world' heffect
      cases reply with
      | ok out =>
          obtain ⟨staging, archive, -, rfl⟩ := heffect
          exact ⟨_, rfl⟩
      | error status => exact heffect
  have hcheck : ∀ world, Holding process (fun _ => True) world →
      Keeps host process (fun matched => Holding process fun staging =>
        matched = true → Verified host checksum staging) (give (.checkSum checksum)) world := by
    intro world hworld
    apply keeps_quiet rfl stable_holding hworld fun _ => stable_holding
    rintro world matched ⟨hholder, hnone, staging, hstaging, -⟩ ⟨-, hmatched⟩
    refine ⟨hholder, hnone, staging, hstaging, fun htrue => ?_⟩
    obtain ⟨other, hother, hverified⟩ := hmatched htrue
    rw [hstaging] at hother
    cases hother
    exact hverified
  apply Keeps.bind (keeps_same rfl stable_holding h)
  intro _ world hworld
  apply Keeps.bind (hfetch world hworld)
  intro _ world hworld
  apply Keeps.bind (hcheck world hworld)
  intro matched world hworld
  apply keeps_onlyIf stable_holding
  · intro _
    exact keeps_fail (by decide)
  · intro hmatched
    obtain ⟨hholder, hnone, staging, hstaging, hverified⟩ := hworld
    exact ⟨hholder, hnone, staging, hstaging, hverified (by simpa using hmatched)⟩

theorem keeps_unzip (h : Holding process (Verified host checksum) world) :
    Keeps host process (fun _ => Holding process fun staging => ∃ tree, Unpacked host checksum tree staging)
      (give .unzip) world := by
  apply keeps_staging (by rintro _ ⟨⟩) _ stable_holding h fun _ => stable_holding
  · rintro world _ world' hholding ⟨staging, archive, tree, hstaging, harchive, htree, rfl⟩
    refine hholding.setStaging ⟨tree, rfl, fun hnewline => ?_⟩
    obtain ⟨-, -, other, hother, hverified⟩ := hholding
    rw [hstaging] at hother
    cases hother
    obtain ⟨verified, hsome, hsha⟩ := hverified hnewline
    rw [harchive] at hsome
    cases hsome
    exact ⟨archive, htree, hsha⟩
  · intro world reply world' heffect
    cases reply with
    | ok out =>
        obtain ⟨staging, archive, tree, -, -, -, rfl⟩ := heffect
        exact ⟨_, rfl⟩
    | error status => exact heffect

theorem keeps_findExecutables
    (h : Holding process (fun staging => ∃ tree, Unpacked host checksum tree staging) world) :
    Keeps host process (fun _ => Holding process (Listed host checksum)) (give .findExecutables) world := by
  apply keeps_staging (by rintro _ ⟨⟩) _ stable_holding h fun _ => stable_holding
  · rintro world _ world' hholding ⟨staging, tree, paths, hstaging, htree, hperm, rfl⟩
    obtain ⟨-, -, other, hother, other_tree, hunpacked⟩ := id hholding
    rw [hstaging] at hother
    cases hother
    have heq : tree = other_tree := Option.some.inj (htree.symm.trans hunpacked.1)
    subst heq
    exact hholding.setStaging ⟨tree, paths, hunpacked, hperm, rfl⟩
  · intro world reply world' heffect
    cases reply with
    | ok out =>
        obtain ⟨staging, tree, paths, -, -, -, rfl⟩ := heffect
        exact ⟨_, rfl⟩
    | error status => exact heffect

theorem keeps_mapfile (h : Holding process (Listed host checksum) world) :
    Keeps host process (fun lines => Holding process fun staging =>
      Listed host checksum staging ∧ lines = fileLines staging.listing) (give .mapfile) world := by
  apply keeps_quiet rfl stable_holding h fun _ => stable_holding
  rintro world lines ⟨hholder, hnone, staging, hstaging, hlisted⟩ ⟨-, other, hother, hlines⟩
  rw [hstaging] at hother
  cases hother
  exact ⟨hholder, hnone, staging, hstaging, hlisted, hlines⟩

variable {path : Text}

theorem keeps_makeExecutable (h : Holding process (Found host checksum path false) world) :
    Keeps host process (fun _ => Holding process (Found host checksum path true))
      (give (.makeExecutable path)) world := by
  apply keeps_staging (by rintro _ ⟨⟩) _ stable_holding h fun _ => stable_holding
  · rintro world _ world' hholding ⟨staging, tree, hstaging, htree, -, rfl⟩
    obtain ⟨-, -, other, hother, archive, found, directory, hsha, hunzip, hkeys, hpath, hunpacked⟩ :=
      id hholding
    rw [hstaging] at hother
    cases hother
    have heq : tree = found := Option.some.inj (htree.symm.trans hunpacked)
    subst heq
    refine hholding.setStaging ⟨archive, tree, directory, hsha, hunzip, hkeys, hpath, ?_⟩
    rw [hpath, List.drop_left]
    rfl
  · intro world reply world' heffect
    cases reply with
    | ok out =>
        obtain ⟨staging, tree, -, -, -, rfl⟩ := heffect
        exact ⟨_, rfl⟩
    | error status => exact heffect

/-- What a rename publishes. -/
theorem installed_of_moves (hrelease : release host.system = some (name, checksum))
    (h : Holding process (Found host checksum path true) world)
    (hmoves : world.Moves process (dirname (dirname path)) world') :
    ∃ tree, IsDistribution host tree ∧ world'.installed = some (.directory tree) ∧
      ∀ command reply, Guarantee host process world command reply world' := by
  obtain ⟨hholder, hnone, staging, hstaging, archive, tree, directory, hsha, hunzip, hkeys, hpath,
    hunpacked⟩ := h
  obtain ⟨other, moved, left, place, hother, hmoved, rfl, hplace⟩ := hmoves
  rw [hstaging] at hother
  cases hother
  have heq : moved = tree.makeExecutable (directory ++ "/bin/esbmc".toList) :=
    Option.some.inj (hmoved.symm.trans hunpacked)
  have hdirectory : dirname (dirname path) = staging.root ++ directory := by
    rw [hpath]
    exact dirname_dirname_executable (hkeys ▸ List.mem_singleton_self _)
  obtain ⟨-, rfl⟩ := hplace hnone
  rw [hdirectory, List.drop_left, heq]
  have hdistribution : IsDistribution host
      ((tree.makeExecutable (directory ++ "/bin/esbmc".toList)).subtree directory) :=
    ⟨name, checksum, archive, tree, directory, hrelease, hsha, hunzip, hkeys, rfl⟩
  refine ⟨_, hdistribution, rfl, fun _ _ => ⟨?_, fun _ _ => Iff.rfl,
    .inr ⟨hholder, hnone, _, hdistribution, rfl⟩, fun _ _ => ⟨hholder, hnone⟩⟩⟩
  intro other hne
  exact Function.update_of_ne hne _ _

/-- The staged distribution is published with the lock. -/
theorem keeps_move (hrelease : release host.system = some (name, checksum))
    (h : Holding process (Found host checksum path true) world) :
    Keeps host process (fun _ => Installed) (give (.move (dirname (dirname path)))) world := by
  apply keeps_give stable_holding h fun _ => stable_installed
  · intro world reply world' hworld heffect
    cases reply with
    | ok out =>
        obtain ⟨-, -, -, hguarantee⟩ := installed_of_moves hrelease hworld heffect
        exact hguarantee _ _
    | error status =>
        rcases heffect with rfl | hmoves
        · exact ⟨fun _ _ => rfl, fun _ _ => Iff.rfl, .inl rfl, fun _ _ => ⟨hworld.1, hworld.2.1⟩⟩
        · obtain ⟨-, -, -, hguarantee⟩ := installed_of_moves hrelease hworld hmoves
          exact hguarantee _ _
  · intro world _ world' hworld hmoves
    obtain ⟨tree, hdistribution, hinstalled, -⟩ := installed_of_moves hrelease hworld hmoves
    unfold Installed InstallWorld.isInstalled
    rw [hinstalled]
    exact isInstallation_of_isDistribution hdistribution

theorem keeps_installExecutable {destination : Text}
    (hrelease : release host.system = some (name, checksum))
    (h : Holding process (Found host checksum path false) world) :
    Keeps host process (fun _ => Installed) (installExecutable destination path) world := by
  apply Keeps.bind (keeps_makeExecutable h)
  intro _ world hworld
  apply Keeps.bind (keeps_same rfl stable_holding hworld)
  intro _ world hworld
  apply Keeps.bind (keeps_move hrelease hworld)
  intro _ world hworld
  exact keeps_same rfl stable_installed hworld

theorem keeps_unpackAndInstall {destination : Text}
    (hrelease : release host.system = some (name, checksum)) (h : Holding process (fun _ => True) world) :
    Keeps host process (fun _ => Installed) (unpackAndInstall destination name checksum) world := by
  apply Keeps.bind (keeps_download h)
  intro _ world hworld
  apply Keeps.bind (keeps_unzip hworld)
  intro _ world hworld
  apply Keeps.bind (keeps_findExecutables hworld)
  intro _ world hworld
  apply Keeps.bind (keeps_mapfile hworld)
  rintro lines world ⟨hholder, hnone, staging, hstaging, hlisted, hlines⟩
  split
  · exact keeps_installExecutable hrelease
      ⟨hholder, hnone, staging, hstaging, found_of_listed hlisted hlines.symm⟩
  · exact keeps_fail (by decide)

theorem keeps_removeStaging {P Q : InstallWorld ι Content → Prop} (hP : Stable (Rely process) P)
    (hQ : Stable (Rely process) Q) (h : P world)
    (hPQ : ∀ world, P world → Q (world.setStaging process none)) :
    Keeps host process (fun _ => Q) (give .removeStaging) world := by
  apply keeps_staging (by rintro _ ⟨⟩) _ hP h fun _ => hQ
  · rintro world _ world' hworld rfl
    exact hPQ world hworld
  · intro world reply world' heffect
    cases reply with
    | ok out => exact ⟨none, heffect⟩
    | error status => exact heffect

/-- With the lock, an installer publishes or finds what is published. -/
theorem keeps_installLocked {destination : Text}
    (hrelease : release host.system = some (name, checksum))
    (h : world.holder = some process ∧ Unstaged process world) :
    Keeps host process (fun _ => Finished process) (installLocked destination name checksum) world := by
  apply Keeps.bind (keeps_same rfl stable_holder h)
  intro installed world hworld
  apply Keeps.bind (keeps_onlyIf stable_holder (fun _ => keeps_exitInstalled hworld.2) fun _ => hworld)
  intro _ world hworld
  have hthere : Keeps host process (fun there world => there = false →
      world.holder = some process ∧ world.installed = none) (give .isThere) world := by
    apply keeps_quiet rfl stable_holder hworld
    · intro there world later h hrely hfalse
      exact stable_locked world later (h hfalse) hrely
    · rintro world there hworld ⟨-, rfl⟩ hfalse
      exact ⟨hworld.1, by simpa using hfalse⟩
  apply Keeps.bind hthere
  intro there world hworld
  apply Keeps.bind (keeps_onlyIf stable_locked (fun _ => keeps_fail (by decide)) hworld)
  intro _ world hworld
  have hstage : Keeps host process (fun _ => Holding process fun _ => True) (give .makeStaging) world := by
    apply keeps_staging (by rintro _ ⟨⟩) _ stable_locked hworld fun _ => stable_holding
    · rintro world directory world' hlocked rfl
      exact ⟨hlocked.1, hlocked.2, _, Function.update_self process _ _, trivial⟩
    · intro world reply world' heffect
      cases reply with
      | ok directory => exact ⟨_, heffect⟩
      | error status => exact heffect
  apply Keeps.bind hstage
  intro _ world hworld
  apply Guards.lastly (keeps_unpackAndInstall hrelease hworld) (fun _ => stable_finished)
    stable_exitsInstalled
  · intro _ world hinstalled
    apply keeps_removeStaging stable_installed stable_finished hinstalled
    exact fun world hworld => ⟨hworld, Function.update_self process _ _⟩
  · intro status world hexits
    apply keeps_removeStaging (stable_exitsInstalled status) (stable_exitsInstalled status) hexits
    exact fun world hworld hzero => ⟨(hworld hzero).1, Function.update_self process _ _⟩

/-- The lock is taken before there is a temporary directory. -/
theorem keeps_lockDestination (h : Unstaged process world) :
    Keeps host process (fun _ world => world.holder = some process ∧ Unstaged process world)
      lockDestination world := by
  apply Keeps.bind (keeps_checkHostTools h)
  intro _ world hworld
  apply Keeps.bind (keeps_same rfl stable_unstaged hworld)
  intro _ world hworld
  apply Keeps.bind (keeps_same rfl stable_unstaged hworld)
  intro _ world hworld
  apply Keeps.bind (keeps_same rfl stable_unstaged hworld)
  intro _ world hworld
  apply keeps_give stable_unstaged hworld fun _ => stable_holder
  · intro world reply world' _ heffect
    cases reply with
    | ok out =>
        obtain ⟨hfree, rfl⟩ := heffect
        refine ⟨fun _ _ => rfl, ?_, .inl rfl, by rintro _ ⟨⟩⟩
        intro other hne
        rw [hfree]
        constructor
        · intro hother
          exact absurd (Option.some.inj hother).symm hne
        · intro hother
          cases hother
    | error status =>
        obtain rfl : world' = world := heffect
        exact Guarantee.refl (by rintro _ ⟨⟩)
  · rintro world _ world' hworld ⟨-, rfl⟩
    exact ⟨rfl, hworld⟩

/-- An installer keeps to the contract, from the first command to the last. -/
theorem keeps_installEsbmc (destination script : Text) (arguments : List Text)
    (h : Unstaged process world) :
    Keeps host process (fun _ => Finished process) (installEsbmc destination script arguments) world := by
  apply Keeps.bind (keeps_onlyIf stable_unstaged (fun _ => keeps_fail (by decide)) fun _ => h)
  intro _ world hworld
  apply Keeps.bind (keeps_same rfl stable_unstaged hworld)
  intro installed world hworld
  apply Keeps.bind (keeps_onlyIf stable_unstaged (fun _ => keeps_exitInstalled hworld) fun _ => hworld)
  intro _ world hworld
  have hsystem : Keeps host process (fun system world => system = host.system ∧ Unstaged process world)
      (give .uname) world := by
    apply keeps_quiet rfl stable_unstaged hworld
    · exact fun _ world later h hrely => ⟨h.1, stable_unstaged world later h.2 hrely⟩
    · exact fun _ _ hworld heffect => ⟨heffect.2, hworld⟩
  apply Keeps.bind hsystem
  rintro _ world ⟨rfl, hworld⟩
  split
  · exact keeps_fail (by decide)
  · rename_i name checksum hrelease
    apply Keeps.bind (keeps_lockDestination hworld)
    intro _ world hworld
    exact keeps_installLocked hrelease hworld

end Staged

section Runs

variable {ι Content : Type} [DecidableEq ι] {host : Host Content} {destination script : Text}

abbrev InstallExchange (ι Content : Type) :=
  Exchange (fun command : ShellCommand => Except Nat (ShellOutput command)) (InstallWorld ι Content)

abbrev Installers (ι Content : Type) :=
  Foundation.Configuration ι (fun command : ShellCommand => Except Nat (ShellOutput command))
    (InstallWorld ι Content) (Except Nat Unit)

/-- Every process is an installer that has not begun, and has no temporary directory. -/
def AtStart (destination script : Text) (installers : Installers ι Content) : Prop :=
  ∀ process program, installers.processes process = some program →
    Unstaged process installers.world ∧
      ∃ arguments, program = installEsbmc destination script arguments

def isPublication (event : ι × InstallExchange ι Content) : Bool :=
  match event.2.question, event.2.answer with
  | .move _, .ok _ => true
  | _, _ => false

def Leaves (process : ι) : Except Nat Unit → InstallWorld ι Content → Prop :=
  outcome (fun _ => Finished process) (ExitsInstalled process)

/-- Installers keep to their contract from the start. -/
theorem holds_of_atStart {installers : Installers ι Content}
    (hstart : AtStart destination script installers) :
    (installContract host).Holds Leaves installers := by
  intro process program hprogram
  obtain ⟨hunstaged, arguments, rfl⟩ := hstart process program hprogram
  exact keeps_installEsbmc destination script arguments hunstaged

/-- The destination is as it was, or it is a distribution where there was nothing. -/
def PublishedFrom (host : Host Content) (world world' : InstallWorld ι Content) : Prop :=
  world'.installed = world.installed ∨ (world.installed = none ∧
    ∃ tree, IsDistribution host tree ∧ world'.installed = some (.directory tree))

/-- Whatever the installers do, there is a distribution or what was there. -/
theorem publishedFrom_of_execution {initial final : Installers ι Content}
    {events : List (ι × InstallExchange ι Content)} (hholds : (installContract host).Holds Leaves initial)
    (hrun : Execution (installKernel host).Step initial events final) :
    PublishedFrom host initial.world final.world := by
  apply hholds.invariant (I := fun _ world => PublishedFrom host initial.world world) (.inl rfl) _ _ hrun
  · intro events process exchange hbefore _ hguarantee
    rcases hguarantee.installed with hsame | ⟨-, hnone, hpublished⟩
    · unfold PublishedFrom
      rw [hsame]
      exact hbefore
    · rcases hbefore with hinitial | ⟨hinitial, -⟩
      · exact .inr ⟨hinitial ▸ hnone, hpublished⟩
      · exact .inr ⟨hinitial, hpublished⟩
  · rintro events process world world' hworld rfl
    exact hworld

/-- A publication is made where there is nothing. -/
theorem moves_of_isPublication {process : ι} {exchange : InstallExchange ι Content}
    (hpublication : isPublication (process, exchange) = true)
    (hrespond : exchange.before.Responds host process exchange.question exchange.answer exchange.after) :
    ∃ directory, exchange.question = .move directory ∧
      exchange.before.Moves process directory exchange.after := by
  obtain ⟨before, question, answer, after⟩ := exchange
  cases question with
  | move directory =>
      cases answer with
      | ok out => exact ⟨directory, rfl, hrespond.2⟩
      | error status => cases hpublication
  | _ => cases hpublication

/-- Every publication finds nothing at the destination, and leaves something there. -/
theorem countP_isPublication_le {initial final : Installers ι Content}
    {events : List (ι × InstallExchange ι Content)} (hholds : (installContract host).Holds Leaves initial)
    (hrun : Execution (installKernel host).Step initial events final) :
    events.countP isPublication ≤ 1 := by
  have hinvariant : events.countP isPublication ≤ 1 ∧
      (0 < events.countP isPublication → final.world.installed ≠ none) := by
    apply hholds.invariant (I := fun events world => events.countP isPublication ≤ 1 ∧
      (0 < events.countP isPublication → world.installed ≠ none)) ⟨by simp, by simp⟩ _ _ hrun
    · rintro events process ⟨before, question, answer, after⟩ ⟨hle, hthere⟩ hrespond hguarantee
      rw [List.countP_append, List.countP_singleton]
      by_cases hpublication : isPublication (process, ⟨before, question, answer, after⟩) = true
      · obtain ⟨directory, rfl, hmoves⟩ := moves_of_isPublication hpublication hrespond
        have hnone := (hguarantee.move directory rfl).2
        have hzero : events.countP isPublication = 0 := by
          by_contra hne
          exact hthere (Nat.pos_of_ne_zero hne) hnone
        obtain ⟨staging, tree, left, place, -, -, hafter, -⟩ := hmoves
        have hplace : after.installed = some place := congrArg InstallWorld.installed hafter
        rw [if_pos hpublication, hzero, hplace]
        exact ⟨le_refl _, fun _ => Option.some_ne_none _⟩
      · rw [if_neg hpublication, Nat.add_zero]
        refine ⟨hle, fun hpositive => ?_⟩
        rcases hguarantee.installed with hsame | ⟨-, -, tree, -, htree⟩
        · rw [hsame]
          exact hthere hpositive
        · rw [htree]
          exact Option.some_ne_none _
    · rintro events process world world' hworld rfl
      exact hworld
  exact hinvariant.1

/-- Installers that run at the same time publish at most one distribution, complete and
verified, where there was nothing. It is not changed any more. One that has ended without
an error, or has exited with the status zero, leaves a checker at the destination and no
temporary directory of its own. -/
theorem installers_publish_once {initial middle final : Installers ι Content}
    {first rest : List (ι × InstallExchange ι Content)} (hstart : AtStart destination script initial)
    (hfirst : Execution (installKernel host).Step initial first middle)
    (hrest : Execution (installKernel host).Step middle rest final) :
    PublishedFrom host initial.world middle.world ∧
      (middle.world.installed ≠ none → final.world.installed = middle.world.installed) ∧
      (first ++ rest).countP isPublication ≤ 1 ∧
      ∀ process result, middle.processes process = some (.done result) →
        result = .ok () ∨ result = .error 0 → Finished process middle.world := by
  have hholds : (installContract host).Holds Leaves initial := holds_of_atStart hstart
  have hmiddle := hholds.execution hfirst
  refine ⟨publishedFrom_of_execution hholds hfirst, ?_,
    countP_isPublication_le hholds (hfirst.trans hrest), ?_⟩
  · intro hthere
    rcases publishedFrom_of_execution hmiddle hrest with hsame | ⟨hnone, -⟩
    · exact hsame
    · exact absurd hnone hthere
  · intro process result hdone
    have hleaves := hmiddle.done hdone
    rintro (rfl | rfl)
    · exact hleaves
    · exact hleaves rfl

end Runs

section Handover

variable {host : Host Text} {process : Bool} {world world' : InstallWorld Bool Text}
  {destination script name checksum path archive : Text} {tree : Tree Text}
  {P : InstallWorld Bool Text → Prop}

/-- A run of one installer, while the others wait, to a world with `P`. -/
def Reaches (host : Host Text) (process : Bool) (world : InstallWorld Bool Text)
    (part rest : ShellScript Unit) (P : InstallWorld Bool Text → Prop) : Prop :=
  ∃ exchanges last, Program.Leads (fun world => world.Responds host process) world part exchanges rest
    last ∧ P last

theorem Reaches.refl {part : ShellScript Unit} (h : P world) :
    Reaches host process world part part P :=
  ⟨[], world, .refl _ _, h⟩

/-- A command that succeeds. -/
theorem Reaches.ok {command : ShellCommand} {rest : ShellScript Unit}
    {next : Except Nat (ShellOutput command) → ShellScript Unit} (out : ShellOutput command)
    (heffect : world.Effect host process command (.ok out) world')
    (h : Reaches host process world' (next (.ok out)) rest P) :
    Reaches host process world (Program.ask command next) rest P := by
  obtain ⟨exchanges, last, hrun, hlast⟩ := h
  exact ⟨_, last, .ask ⟨by simp, heffect⟩ hrun, hlast⟩

/-- A command that fails. -/
theorem Reaches.error {command : ShellCommand} {rest : ShellScript Unit}
    {next : Except Nat (ShellOutput command) → ShellScript Unit} {status : Nat} (hstatus : status ≠ 0)
    (heffect : world.Effect host process command (.error status) world')
    (h : Reaches host process world' (next (.error status)) rest P) :
    Reaches host process world (Program.ask command next) rest P := by
  obtain ⟨exchanges, last, hrun, hlast⟩ := h
  exact ⟨_, last, .ask ⟨by simpa using hstatus, heffect⟩ hrun, hlast⟩

def waitingInstaller (destination name checksum : Text) : ShellScript Unit := do
  give .flock
  installLocked destination name checksum

def stagedInstaller (destination name checksum : Text) : ShellScript Unit :=
  (unpackAndInstall destination name checksum).lastly (give .removeStaging)

/-- The second installer comes to the lock. -/
theorem reaches_waiting (hrelease : release host.system = some (name, checksum))
    (hnone : world.installed = none) :
    Reaches host process world (installEsbmc destination script [])
      (waitingInstaller destination name checksum) (· = world) := by
  have hinstalled : false = world.isInstalled := by
    unfold InstallWorld.isInstalled
    rw [hnone]
    rfl
  unfold installEsbmc
  refine .ok false ⟨rfl, hinstalled⟩ ?_
  refine .ok host.system ⟨rfl, rfl⟩ ?_
  dsimp only [Program.bind]
  simp only [hrelease]
  iterate 6 refine .ok true rfl ?_
  iterate 3 refine .ok () rfl ?_
  exact .refl rfl

/-- It has the lock, and a temporary directory. -/
theorem reaches_staged (hnone : world.installed = none) (hfree : world.holder = none)
    (directory : Text) :
    Reaches host process world (waitingInstaller destination name checksum)
      (stagedInstaller destination name checksum)
      (· = InstallWorld.setStaging { world with holder := some process } process
        (some ⟨directory, none, none, []⟩)) := by
  have hinstalled : false = world.isInstalled := by
    unfold InstallWorld.isInstalled
    rw [hnone]
    rfl
  have hthere : false = world.installed.isSome := by
    rw [hnone]
    rfl
  refine .ok () ⟨hfree, rfl⟩ ?_
  refine .ok false ⟨rfl, hinstalled⟩ ?_
  refine .ok false ⟨rfl, hthere⟩ ?_
  refine .ok directory rfl ?_
  exact .refl rfl

/-- A download that fails, after a part of the archive. -/
theorem reaches_failed (directory part : Text) :
    Reaches host process world (stagedInstaller destination name checksum) (.done (.error 22))
      (· = world.setStaging process none) := by
  have hstatus : (22 : Nat) ≠ 0 := by decide
  refine .ok () rfl ?_
  refine .error hstatus ⟨some ⟨directory, some part, none, []⟩, rfl⟩ ?_
  refine .ok () rfl (.refl ?_)
  unfold InstallWorld.setStaging
  simp only [Function.update_idem]

/-- An installer for which nothing fails publishes what it has unpacked. -/
theorem reaches_published {directory : Text}
    (hstaging : world.staging process = some ⟨directory, none, none, []⟩)
    (hsha : host.sha256 archive = checksum) (hunzip : host.unzip archive = some tree)
    (hpaths : executablePaths (directory ++ "/unpacked".toList) tree = [path])
    (hlines : fileLines (unlines [path]) = [path]) (hpath : directory ++ "/unpacked".toList <+: path)
    (hmove : directory ++ "/unpacked".toList <+: dirname (dirname path)) :
    Reaches host process world (stagedInstaller destination name checksum) (.done (.ok ()))
      (·.installed ≠ none) := by
  have hperm : [path].Perm (executablePaths (directory ++ "/unpacked".toList) tree) := by
    rw [hpaths]
  refine .ok () rfl ?_
  refine .ok () ⟨_, archive, hstaging, rfl⟩ ?_
  refine .ok true ⟨rfl, fun _ => ⟨_, Function.update_self _ _ _, fun _ => ⟨archive, rfl, hsha⟩⟩⟩ ?_
  refine .ok () ⟨_, archive, tree, Function.update_self _ _ _, rfl, hunzip, rfl⟩ ?_
  refine .ok () ⟨_, tree, [path], Function.update_self _ _ _, rfl, hperm, rfl⟩ ?_
  refine .ok [path] ⟨rfl, _, Function.update_self _ _ _, hlines.symm⟩ ?_
  refine .ok () ⟨_, tree, Function.update_self _ _ _, rfl, hpath, rfl⟩ ?_
  refine .ok () rfl ?_
  refine .ok () ⟨_, _, none, _, Function.update_self _ _ _, rfl, rfl, fun _ => ⟨hmove, rfl⟩⟩ ?_
  refine .ok () rfl ?_
  refine .ok () rfl ?_
  exact .refl (Option.some_ne_none _)

/-- The part of a run in which one of the processes goes on. -/
theorem Reaches.steps {installers : Installers Bool Text} {part rest : ShellScript Unit}
    (hprocess : installers.processes process = some part)
    (h : Reaches host process installers.world part rest P) :
    ∃ events installers', Execution (installKernel host).Step installers events installers' ∧
      P installers'.world ∧ installers'.processes process = some rest ∧
      installers'.processes (!process) = installers.processes (!process) := by
  obtain ⟨exchanges, last, hrun, hlast⟩ := h
  exact ⟨_, _, Kernel.execution_of_leads hprocess hrun, hlast, Function.update_self _ _ _,
    Function.update_of_ne (by simp) _ _⟩

/-- A process is gone, and gives the lock back. -/
theorem exists_gone {installers : Installers Bool Text} {part : ShellScript Unit}
    (hprocess : installers.processes process = some part)
    (hholder : installers.world.holder = some process) :
    ∃ installers', Execution (installKernel host).Step installers [] installers' ∧
      installers'.world = { installers.world with holder := none } ∧
      installers'.processes process = none ∧
      installers'.processes (!process) = installers.processes (!process) := by
  have hstep : (installKernel host).Step installers none
      ⟨Function.update installers.processes process none, { installers.world with holder := none }⟩ := by
    apply Kernel.Step.leave hprocess
    change _ = InstallWorld.mk _ (if installers.world.holder = some process then none else _) _
    rw [if_pos hholder]
  exact ⟨_, Execution.single hstep, rfl, Function.update_self _ _ _, Function.update_of_ne (by simp) _ _⟩

def exampleChecksum : Text :=
  "d8da304dd0dfce6c9f488379f03a72e768bce8598c22478c980e1704247352f1".toList

def exampleArchive : Tree Text where
  items := [("esbmc/bin/esbmc".toList, .file [] false), ("esbmc/license".toList, .file [] false)]
  nodup := by simp
  clean := by simp [List.infix_cons_iff]

def exampleHost : Host Text where
  system := "Linux:x86_64".toList
  sha256 := fun _ => exampleChecksum
  unzip := fun _ => some exampleArchive

def exampleInstallers : Installers Bool Text :=
  ⟨fun _ => some (installEsbmc "/opt/esbmc".toList "install-esbmc.sh".toList []), none, none, fun _ => none⟩

theorem release_exampleHost :
    release exampleHost.system = some ("esbmc-linux.zip".toList, exampleChecksum) :=
  if_pos rfl

theorem executablePaths_exampleArchive :
    executablePaths ("/opt/esbmc.tmp.two".toList ++ "/unpacked".toList) exampleArchive =
      ["/opt/esbmc.tmp.two/unpacked/esbmc/bin/esbmc".toList] := by
  decide

/-- One installer has the lock when the other one begins. Its download fails, it removes
its temporary directory and is gone; the other one takes the lock, and publishes. -/
theorem installers_publish_once_handover :
    ∃ first middle rest final,
      Execution (installKernel exampleHost).Step exampleInstallers first middle ∧
      Execution (installKernel exampleHost).Step middle rest final ∧
      middle.processes true = some (.done (.error 22)) ∧ middle.world.holder = some true ∧
      middle.processes false =
        some (waitingInstaller "/opt/esbmc".toList "esbmc-linux.zip".toList exampleChecksum) ∧
      middle.world.installed = none ∧ final.processes true = none ∧
      final.processes false = some (.done (.ok ())) ∧ Finished false final.world ∧
      (first ++ rest).countP isPublication ≤ 1 ∧
      ∃ tree, IsDistribution exampleHost tree ∧ final.world.installed = some (.directory tree) := by
  have hstart : AtStart "/opt/esbmc".toList "install-esbmc.sh".toList exampleInstallers := by
    intro process program hprogram
    exact ⟨rfl, [], (Option.some.inj hprogram).symm⟩
  have hbegin : ∀ process : Bool, Reaches exampleHost process exampleInstallers.world
      (installEsbmc "/opt/esbmc".toList "install-esbmc.sh".toList [])
      (waitingInstaller "/opt/esbmc".toList "esbmc-linux.zip".toList exampleChecksum)
      (· = exampleInstallers.world) := fun _ => reaches_waiting release_exampleHost rfl
  -- The first one takes the lock and makes its temporary directory.
  obtain ⟨events₁, config₁, hrun₁, hworld₁, htrue₁, hfalse₁⟩ := (hbegin true).steps rfl
  have hlock := @reaches_staged exampleHost true config₁.world "/opt/esbmc".toList
    "esbmc-linux.zip".toList exampleChecksum (by rw [hworld₁]; rfl) (by rw [hworld₁]; rfl)
    "/opt/esbmc.tmp.one".toList
  obtain ⟨events₂, config₂, hrun₂, hworld₂, htrue₂, hfalse₂⟩ := hlock.steps htrue₁
  -- The second one finds nothing and waits for the lock.
  have hwait := @reaches_waiting exampleHost false config₂.world "/opt/esbmc".toList
    "install-esbmc.sh".toList _ _ release_exampleHost (by rw [hworld₂, hworld₁]; rfl)
  obtain ⟨events₃, config₃, hrun₃, hworld₃, hfalse₃, htrue₃⟩ := hwait.steps (hfalse₂.trans hfalse₁)
  -- The download of the first one fails, and it is gone.
  have hfail := @reaches_failed exampleHost true config₃.world "/opt/esbmc".toList
    "esbmc-linux.zip".toList exampleChecksum "/opt/esbmc.tmp.one".toList []
  obtain ⟨events₄, config₄, hrun₄, hworld₄, htrue₄, hfalse₄⟩ := hfail.steps (htrue₃.trans htrue₂)
  have hholder₄ : config₄.world.holder = some true := by
    rw [hworld₄, hworld₃, hworld₂]
    rfl
  have hnone₄ : config₄.world.installed = none := by
    rw [hworld₄, hworld₃, hworld₂, hworld₁]
    rfl
  obtain ⟨config₅, hgone, hworld₅, htrue₅, hfalse₅⟩ := exists_gone htrue₄ hholder₄
  -- The second one takes the lock, and nothing fails for it.
  have hlock' := @reaches_staged exampleHost false config₅.world "/opt/esbmc".toList
    "esbmc-linux.zip".toList exampleChecksum (by rw [hworld₅]; exact hnone₄) (by rw [hworld₅])
    "/opt/esbmc.tmp.two".toList
  obtain ⟨events₆, config₆, hrun₆, hworld₆, hfalse₆, htrue₆⟩ :=
    hlock'.steps (hfalse₅.trans (hfalse₄.trans hfalse₃))
  have hstaging : config₆.world.staging false = some ⟨"/opt/esbmc.tmp.two".toList, none, none, []⟩ := by
    rw [hworld₆]
    exact Function.update_self false _ config₅.world.staging
  have hpublish := @reaches_published exampleHost false config₆.world "/opt/esbmc".toList
    "esbmc-linux.zip".toList exampleChecksum "/opt/esbmc.tmp.two/unpacked/esbmc/bin/esbmc".toList []
    exampleArchive "/opt/esbmc.tmp.two".toList hstaging rfl rfl executablePaths_exampleArchive
    (by decide) ⟨"/esbmc/bin/esbmc".toList, by decide⟩ ⟨"/esbmc".toList, by decide⟩
  obtain ⟨events₇, config₇, hrun₇, hinstalled, hfalse₇, htrue₇⟩ := hpublish.steps hfalse₆
  have hfirst := ((hrun₁.trans hrun₂).trans hrun₃).trans hrun₄
  have hrest := (hgone.trans hrun₆).trans hrun₇
  obtain ⟨hpublished, -, hcount, hdone⟩ := installers_publish_once hstart (hfirst.trans hrest) .refl
  rw [List.append_nil] at hcount
  refine ⟨_, config₄, _, config₇, hfirst, hrest, htrue₄, hholder₄, hfalse₄.trans hfalse₃, hnone₄,
    htrue₇.trans (htrue₆.trans htrue₅), hfalse₇, hdone false _ hfalse₇ (.inl rfl), hcount, ?_⟩
  rcases hpublished with hsame | ⟨-, htree⟩
  · exact absurd hsame hinstalled
  · exact htree

end Handover

end AdaptivePi.Esbmc
