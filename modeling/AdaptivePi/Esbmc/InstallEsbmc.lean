import AdaptivePi.Foundation.Concurrent
import AdaptivePi.Foundation.Dictionary
import AdaptivePi.Foundation.Lines

/-!
`install-esbmc.sh`, as a script of the commands that it gives to the host. Any number
of installers may run for one destination. The lock of the destination is taken by one
of them at a time, and is given back when the process is gone, and the distribution is
moved to the destination by a rename, from a temporary directory beside it.
-/

namespace AdaptivePi.Esbmc

open Foundation

inductive TreeEntry (Content : Type) where
  | file (contents : Content) (executable : Bool)
  | directory
  /-- Anything else, such as a symbolic link. -/
  | other (executable : Bool)

namespace TreeEntry

variable {Content : Type}

/-- `-x` -/
def isExecutable : TreeEntry Content → Bool
  | .file _ executable => executable
  | .directory => true
  | .other executable => executable

/-- `-type f` -/
def isFile : TreeEntry Content → Bool
  | .file _ _ => true
  | _ => false

/-- `chmod +x` -/
def makeExecutable : TreeEntry Content → TreeEntry Content
  | .file contents _ => .file contents true
  | entry => entry

end TreeEntry

/-- The paths of a directory, relative to it. -/
structure Tree (Content : Type) extends Dictionary Text (TreeEntry Content) where
  clean : ∀ item ∈ items, ¬"//".toList <:+: '/' :: item.1

namespace Tree

variable {Content : Type} (tree : Tree Content)

def isInstallation : Bool := (tree.get "bin/esbmc".toList).any TreeEntry.isExecutable

def makeExecutable (path : Text) : Tree Content where
  items := tree.items.map fun item =>
    (item.1, if '/' :: item.1 = path then item.2.makeExecutable else item.2)
  nodup := by
    rw [List.map_map]
    exact tree.nodup
  clean := by
    intro item hitem
    obtain ⟨other, hother, rfl⟩ := List.mem_map.mp hitem
    exact tree.clean other hother

def below (directory path : Text) : Option Text :=
  if directory <+: path then some (path.drop directory.length) else none

theorem below_eq_some_iff {directory path rest : Text} :
    below directory path = some rest ↔ path = directory ++ rest := by
  unfold below
  constructor
  · intro h
    split at h
    · rename_i hbelow
      obtain ⟨rest', rfl⟩ := hbelow
      rw [List.drop_left] at h
      rw [Option.some.inj h]
    · cases h
  · rintro rfl
    rw [if_pos (List.prefix_append _ _), List.drop_left]

def subtree (directory : Text) : Tree Content where
  items := tree.items.filterMap fun item =>
    (below (directory ++ ['/']) ('/' :: item.1)).map fun path => (path, item.2)
  nodup := by
    rw [List.map_filterMap]
    have heq : (fun item : Text × TreeEntry Content => Option.map Prod.fst
          ((below (directory ++ ['/']) ('/' :: item.1)).map fun path => (path, item.2))) =
        (fun path => below (directory ++ ['/']) ('/' :: path)) ∘ Prod.fst := by
      funext item
      rw [Option.map_map]
      exact Option.map_id_apply
    rw [heq, ← List.filterMap_map]
    apply tree.nodup.filterMap
    intro path path' key h h'
    have hpath := below_eq_some_iff.mp h
    rw [← below_eq_some_iff.mp h'] at hpath
    exact List.cons.inj hpath |>.2
  clean := by
    intro item hitem hinfix
    obtain ⟨other, hother, hbelow⟩ := List.mem_filterMap.mp hitem
    obtain ⟨path, hpath, rfl⟩ := Option.map_eq_some_iff.mp hbelow
    apply tree.clean other hother
    rw [below_eq_some_iff.mp hpath, List.append_assoc, List.singleton_append]
    exact hinfix.trans (List.suffix_append _ _).isInfix

end Tree

/-- What there may be at the destination. -/
inductive Place (Content : Type) where
  | directory (tree : Tree Content)
  /-- A file, a link to nothing. -/
  | other

def Place.isInstallation {Content : Type} : Place Content → Bool
  | .directory tree => tree.isInstallation
  | .other => false

structure Host (Content : Type) where
  /-- `uname -s` and `uname -m` -/
  system : Text
  sha256 : Content → Text
  unzip : Content → Option (Tree Content)

structure Staging (Content : Type) where
  directory : Text
  archive : Option Content
  unpacked : Option (Tree Content)
  /-- The file `executables`. -/
  listing : Text

structure InstallWorld (ι Content : Type) where
  installed : Option (Place Content)
  holder : Option ι
  staging : ι → Option (Staging Content)

inductive ShellCommand where
  | print (message : Text)
  /-- `[[ -x "${install_dir}/bin/esbmc" ]]` -/
  | isInstalled
  /-- `"${install_dir}/bin/esbmc" --version` -/
  | showInstalled
  | uname
  | findTool (tool : Text)
  /-- `mkdir -p` of the parent directory. -/
  | makeParent
  | realpath
  | openLock
  | flock
  /-- `[[ -e "${install_dir}" || -L "${install_dir}" ]]` -/
  | isThere
  | makeStaging
  | fetch (url : Text)
  /-- `sha256sum --check` -/
  | checkSum (checksum : Text)
  | unzip
  /-- `find ... > "${staging_dir}/executables"` -/
  | findExecutables
  | mapfile
  | makeExecutable (path : Text)
  | showVersion (path : Text)
  /-- `mv` to the destination. -/
  | move (directory : Text)
  | removeStaging

abbrev ShellOutput : ShellCommand → Type
  | .isInstalled => Bool
  | .uname => Text
  | .findTool _ => Bool
  | .isThere => Bool
  | .makeStaging => Text
  | .checkSum _ => Bool
  | .mapfile => List Text
  | _ => Unit

/-- An exit status ends the script. -/
abbrev ShellScript (α : Type) := Script ShellCommand ShellOutput Nat α

def dirname (path : Text) : Text :=
  let trimmed := path.reverse.dropWhile (· = '/')
  let parent := trimmed.dropWhile (· ≠ '/')
  let directory := (parent.dropWhile (· = '/')).reverse
  if parent = [] then (if trimmed = [] && path ≠ [] then ['/'] else ['.'])
  else if directory = [] then ['/'] else directory

def release (system : Text) : Option (Text × Text) :=
  if system = "Linux:x86_64".toList then
    some ("esbmc-linux.zip".toList,
      "d8da304dd0dfce6c9f488379f03a72e768bce8598c22478c980e1704247352f1".toList)
  else if system = "Linux:aarch64".toList ∨ system = "Linux:arm64".toList then
    some ("esbmc-linux-armv8.zip".toList,
      "5470aac77f2057f60b232c95dfe0b9b71fef4e736246a53aeb19aaa549dd37f7".toList)
  else none

section Script

open Script

def give (command : ShellCommand) : ShellScript (ShellOutput command) := perform command

def echo (message : Text) : ShellScript Unit := give (.print message)

def fail (messages : List Text) (status : Nat) : ShellScript Unit :=
  match messages with
  | [] => raise status
  | message :: messages => do
      echo message
      fail messages status

def exitInstalled : ShellScript Unit := do
  give .showInstalled
  raise 0

def hostTools : List Text :=
  ["curl", "unzip", "sha256sum", "flock", "realpath", "find"].map String.toList

def checkHostTools (tools : List Text) : ShellScript Unit :=
  match tools with
  | [] => pure ()
  | tool :: tools => do
      let found ← give (.findTool tool)
      if found then checkHostTools tools
      else fail ["ESBMC installation requires ".toList ++ tool ++ ".".toList] 1

variable (destination : Text)

def archiveUrl (archive : Text) : Text :=
  "https://github.com/esbmc/esbmc/releases/download/v8.5/".toList ++ archive

def download (archive checksum : Text) : ShellScript Unit := do
  echo ("Downloading ESBMC 8.5 (".toList ++ archive ++ ")".toList)
  give (.fetch (archiveUrl archive))
  let matched ← give (.checkSum checksum)
  onlyIf (!matched) (fail ["ESBMC archive checksum mismatch; installation aborted.".toList] 1)

/-- The distribution, whose only executable is at the path. -/
def installExecutable (path : Text) : ShellScript Unit := do
  give (.makeExecutable path)
  give (.showVersion path)
  give (.move (dirname (dirname path)))
  echo ("Installed ESBMC in ".toList ++ destination)

def unpackAndInstall (archive checksum : Text) : ShellScript Unit := do
  download archive checksum
  give .unzip
  give .findExecutables
  let executables ← give .mapfile
  match executables with
  | [path] => installExecutable destination path
  | _ => fail ["Expected exactly one bin/esbmc in the release archive.".toList] 1

/-- From the second look at the destination on, with the lock. -/
def installLocked (archive checksum : Text) : ShellScript Unit := do
  let installed ← give .isInstalled
  onlyIf installed exitInstalled
  let there ← give .isThere
  onlyIf there (fail
    ["Refusing to overwrite incomplete ESBMC installation: ".toList ++ destination,
      "Choose a new destination or remove the incomplete installation first.".toList] 1)
  let _ ← give .makeStaging
  (unpackAndInstall destination archive checksum).lastly (give .removeStaging)

/-- What is done before the lock is taken. -/
def lockDestination : ShellScript Unit := do
  checkHostTools hostTools
  give .makeParent
  give .realpath
  give .openLock
  give .flock

def installEsbmc (script : Text) (arguments : List Text) : ShellScript Unit := do
  onlyIf (1 < arguments.length)
    (fail ["Usage: ".toList ++ script ++ " [installation-directory]".toList] 2)
  let installed ← give .isInstalled
  onlyIf installed exitInstalled
  let system ← give .uname
  match release system with
  | none =>
      fail ["Automatic ESBMC installation supports Linux x86_64 and ARM64 hosts.".toList,
        "Install ESBMC manually and set ESBMC_EXECUTABLE in CMake.".toList] 1
  | some (archive, checksum) => do
      lockDestination
      installLocked destination archive checksum

end Script

section World

variable {ι Content : Type} [DecidableEq ι]

def Staging.root (staging : Staging Content) : Text := staging.directory ++ "/unpacked".toList

/-- The paths that `find` prints for a tree. -/
def executablePaths (root : Text) (tree : Tree Content) : List Text :=
  ((tree.items.filter fun item => item.2.isFile).map fun item => root ++ '/' :: item.1).filter
    fun path => "/bin/esbmc".toList <:+ path

namespace InstallWorld

variable (world : InstallWorld ι Content)

def setStaging (process : ι) (staging : Option (Staging Content)) : InstallWorld ι Content :=
  { world with staging := Function.update world.staging process staging }

def isInstalled : Bool := world.installed.any Place.isInstallation

/-- A `mv` of a staged directory. It becomes the destination, unless there is something
already. -/
def Moves (process : ι) (directory : Text) (world' : InstallWorld ι Content) : Prop :=
  ∃ staging tree left place, world.staging process = some staging ∧ staging.unpacked = some tree ∧
    world' = { world.setStaging process (some { staging with unpacked := left }) with
      installed := some place } ∧
    (world.installed = none → staging.root <+: directory ∧
      place = .directory (tree.subtree (directory.drop staging.root.length)))

/-- What a command answers and does. A command that fails may have done anything in the
temporary directory; a rename is done or not. The name of a file that is checked may not
have a newline in it. -/
def Effect (host : Host Content) (process : ι) (command : ShellCommand)
    (reply : Except Nat (ShellOutput command)) (world' : InstallWorld ι Content) : Prop :=
  match command, reply with
  | .isInstalled, .ok there => world' = world ∧ there = world.isInstalled
  | .uname, .ok system => world' = world ∧ system = host.system
  | .showInstalled, .ok _ => world' = world ∧ world.isInstalled = true
  | .isThere, .ok there => world' = world ∧ there = world.installed.isSome
  | .flock, .ok _ => world.holder = none ∧ world' = { world with holder := some process }
  | .makeStaging, .ok directory => world' = world.setStaging process (some ⟨directory, none, none, []⟩)
  | .fetch _, .ok _ => ∃ staging archive, world.staging process = some staging ∧
      world' = world.setStaging process (some { staging with archive := some archive })
  | .checkSum checksum, .ok matched => world' = world ∧ (matched = true →
      ∃ staging, world.staging process = some staging ∧ ('\n' ∉ staging.directory →
        ∃ archive, staging.archive = some archive ∧ host.sha256 archive = checksum))
  | .unzip, .ok _ => ∃ staging archive tree, world.staging process = some staging ∧
      staging.archive = some archive ∧ host.unzip archive = some tree ∧
      world' = world.setStaging process (some { staging with unpacked := some tree })
  | .findExecutables, .ok _ => ∃ staging tree paths, world.staging process = some staging ∧
      staging.unpacked = some tree ∧ paths.Perm (executablePaths staging.root tree) ∧
      world' = world.setStaging process (some { staging with listing := unlines paths })
  | .mapfile, .ok lines => world' = world ∧ ∃ staging, world.staging process = some staging ∧
      lines = fileLines staging.listing
  | .makeExecutable path, .ok _ => ∃ staging tree, world.staging process = some staging ∧
      staging.unpacked = some tree ∧ staging.root <+: path ∧
      world' = world.setStaging process
        (some { staging with unpacked := some (tree.makeExecutable (path.drop staging.root.length)) })
  | .move directory, .ok _ => world.Moves process directory world'
  | .move directory, .error _ => world' = world ∨ world.Moves process directory world'
  | .removeStaging, .ok _ => world' = world.setStaging process none
  | .makeStaging, .error _ => ∃ staging, world' = world.setStaging process staging
  | .fetch _, .error _ => ∃ staging, world' = world.setStaging process staging
  | .unzip, .error _ => ∃ staging, world' = world.setStaging process staging
  | .findExecutables, .error _ => ∃ staging, world' = world.setStaging process staging
  | .makeExecutable _, .error _ => ∃ staging, world' = world.setStaging process staging
  | .removeStaging, .error _ => ∃ staging, world' = world.setStaging process staging
  | _, _ => world' = world

/-- A command that fails has a status that is not zero. -/
def Responds (host : Host Content) (process : ι) (command : ShellCommand)
    (reply : Except Nat (ShellOutput command)) (world' : InstallWorld ι Content) : Prop :=
  reply ≠ .error 0 ∧ world.Effect host process command reply world'

end InstallWorld

/-- The processes on the host; the lock of one that is gone is given back. -/
def installKernel (host : Host Content) :
    Kernel ι (fun command => Except Nat (ShellOutput command)) (InstallWorld ι Content) where
  respond process world := world.Responds host process
  leave process world world' :=
    world' = { world with holder := if world.holder = some process then none else world.holder }

end World

end AdaptivePi.Esbmc
