import AdaptivePi.Esbmc.FileSystem
import AdaptivePi.Foundation.SemicolonList

/-!
`RunESBMCProofs.cmake`. A run reads a manifest that `ESBMC.cmake` has written,
and gives each proof of it a verdict. Results that have passed are kept in the
cache directory. Files may change while a run goes on: the shared inputs are
read when it starts, and the inputs of a proof when its turn comes. What the
checker does is up to the environment, as are SHA-256 and the way in which
CMake makes a path absolute.
-/

namespace AdaptivePi.Esbmc

open Foundation

/-- The last hexadecimal digits of a number. -/
def hexadecimal : Nat → Nat → Text
  | 0, _ => []
  | width + 1, n => hexadecimal width (n / 16) ++ [Nat.digitChar (n % 16)]

structure Sha256 where
  hash : Text → BitVec 256

def Sha256.digest (sha : Sha256) (text : Text) : Text := hexadecimal 64 (sha.hash text).toNat

structure CMake where
  sha256 : Sha256
  /-- `get_filename_component(... ABSOLUTE)` -/
  absolute : Path → Path

/-- A name that `add_esbmc_proof` accepts: `^[A-Za-z0-9_-]+$`. -/
def isNameChar (char : Char) : Bool := char.isAlphanum || char = '_' || char = '-'

abbrev ProofName := {text : Text // text ≠ [] ∧ ∀ char ∈ text, isNameChar char = true}

/-- A timeout that `add_esbmc_proof` accepts: `^[1-9][0-9]*$`. -/
abbrev Timeout := {text : Text // text ≠ [] ∧ ∀ char ∈ text, char.isDigit = true}

structure ProofSettings where
  name : ProofName
  command : Text
  timeout : Timeout
  directory : Path
  inputs : List Path
  headerDirectories : List Path

/-- A manifest, as `adaptive_pi_run_esbmc_proofs` writes it. -/
structure Manifest where
  proofs : List ProofSettings
  proofs_ne_nil : proofs ≠ []
  names_nodup : (proofs.map ProofSettings.name).Nodup
  cacheDirectory : Option Path
  executable : Path
  sharedInputs : List Path

section Hash

variable (sha : Sha256)

def inputFiles (files : FileSystem) (input : Path) : List Path :=
  if files.isDirectory input then files.glob input fun _ => true else [input]

def hashFile (files : FileSystem) (path : Path) : Text :=
  match files.read path with
  | some contents => path.val ++ ":".toList ++ sha.digest contents ++ "\n".toList
  | none => path.val ++ ":missing\n".toList

def hashInput (files : FileSystem) (input : Path) : Text :=
  "path:".toList ++ input.val ++ "\n".toList ++ (inputFiles files input).flatMap (hashFile sha files)

/-- The string that `esbmc_hash_inputs` hashes. -/
def hashContent (files : FileSystem) (inputs : List Path) : Text :=
  inputs.flatMap (hashInput sha files)

def hashInputs (files : FileSystem) (inputs : List Path) : Text :=
  sha.digest (hashContent sha files inputs)

end Hash

def toolDirectory (cmake : CMake) (executable : Path) : Path :=
  cmake.absolute (executable.extend "/../..".toList (List.all_eq_true.mp (by decide)))

def Manifest.shared (cmake : CMake) (manifest : Manifest) : List Path :=
  manifest.sharedInputs ++ [manifest.executable,
    (toolDirectory cmake manifest.executable).extend "/include".toList
      (List.all_eq_true.mp (by decide))]

/-- The patterns of local helper headers. -/
def isHeader (path : Text) : Bool :=
  [".h", ".hh", ".hpp", ".hxx", ".inc", ".inl", ".ipp"].any fun suffix =>
    decide (suffix.toList <:+ path)

namespace ProofSettings

/-- `local_headers` -/
def localHeaders (settings : ProofSettings) (files : FileSystem) : List Path :=
  (settings.headerDirectories.flatMap fun directory => files.glob directory isHeader).dedup.insertionSort
    fun path path' => path.val ≤ path'.val

/-- What is hashed for one proof. -/
def tracked (settings : ProofSettings) (files : FileSystem) : List Path :=
  settings.inputs ++ settings.localHeaders files

def fingerprintContent (settings : ProofSettings) (sharedDigest inputDigest : Text) : Text :=
  "v1;".toList ++ sharedDigest ++ ";".toList ++ inputDigest ++ ";".toList ++ settings.command ++
    ";".toList ++ settings.timeout.val ++ ";".toList ++ settings.directory.val

def display (settings : ProofSettings) : Text :=
  (SemicolonList.forEach settings.command).flatMap fun argument =>
    " '".toList ++ argument.flatMap (fun char => if char = '\'' then "'\\''".toList else [char]) ++
      "'".toList

end ProofSettings

structure CheckerResult where
  result : Text
  output : Text
  error : Text
  deriving DecidableEq

def verificationSuccessful : Text := "VERIFICATION SUCCESSFUL".toList

/-- Result 0 and a line `VERIFICATION SUCCESSFUL`. -/
def CheckerResult.succeeded (checker : CheckerResult) : Bool :=
  checker.result == "0".toList &&
    hasLine verificationSuccessful (checker.output ++ "\n".toList ++ checker.error)

/-- The log of a proof that has been executed. -/
def logText (settings : ProofSettings) (fingerprint : Text) (checker : CheckerResult) : Text :=
  "Fingerprint: ".toList ++ fingerprint ++ "\nDirectory: ".toList ++ settings.directory.val ++
    "\nCommand:".toList ++ settings.display ++ "\nResult: ".toList ++ checker.result ++
    "\n".toList ++ checker.output ++ "\n".toList ++ checker.error

/-- The log is that of a successful run with this fingerprint. -/
def isReusable (fingerprint log : Text) : Bool :=
  decide ("Fingerprint: ".toList ++ fingerprint ++ "\n".toList <+: log) &&
    decide ("\nResult: 0\n".toList <:+: log) && hasLine verificationSuccessful log

def cachedLog (directory : Path) (name : ProofName) (fingerprint : Text) : Text :=
  directory.val ++ "/".toList ++ name.val ++ "-".toList ++ fingerprint ++ ".log".toList

inductive Verdict where
  | passed
  | failed
  | reused
  deriving DecidableEq

/-- The line of a proof in the summary, its log, and what the checker did if it
was executed. -/
structure ProofRecord where
  name : ProofName
  verdict : Verdict
  timeout : Timeout
  log : Text
  execution : Option CheckerResult

abbrev Cache := Text → Option Text

/-- A manifest, the files when the run starts and when the turn of each proof
comes, and what the checker does if it is executed for a proof. -/
structure GateRun where
  manifest : Manifest
  start : FileSystem
  during : ProofName → FileSystem
  checker : ProofName → CheckerResult

namespace GateRun

variable (cmake : CMake) (run : GateRun)

def sharedDigest : Text := hashInputs cmake.sha256 run.start (run.manifest.shared cmake)

def inputDigest (settings : ProofSettings) : Text :=
  hashInputs cmake.sha256 (run.during settings.name)
    (settings.tracked (run.during settings.name))

def fingerprint (settings : ProofSettings) : Text :=
  cmake.sha256.digest
    (settings.fingerprintContent (run.sharedDigest cmake) (run.inputDigest cmake settings))

/-- The state of the proof loop: the lines of the summary, `failures`, and the
cache directory. -/
structure Loop where
  records : List ProofRecord
  failures : List ProofName
  cache : Cache

def execute (settings : ProofSettings) (fingerprint : Text) (cachedLog : Option Text)
    (loop : Loop) : Loop :=
  let checker := run.checker settings.name
  let log := logText settings fingerprint checker
  let record (verdict : Verdict) : ProofRecord :=
    ⟨settings.name, verdict, settings.timeout, log, some checker⟩
  if checker.succeeded then
    { loop with
      records := loop.records ++ [record .passed]
      cache := match cachedLog with
        | some path => fun other => if other = path then some log else loop.cache other
        | none => loop.cache }
  else
    { loop with
      records := loop.records ++ [record .failed]
      failures := loop.failures ++ [settings.name] }

def proofStep (loop : Loop) (settings : ProofSettings) : Loop :=
  match run.manifest.cacheDirectory with
  | none => run.execute settings [] none loop
  | some directory =>
      let fingerprint := run.fingerprint cmake settings
      let path := cachedLog directory settings.name fingerprint
      match loop.cache path with
      | some cached =>
          if isReusable fingerprint cached then
            { loop with
              records := loop.records ++ [⟨settings.name, .reused, settings.timeout,
                "Reused successful result; inputs unchanged.\n".toList ++ cached, none⟩] }
          else run.execute settings fingerprint (some path) loop
      | none => run.execute settings fingerprint (some path) loop

structure Report where
  records : List ProofRecord
  succeeded : Bool

def execution (cache : Cache) : Report × Cache :=
  let loop := run.manifest.proofs.foldl (run.proofStep cmake) ⟨[], [], cache⟩
  (⟨loop.records, loop.failures.length = 0⟩, loop.cache)

end GateRun

/-- The cache directory after a history of runs. -/
def cacheAfter (cmake : CMake) (history : List GateRun) : Cache :=
  history.foldl (fun cache run => (run.execution cmake cache).2) fun _ => none

def report (cmake : CMake) (history : List GateRun) (run : GateRun) : GateRun.Report :=
  (run.execution cmake (cacheAfter cmake history)).1

end AdaptivePi.Esbmc
