import AdaptivePi.Esbmc.CoverageManifest
import AdaptivePi.Report.CoverageReport
import AdaptivePi.Report.ProofStatus

/-!
`run_manifest` of `esbmc_cov_to_html.py`: each proof is executed twice, once for
its status and once for its coverage, and leaves one record. Reports on coverage
are files in a directory of the proof, where an earlier run may have left one. A
command may write, replace or remove any of these files. Three exceptions are
caught nowhere: that of a time limit which `poll` does not take, that of a command
without a bound for loops, and that of `json.dumps` for evidence nested too deeply.
-/

namespace AdaptivePi.Report

open Foundation Foundation.Pattern Foundation.PythonText

inductive FileContent where
  | text (chars : Text)
  | undecodable (message : Text)
  | unreadable (message : Text)

abbrev Files := Text → Option FileContent

/-- What a command does to the files: to a file that it touches, it gives a new
content, or none. -/
abbrev Changes := Text → Option (Option FileContent)

def Changes.apply (changes : Changes) (files : Files) : Files := fun directory =>
  (changes directory).getD (files directory)

structure ManifestProof where
  name : Text
  command : List Text
  directory : Text
  timeout : Nat

structure Execution where
  process : Process
  changes : Changes

/-- A proof of the manifest, with the two commands that are executed for it. -/
structure Step where
  proof : ManifestProof
  check : Execution
  coverage : Execution

/-- What the manifest says, and what its commands do. -/
structure Session where
  root : Text
  exceptions : Text
  version : Process
  steps : List Step

/-- Functions of the host: `Path.resolve`, and the directory for a name, which
is named after its hash. -/
structure Host where
  resolve : Text → Text
  work : Text → Text
  /-- The message of `poll` for a time limit. -/
  overflowMessage : Nat → Text
  /-- `json.dumps`, which descends into each bracket, reaches the recursion limit of
  the interpreter in a claim of a bundle. -/
  isTooDeep : Json → Bool
  recursionMessage : Text

structure RunRecord where
  name : Text
  exceptions : Text
  version : Text
  directory : Text
  proofDirectory : Text
  command : List Text
  coverageCommand : List Text
  unwind : Text
  timeout : Nat
  proofStatus : ProofStatus
  proofExit : ExitStatus
  coverageExit : ExitStatus
  proofLog : Text
  coverageLog : Text
  coverage : Option Coverage
  error : Text

/-- The longest time limit, in seconds, whose milliseconds `poll` takes. -/
def maxTimeout : Nat := 2147483

def Process.isStarted (process : Process) : Bool :=
  match process.ending with
  | .notStarted _ => false
  | _ => true

section Source

variable (python : Python) (host : Host)

/-- `execute`; a process that cannot be started is not waited for. -/
def execute (timeout : Nat) (process : Process) : Except PythonError (ExitStatus × Text) :=
  if process.isStarted = true ∧ maxTimeout < timeout then
    throw (.overflowError (host.overflowMessage timeout))
  else pure process.result

def coverageCommand (proof : ManifestProof) : List Text :=
  proof.command ++
    ["-I".toList ++ proof.directory, "--branch-coverage-claims".toList, "--cov-report-json".toList]

def record (session : Session) (version : Text) (step : Step) (proof coverageRun : ExitStatus × Text)
    (unwind : Text) (coverage : Option Coverage) (error : Text) : RunRecord where
  name := step.proof.name
  exceptions := session.exceptions
  version := strip version
  directory := host.work step.proof.name
  proofDirectory := step.proof.directory
  command := step.proof.command
  coverageCommand := coverageCommand step.proof
  unwind := unwind
  timeout := step.proof.timeout
  proofStatus := proofStatus proof.1 proof.2
  proofExit := proof.1
  coverageExit := coverageRun.1
  proofLog := proof.2
  coverageLog := coverageRun.2
  coverage := coverage
  error := error

def RunRecord.claims (run : RunRecord) : List Json :=
  match run.coverage with
  | none => []
  | some coverage => coverage.claims

end Source

/-- What the commands of a step leave in the directory of its proof. -/
def Step.report (host : Host) (step : Step) : Option FileContent :=
  let work := host.work step.proof.name
  (step.coverage.changes work).getD ((step.check.changes work).getD none)

section Records

variable {python : Python} {host : Host} {session : Session} {version : Text} {step : Step}

end Records

section Registered

end Registered

end AdaptivePi.Report
