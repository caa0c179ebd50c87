import AdaptivePi.Log.LoggerRegistry

/-!
The registry as its callers may think of it: a list of published loggers,
newest first, on which each call takes effect in one step between its
invocation and its answer.
-/

namespace AdaptivePi.Log

open Foundation

structure RegistryEntry where
  logger : LoggerPtr
  contextId : Bytes
  description : Bytes
  threshold : LogLevel
  deriving DecidableEq

namespace RegisterCall

def entry (call : RegisterCall) (logger : LoggerPtr) : RegistryEntry :=
  ⟨logger, call.contextId, call.description, call.threshold⟩

def Succeeds (call : RegisterCall) : Prop :=
  call.idBufferAllocated = true ∧ call.descriptionBufferAllocated = true ∧
    call.loggerAllocated = true ∧ call.locked = true

instance (call : RegisterCall) : Decidable call.Succeeds := inferInstanceAs (Decidable (_ ∧ _))

end RegisterCall

/-- The most recently published logger with the ID, if its description and
threshold are equal to the arguments. `none` stands for termination. -/
def findAnswer (published : List RegistryEntry) (call : FindCall) : Option RegistryAnswer :=
  if call.locked then
    match published.find? (·.contextId = call.contextId) with
    | some entry =>
        if entry.description = call.description ∧ entry.threshold = call.threshold then
          some (.found entry.logger)
        else none
    | none => none
  else none

namespace RegistrySpec

/-- A call has been made, and has taken effect with an answer. -/
inductive Status where
  | idle
  | pending (call : RegistryCall)
  | done (call : RegistryCall) (answer : Option RegistryAnswer)

structure State (ThreadId : Type) where
  published : List RegistryEntry
  threads : ThreadId → Status
  terminated : Bool

variable {ThreadId : Type} [DecidableEq ThreadId]

def initial : State ThreadId :=
  { published := [], threads := fun _ => .idle, terminated := false }

def goto (state : State ThreadId) (thread : ThreadId) (status : Status) : State ThreadId :=
  { state with threads := Function.update state.threads thread status }

/-- How a pending call takes effect on the published loggers. -/
inductive Effect (published : List RegistryEntry) :
    RegistryCall → List RegistryEntry → Option RegistryAnswer → Prop where
  | register {call : RegisterCall} (hdefined : Registry.definedThreshold call.threshold = true)
      (hsucceeds : call.Succeeds) (logger : LoggerPtr)
      (hnew : logger ∉ published.map RegistryEntry.logger) :
      Effect published (.register call) (call.entry logger :: published) (some (.value logger))
  | registerFailed {call : RegisterCall}
      (hdefined : Registry.definedThreshold call.threshold = true) (hfails : ¬call.Succeeds) :
      Effect published (.register call) published (some .operationFailed)
  | registerUndefined {call : RegisterCall}
      (hundefined : Registry.definedThreshold call.threshold = false) :
      Effect published (.register call) published none
  | find (call : FindCall) :
      Effect published (.find call) published (findAnswer published call)

inductive ThreadStep (state : State ThreadId) (thread : ThreadId) :
    Status → Option (RegistryEvent ThreadId) → State ThreadId → Prop where
  | call (call : RegistryCall) :
      ThreadStep state thread .idle (some (.called thread call))
        (goto state thread (.pending call))
  | effect {call : RegistryCall} {published : List RegistryEntry}
      {answer : Option RegistryAnswer} (heffect : Effect state.published call published answer) :
      ThreadStep state thread (.pending call) none
        { goto state thread (.done call answer) with published := published }
  | respond {call : RegistryCall} {answer : RegistryAnswer} :
      ThreadStep state thread (.done call (some answer))
        (some (.returned thread call answer)) (goto state thread .idle)
  | terminate {call : RegistryCall} :
      ThreadStep state thread (.done call none) (some (.terminated thread call))
        { state with terminated := true }

inductive Step : StepRelation (State ThreadId) (RegistryEvent ThreadId) where
  | step {state state' : State ThreadId} {event : Option (RegistryEvent ThreadId)}
      (hrunning : state.terminated = false) (thread : ThreadId)
      (hstep : ThreadStep state thread (state.threads thread) event state') :
      Step state event state'

end RegistrySpec

end AdaptivePi.Log
