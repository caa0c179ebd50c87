import AdaptivePi.Foundation.Chain
import AdaptivePi.Foundation.Transition
import AdaptivePi.Log.Logger

/-!
`logger_registry.cpp` with any number of threads. Every allocation, copy, lock,
write to the list and read of a link is a step of its own. Whether an
allocation or a lock of a call succeeds is decided by the environment; the
decisions are fields of the call, so that every combination occurs. The mutex
gives mutual exclusion and unlocking succeeds.
-/

namespace AdaptivePi.Log

open Foundation

/-- The arguments of `Register`, and which of its three allocations and its lock
succeed. -/
structure RegisterCall where
  contextId : Bytes
  description : Bytes
  threshold : LogLevel
  idBufferAllocated : Bool
  descriptionBufferAllocated : Bool
  loggerAllocated : Bool
  locked : Bool
  deriving DecidableEq

/-- The arguments of `Find`, and whether its lock succeeds. -/
structure FindCall where
  contextId : Bytes
  description : Bytes
  threshold : LogLevel
  locked : Bool
  deriving DecidableEq

inductive RegistryCall where
  | register (call : RegisterCall)
  | find (call : FindCall)
  deriving DecidableEq

inductive RegistryAnswer where
  | value (logger : LoggerPtr)
  | operationFailed
  | found (logger : LoggerPtr)
  deriving DecidableEq

/-- What callers see. A call that terminates the process does not return. -/
inductive RegistryEvent (ThreadId : Type) where
  | called (thread : ThreadId) (call : RegistryCall)
  | returned (thread : ThreadId) (call : RegistryCall) (answer : RegistryAnswer)
  | terminated (thread : ThreadId) (call : RegistryCall)

structure LoggerNode where
  idBuffer : Bytes
  idSize : Nat
  descriptionBuffer : Bytes
  descriptionSize : Nat
  threshold : LogLevel
  next : Option LoggerPtr

namespace LoggerNode

/-- `ContextId` -/
def contextId (node : LoggerNode) : Bytes := node.idBuffer.take node.idSize

/-- `ContextDescription` -/
def contextDescription (node : LoggerNode) : Bytes :=
  node.descriptionBuffer.take node.descriptionSize

end LoggerNode

def contextBufferSize (value : Bytes) : Nat := if value = [] then 1 else value.length

/-- `std::memcpy` of a context string, unless it is empty. -/
def copyContext (buffer value : Bytes) : Bytes :=
  if value ≠ [] then value ++ buffer.drop value.length else buffer

/-- Where a thread stands, with the local variables that are still used. -/
inductive Control where
  | idle
  | checkThreshold (call : RegisterCall)
  | allocateIdBuffer (call : RegisterCall)
  | allocateDescriptionBuffer (call : RegisterCall) (idBuffer : Bytes)
  | copyId (call : RegisterCall) (idBuffer descriptionBuffer : Bytes)
  | copyDescription (call : RegisterCall) (idBuffer descriptionBuffer : Bytes)
  | allocateLogger (call : RegisterCall) (idBuffer descriptionBuffer : Bytes)
  | lockRegister (call : RegisterCall) (logger : LoggerPtr)
  | link (call : RegisterCall) (logger : LoggerPtr)
  | publish (call : RegisterCall) (logger : LoggerPtr)
  | unlockRegister (call : RegisterCall) (logger : LoggerPtr)
  | deleteLogger (call : RegisterCall) (logger : LoggerPtr)
  | returnRegister (call : RegisterCall) (result : Option LoggerPtr)
  | lockFind (call : FindCall)
  | scan (call : FindCall) (current : Option LoggerPtr)
  | compare (call : FindCall) (found : Option LoggerPtr)
  | unlockFind (call : FindCall) (found : Option LoggerPtr) (isMatch : Bool)
  | checkMatch (call : FindCall) (found : Option LoggerPtr) (isMatch : Bool)

/-- The memory of logger objects. -/
abbrev LoggerHeap := LoggerPtr → Option LoggerNode

structure Registry (ThreadId : Type) where
  heap : LoggerHeap
  head : Option LoggerPtr
  /-- The thread that holds the mutex. -/
  owner : Option ThreadId
  threads : ThreadId → Control
  terminated : Bool

namespace Registry

/-- `level <= LogLevel::kVerbose` -/
def definedThreshold (level : LogLevel) : Bool := level.byte ≤ LogLevel.verbose.byte

def entry : RegistryCall → Control
  | .register call => .checkThreshold call
  | .find call => .lockFind call

/-- Steps that change nothing but where the thread stands. -/
inductive LocalStep (heap : LoggerHeap) : Control → Control → Prop where
  | thresholdDefined {call : RegisterCall} (hdefined : definedThreshold call.threshold = true) :
      LocalStep heap (.checkThreshold call) (.allocateIdBuffer call)
  | idBuffer {call : RegisterCall} (hallocated : call.idBufferAllocated = true)
      (contents : Bytes) (hsize : contents.length = contextBufferSize call.contextId) :
      LocalStep heap (.allocateIdBuffer call) (.allocateDescriptionBuffer call contents)
  | noIdBuffer {call : RegisterCall} (hfailed : call.idBufferAllocated = false) :
      LocalStep heap (.allocateIdBuffer call) (.returnRegister call none)
  | descriptionBuffer {call : RegisterCall} {idBuffer : Bytes}
      (hallocated : call.descriptionBufferAllocated = true) (contents : Bytes)
      (hsize : contents.length = contextBufferSize call.description) :
      LocalStep heap (.allocateDescriptionBuffer call idBuffer) (.copyId call idBuffer contents)
  | noDescriptionBuffer {call : RegisterCall} {idBuffer : Bytes}
      (hfailed : call.descriptionBufferAllocated = false) :
      LocalStep heap (.allocateDescriptionBuffer call idBuffer) (.returnRegister call none)
  | copyId {call : RegisterCall} {idBuffer descriptionBuffer : Bytes} :
      LocalStep heap (.copyId call idBuffer descriptionBuffer)
        (.copyDescription call (copyContext idBuffer call.contextId) descriptionBuffer)
  | copyDescription {call : RegisterCall} {idBuffer descriptionBuffer : Bytes} :
      LocalStep heap (.copyDescription call idBuffer descriptionBuffer)
        (.allocateLogger call idBuffer (copyContext descriptionBuffer call.description))
  | noLogger {call : RegisterCall} {idBuffer descriptionBuffer : Bytes}
      (hfailed : call.loggerAllocated = false) :
      LocalStep heap (.allocateLogger call idBuffer descriptionBuffer) (.returnRegister call none)
  | notLocked {call : RegisterCall} {logger : LoggerPtr} (hfailed : call.locked = false) :
      LocalStep heap (.lockRegister call logger) (.deleteLogger call logger)
  | skip {call : FindCall} {logger : LoggerPtr} {node : LoggerNode}
      (hnode : heap logger = some node) (hdiffers : node.contextId ≠ call.contextId) :
      LocalStep heap (.scan call (some logger)) (.scan call node.next)
  | stop {call : FindCall} {logger : LoggerPtr} {node : LoggerNode}
      (hnode : heap logger = some node) (hequal : node.contextId = call.contextId) :
      LocalStep heap (.scan call (some logger)) (.compare call (some logger))
  | exhaust {call : FindCall} :
      LocalStep heap (.scan call none) (.compare call none)
  | compare {call : FindCall} {logger : LoggerPtr} {node : LoggerNode}
      (hnode : heap logger = some node) :
      LocalStep heap (.compare call (some logger))
        (.unlockFind call (some logger)
          (node.contextDescription = call.description && node.threshold = call.threshold))
  | compareNone {call : FindCall} :
      LocalStep heap (.compare call none) (.unlockFind call none false)

section

variable {ThreadId : Type} [DecidableEq ThreadId]

def initial : Registry ThreadId :=
  { heap := fun _ => none, head := none, owner := none, threads := fun _ => .idle,
    terminated := false }

def goto (registry : Registry ThreadId) (thread : ThreadId) (control : Control) :
    Registry ThreadId :=
  { registry with threads := Function.update registry.threads thread control }

def newLogger (call : RegisterCall) (idBuffer descriptionBuffer : Bytes) : LoggerNode :=
  { idBuffer := idBuffer, idSize := call.contextId.length,
    descriptionBuffer := descriptionBuffer, descriptionSize := call.description.length,
    threshold := call.threshold, next := none }

/-- The steps of a thread of a process that has not terminated. -/
inductive ThreadStep (registry : Registry ThreadId) (thread : ThreadId) :
    Control → Option (RegistryEvent ThreadId) → Registry ThreadId → Prop where
  | call (call : RegistryCall) :
      ThreadStep registry thread .idle (some (.called thread call))
        (registry.goto thread (entry call))
  | silent {control control' : Control} (hlocal : LocalStep registry.heap control control') :
      ThreadStep registry thread control none (registry.goto thread control')
  | allocateLogger {call : RegisterCall} {idBuffer descriptionBuffer : Bytes}
      (hallocated : call.loggerAllocated = true) (logger : LoggerPtr)
      (hfree : registry.heap logger = none) :
      ThreadStep registry thread (.allocateLogger call idBuffer descriptionBuffer) none
        { registry.goto thread (.lockRegister call logger) with
          heap := Function.update registry.heap logger
            (some (newLogger call idBuffer descriptionBuffer)) }
  | lockRegister {call : RegisterCall} {logger : LoggerPtr} (hlocked : call.locked = true)
      (hfree : registry.owner = none) :
      ThreadStep registry thread (.lockRegister call logger) none
        { registry.goto thread (.link call logger) with owner := some thread }
  | link {call : RegisterCall} {logger : LoggerPtr} {node : LoggerNode}
      (hnode : registry.heap logger = some node) :
      ThreadStep registry thread (.link call logger) none
        { registry.goto thread (.publish call logger) with
          heap := Function.update registry.heap logger
            (some { node with next := registry.head }) }
  | publish {call : RegisterCall} {logger : LoggerPtr} :
      ThreadStep registry thread (.publish call logger) none
        { registry.goto thread (.unlockRegister call logger) with head := some logger }
  | unlockRegister {call : RegisterCall} {logger : LoggerPtr} :
      ThreadStep registry thread (.unlockRegister call logger) none
        { registry.goto thread (.returnRegister call (some logger)) with owner := none }
  | deleteLogger {call : RegisterCall} {logger : LoggerPtr} :
      ThreadStep registry thread (.deleteLogger call logger) none
        { registry.goto thread (.returnRegister call none) with
          heap := Function.update registry.heap logger none }
  | returnValue {call : RegisterCall} {logger : LoggerPtr} :
      ThreadStep registry thread (.returnRegister call (some logger))
        (some (.returned thread (.register call) (.value logger))) (registry.goto thread .idle)
  | returnFailure {call : RegisterCall} :
      ThreadStep registry thread (.returnRegister call none)
        (some (.returned thread (.register call) .operationFailed)) (registry.goto thread .idle)
  | lockFind {call : FindCall} (hlocked : call.locked = true) (hfree : registry.owner = none) :
      ThreadStep registry thread (.lockFind call) none
        { registry.goto thread (.scan call registry.head) with owner := some thread }
  | unlockFind {call : FindCall} {found : Option LoggerPtr} {isMatch : Bool} :
      ThreadStep registry thread (.unlockFind call found isMatch) none
        { registry.goto thread (.checkMatch call found isMatch) with owner := none }
  | returnFound {call : FindCall} {logger : LoggerPtr} :
      ThreadStep registry thread (.checkMatch call (some logger) true)
        (some (.returned thread (.find call) (.found logger))) (registry.goto thread .idle)
  | terminateThreshold {call : RegisterCall}
      (hundefined : definedThreshold call.threshold = false) :
      ThreadStep registry thread (.checkThreshold call)
        (some (.terminated thread (.register call))) { registry with terminated := true }
  | terminateNotLocked {call : FindCall} (hfailed : call.locked = false) :
      ThreadStep registry thread (.lockFind call)
        (some (.terminated thread (.find call))) { registry with terminated := true }
  | terminateNoMatch {call : FindCall} {found : Option LoggerPtr} :
      ThreadStep registry thread (.checkMatch call found false)
        (some (.terminated thread (.find call))) { registry with terminated := true }

/-- Some thread makes a step. -/
inductive Step : StepRelation (Registry ThreadId) (RegistryEvent ThreadId) where
  | step {registry registry' : Registry ThreadId} {event : Option (RegistryEvent ThreadId)}
      (hrunning : registry.terminated = false) (thread : ThreadId)
      (hstep : ThreadStep registry thread (registry.threads thread) event registry') :
      Step registry event registry'

end

end Registry

end AdaptivePi.Log
