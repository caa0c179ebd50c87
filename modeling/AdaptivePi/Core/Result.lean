import AdaptivePi.Core.ResultStorage
import AdaptivePi.Foundation.Transition

/-!
`Result` from `result.h`, and programs that use any number of Results. The
constructor of a payload may read the payloads of all Results that are alive,
the one that is replaced included.
-/

namespace AdaptivePi.Core

open Foundation

/-- `ErrorDomain` as far as `ThrowAsException` uses it. A converter throws an
exception, or it unexpectedly returns. -/
structure ErrorDomain (Exn E : Type) where
  converter : Option (E → Option Exn)

def ErrorDomain.throwAsException {Exn E : Type} (domain : ErrorDomain Exn E) (error : E) :
    Except Termination Exn :=
  match domain.converter with
  | some convert =>
      match convert error with
      | some exception => .ok exception
      | none => .error .notConverted
  | none => .error .notConverted

/-- The types of a Result: how payloads are copied and moved, and the domain of
an error. -/
structure ResultTypes (Exn T E : Type) where
  valueType : PayloadType Exn T
  errorType : PayloadType Exn E
  domain : E → ErrorDomain Exn E

def ResultTypes.payloadType {Exn T E : Type} (types : ResultTypes Exn T E) :
    PayloadType Exn (T ⊕ E) :=
  types.valueType.variant types.errorType

namespace Result

variable {Exn T E : Type}

def hasValue (storage : ResultStorage T E) : Except Termination Bool := do
  return (← storage.index) = .value

def value (storage : ResultStorage T E) : Except Termination T :=
  storage.get Sum.getLeft?

def error (storage : ResultStorage T E) : Except Termination E := do
  if ← hasValue storage then
    throw .errorOfValue
  storage.get Sum.getRight?

def throwIfError (types : ResultTypes Exn T E) (storage : ResultStorage T E) :
    Except Termination (Option Exn) := do
  if !(← hasValue storage) then
    let error ← storage.get Sum.getRight?
    return some (← (types.domain error).throwAsException error)
  return none

def valueOrThrow (types : ResultTypes Exn T E) (storage : ResultStorage T E) :
    Except Termination (Except Exn T) := do
  match ← throwIfError types storage with
  | some exception => return .error exception
  | none => return .ok (← value storage)

end Result

namespace VoidResult

variable {Exn T E : Type}

def value (storage : ResultStorage T E) : Except Termination Unit := do
  if !(← Result.hasValue storage) then
    throw .valueOfError

def valueOrThrow (types : ResultTypes Exn T E) (storage : ResultStorage T E) :
    Except Termination (Except Exn Unit) := do
  match ← Result.throwIfError types storage with
  | some exception => return .error exception
  | none => return .ok ()

end VoidResult

namespace ResultStorage.Holds

variable {Exn T E : Type} {storage : ResultStorage T E} {payload : Payload T E}

theorem hasValue_eq (h : storage.Holds payload) :
    Result.hasValue storage = .ok payload.content.isLeft := by
  rw [Result.hasValue, h.index_eq]
  cases payload.content with
  | inl value => rfl
  | inr error => rfl

theorem value_eq (h : storage.Holds payload) :
    Result.value storage = match payload.content with
      | .inl value => .ok value
      | .inr _ => .error .otherAlternative := by
  rw [Result.value, h.get_eq]
  cases payload.content with
  | inl value => rfl
  | inr error => rfl

theorem error_eq (h : storage.Holds payload) :
    Result.error storage = match payload.content with
      | .inl _ => .error .errorOfValue
      | .inr error => .ok error := by
  rw [Result.error, h.hasValue_eq, h.get_eq]
  cases payload.content with
  | inl value => rfl
  | inr error => rfl

theorem throwIfError_eq (h : storage.Holds payload) (types : ResultTypes Exn T E) :
    Result.throwIfError types storage = match payload.content with
      | .inl _ => .ok none
      | .inr error => ((types.domain error).throwAsException error).map some := by
  rw [Result.throwIfError, h.hasValue_eq, h.get_eq]
  cases payload.content with
  | inl value => rfl
  | inr error => rfl

/-- The value, or what the domain of the error throws; a converter that returns terminates the
process. -/
theorem valueOrThrow_eq (h : storage.Holds payload) (types : ResultTypes Exn T E) :
    Result.valueOrThrow types storage = match payload.content with
      | .inl value => .ok (.ok value)
      | .inr error => ((types.domain error).throwAsException error).map .error := by
  rw [Result.valueOrThrow, h.throwIfError_eq, h.value_eq]
  cases payload.content with
  | inl value => rfl
  | inr error =>
      cases hthrow : (types.domain error).throwAsException error with
      | ok exception => simp [hthrow, Except.map, bind, Except.bind, pure, Except.pure]
      | error reason => simp [hthrow, Except.map, bind, Except.bind]

theorem voidValue_eq (h : storage.Holds payload) :
    VoidResult.value storage = match payload.content with
      | .inl _ => .ok ()
      | .inr _ => .error .valueOfError := by
  rw [VoidResult.value, h.hasValue_eq]
  cases payload.content with
  | inl value => rfl
  | inr error => rfl

theorem voidValueOrThrow_eq (h : storage.Holds payload) (types : ResultTypes Exn T E) :
    VoidResult.valueOrThrow types storage = match payload.content with
      | .inl _ => .ok (.ok ())
      | .inr error => ((types.domain error).throwAsException error).map .error := by
  rw [VoidResult.valueOrThrow, h.throwIfError_eq]
  cases payload.content with
  | inl value => rfl
  | inr error =>
      cases hthrow : (types.domain error).throwAsException error with
      | ok exception => simp [hthrow, Except.map, bind, Except.bind, pure, Except.pure]
      | error reason => simp [hthrow, Except.map, bind, Except.bind]

end ResultStorage.Holds

/-- What can be read of the Results that are alive. -/
abbrev View (ResultId T E : Type) := ResultId → Option (T ⊕ E)

inductive Construction (Exn ResultId T E : Type) where
  | value (arguments : View ResultId T E → Except Exn T)
  | error (arguments : View ResultId T E → Except Exn E)

def Construction.alternative {Exn ResultId T E : Type} :
    Construction Exn ResultId T E → Alternative
  | .value _ => .value
  | .error _ => .error

def Construction.run {Exn ResultId T E : Type} (view : View ResultId T E) :
    Construction Exn ResultId T E → Except Exn (T ⊕ E)
  | .value arguments => (arguments view).map .inl
  | .error arguments => (arguments view).map .inr

inductive Query where
  | hasValue
  | value
  | error
  | valueOrThrow
  | voidValue
  | voidValueOrThrow
  deriving DecidableEq

inductive Operation (Exn ResultId T E : Type) where
  | create (target : ResultId) (construction : Construction Exn ResultId T E)
  | emplace (target : ResultId) (construction : Construction Exn ResultId T E)
  | copy (target source : ResultId)
  | move (target source : ResultId)
  | query (target : ResultId) (query : Query)
  | destroy (target : ResultId)

inductive Outcome (Exn T E : Type) where
  | stored (content : T ⊕ E)
  | copied
  | moved
  | destroyed
  | flag (hasValue : Bool)
  | value (content : T)
  | error (content : E)
  | returned
  | threw (exception : Exn)
  | terminated

namespace Operation

variable {Exn ResultId T E : Type}

/-- `FromValue(Args&&...)` -/
def fromValue (target : ResultId) (arguments : View ResultId T E → Except Exn T) :
    Operation Exn ResultId T E :=
  .create target (.value arguments)

/-- `FromError(Args&&...)` -/
def fromError (target : ResultId) (arguments : View ResultId T E → Except Exn E) :
    Operation Exn ResultId T E :=
  .create target (.error arguments)

/-- `Result(U&&)`, which constructs the value from a value. -/
def ofValue (types : ResultTypes Exn T E) (target : ResultId) (rvalue : Bool) (value : T) :
    Operation Exn ResultId T E :=
  .create target (.value fun _ => types.valueType.forward rvalue value)

/-- `Result(const E&)` and `Result(E&&)` -/
def ofError (types : ResultTypes Exn T E) (target : ResultId) (rvalue : Bool) (error : E) :
    Operation Exn ResultId T E :=
  .create target (.error fun _ => types.errorType.forward rvalue error)

def emplaceValue (target : ResultId) (arguments : View ResultId T E → Except Exn T) :
    Operation Exn ResultId T E :=
  .emplace target (.value arguments)

def emplaceError (target : ResultId) (arguments : View ResultId T E → Except Exn E) :
    Operation Exn ResultId T E :=
  .emplace target (.error arguments)

end Operation

namespace VoidResult

variable {Exn ResultId E : Type}

def fromValue (target : ResultId) : Operation Exn ResultId Unit E :=
  .create target (.value fun _ => .ok ())

def emplaceValue (target : ResultId) : Operation Exn ResultId Unit E :=
  .emplace target (.value fun _ => .ok ())

end VoidResult

/-- The Results that are alive, and the lifetimes of all payload objects. -/
structure Results (ResultId T E : Type) where
  storages : ResultId → Option (ResultStorage T E)
  lifetimes : Lifetimes
  terminated : Bool

namespace Results

variable {Exn ResultId T E : Type}

def initial : Results ResultId T E := ⟨fun _ => none, .empty, false⟩

def payload (results : Results ResultId T E) (result : ResultId) : Option (Payload T E) :=
  (results.storages result).bind fun storage => storage.slots storage.active

def view (results : Results ResultId T E) : View ResultId T E :=
  fun result => (results.payload result).map Payload.content

def answer (types : ResultTypes Exn T E) (storage : ResultStorage T E) (query : Query) :
    Except Termination (Outcome Exn T E) :=
  match query with
  | .hasValue => (Result.hasValue storage).map .flag
  | .value => (Result.value storage).map .value
  | .error => (Result.error storage).map .error
  | .valueOrThrow => (Result.valueOrThrow types storage).map fun
      | .ok content => .value content
      | .error exception => .threw exception
  | .voidValue => (VoidResult.value storage).map fun _ => .returned
  | .voidValueOrThrow => (VoidResult.valueOrThrow types storage).map fun
      | .ok _ => .returned
      | .error exception => .threw exception

variable [DecidableEq ResultId]

def setStorage (results : Results ResultId T E) (result : ResultId)
    (storage : Option (ResultStorage T E)) (lifetimes : Lifetimes) : Results ResultId T E :=
  { results with
    storages := Function.update results.storages result storage, lifetimes := lifetimes }

def storing : Except Exn (T ⊕ E) → Outcome Exn T E
  | .ok content => .stored content
  | .error exception => .threw exception

/-- One operation of a program. An operation on a Result that is not alive, or
one that creates a Result which is alive already, does not occur in programs. -/
def apply (types : ResultTypes Exn T E) (results : Results ResultId T E) :
    Operation Exn ResultId T E → Option (Results ResultId T E × Outcome Exn T E)
  | .create target construction =>
      match results.storages target with
      | some _ => none
      | none =>
          let content := construction.run results.view
          let (stored, storage, lifetimes) := ResultStorage.construct content results.lifetimes
          some (results.setStorage target storage lifetimes, storing stored)
  | .emplace target construction =>
      match results.storages target with
      | none => none
      | some storage =>
          let arguments := fun storage => construction.run
            (results.setStorage target (some storage) results.lifetimes).view
          let (stored, storage, lifetimes) := storage.emplace arguments results.lifetimes
          some (results.setStorage target (some storage) lifetimes, storing stored)
  | .copy target source =>
      match results.storages target, results.storages source with
      | none, some storage =>
          match storage.copy types.payloadType results.lifetimes with
          | (.ok copied, lifetimes) =>
              some (results.setStorage target (some copied) lifetimes, .copied)
          | (.error exception, lifetimes) => some ({ results with lifetimes }, .threw exception)
      | _, _ => none
  | .move target source =>
      match results.storages target, results.storages source with
      | none, some storage =>
          match storage.move types.payloadType results.lifetimes with
          | (.ok moved, storage, lifetimes) =>
              let results := results.setStorage source (some storage) lifetimes
              some (results.setStorage target (some moved) lifetimes, .moved)
          | (.error exception, storage, lifetimes) =>
              some (results.setStorage source (some storage) lifetimes, .threw exception)
      | _, _ => none
  | .query target query =>
      match results.storages target with
      | none => none
      | some storage =>
          match answer types storage query with
          | .ok outcome => some (results, outcome)
          | .error _ => some ({ results with terminated := true }, .terminated)
  | .destroy target =>
      match results.storages target with
      | none => none
      | some storage =>
          some (results.setStorage target none (storage.destroy results.lifetimes), .destroyed)

/-- The process goes on until it is terminated. -/
inductive Step (types : ResultTypes Exn T E) :
    StepRelation (Results ResultId T E) (Operation Exn ResultId T E × Outcome Exn T E) where
  | step {results results' : Results ResultId T E} {operation : Operation Exn ResultId T E}
      {outcome : Outcome Exn T E} (hrunning : results.terminated = false)
      (happly : results.apply types operation = some (results', outcome)) :
      Step types results (some (operation, outcome)) results'

end Results

end AdaptivePi.Core
