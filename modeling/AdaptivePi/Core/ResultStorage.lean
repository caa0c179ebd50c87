import AdaptivePi.Foundation.Lifetime

/-!
`ResultStorage` from `result.h`: two optional slots, one of which is active.
Storing a payload in an object is recorded with its lifetime. A constructor of
a payload is a computation that gives the content or throws; it sees what can
be read through references at that moment.
-/

namespace AdaptivePi.Core

open Foundation

/-- `c_resultIdx` and `c_errorIdx` -/
inductive Alternative where
  | value
  | error
  deriving DecidableEq

/-- What the copy and move constructors of a type do. They may throw. A copy is
equal to its source, and so is the object that is moved to; what is left in the
source of a move is up to the type. -/
structure PayloadType (Exn α : Type) where
  copy : α → Except Exn α
  copy_eq : ∀ source target, copy source = .ok target → target = source
  move : α → Except Exn α × α
  move_eq : ∀ source target, (move source).1 = .ok target → target = source

namespace PayloadType

variable {Exn T E : Type}

def trivial : PayloadType Exn T where
  copy := .ok
  copy_eq := fun _ _ h => (Except.ok.inj h).symm
  move := fun value => (.ok value, value)
  move_eq := fun _ _ h => (Except.ok.inj h).symm

/-- Construct from what `std::forward` gives: an rvalue is moved, an lvalue is
copied. -/
def forward (valueType : PayloadType Exn T) (rvalue : Bool) (value : T) : Except Exn T :=
  if rvalue then (valueType.move value).1 else valueType.copy value

def variant (valueType : PayloadType Exn T) (errorType : PayloadType Exn E) :
    PayloadType Exn (T ⊕ E) where
  copy
    | .inl value => (valueType.copy value).map .inl
    | .inr error => (errorType.copy error).map .inr
  copy_eq := by
    intro source target h
    cases source with
    | inl value =>
        cases hcopy : valueType.copy value with
        | error exception => simp [hcopy, Except.map] at h
        | ok copied =>
            simp only [hcopy, Except.map, Except.ok.injEq] at h
            rw [← h, valueType.copy_eq value copied hcopy]
    | inr error =>
        cases hcopy : errorType.copy error with
        | error exception => simp [hcopy, Except.map] at h
        | ok copied =>
            simp only [hcopy, Except.map, Except.ok.injEq] at h
            rw [← h, errorType.copy_eq error copied hcopy]
  move
    | .inl value => ((valueType.move value).1.map .inl, .inl (valueType.move value).2)
    | .inr error => ((errorType.move error).1.map .inr, .inr (errorType.move error).2)
  move_eq := by
    intro source target h
    cases source with
    | inl value =>
        cases hmove : (valueType.move value).1 with
        | error exception => simp [hmove, Except.map] at h
        | ok moved =>
            simp only [hmove, Except.map, Except.ok.injEq] at h
            rw [← h, valueType.move_eq value moved hmove]
    | inr error =>
        cases hmove : (errorType.move error).1 with
        | error exception => simp [hmove, Except.map] at h
        | ok moved =>
            simp only [hmove, Except.map, Except.ok.injEq] at h
            rw [← h, errorType.move_eq error moved hmove]

end PayloadType

structure Payload (T E : Type) where
  object : ObjectId
  content : T ⊕ E

inductive Termination where
  | emptySlot
  | otherAlternative
  | errorOfValue
  | valueOfError
  | notConverted
  deriving DecidableEq

abbrev Slot (T E : Type) := Option (Payload T E)

namespace Slot

variable {Exn T E : Type}

def destroy (slot : Slot T E) (lifetimes : Lifetimes) : Lifetimes :=
  match slot with
  | some payload => lifetimes.destroy payload.object
  | none => lifetimes

def create (content : Except Exn (T ⊕ E)) (lifetimes : Lifetimes) :
    Except Exn (Payload T E) × Lifetimes :=
  match content with
  | .ok content => (.ok ⟨lifetimes.nextObject, content⟩, lifetimes.create)
  | .error exception => (.error exception, lifetimes.abandon)

def copy (payloadType : PayloadType Exn (T ⊕ E)) (slot : Slot T E) (lifetimes : Lifetimes) :
    Except Exn (Slot T E) × Lifetimes :=
  match slot with
  | some payload =>
      match create (payloadType.copy payload.content) lifetimes with
      | (.ok copied, lifetimes) => (.ok (some copied), lifetimes)
      | (.error exception, lifetimes) => (.error exception, lifetimes)
  | none => (.ok none, lifetimes)

/-- The move constructor of an optional, with what is left of the source. The
source keeps an object. -/
def move (payloadType : PayloadType Exn (T ⊕ E)) (slot : Slot T E) (lifetimes : Lifetimes) :
    Except Exn (Slot T E) × Slot T E × Lifetimes :=
  match slot with
  | some payload =>
      let left := some { payload with content := (payloadType.move payload.content).2 }
      match create (payloadType.move payload.content).1 lifetimes with
      | (.ok moved, lifetimes) => (.ok (some moved), left, lifetimes)
      | (.error exception, lifetimes) => (.error exception, left, lifetimes)
  | none => (.ok none, none, lifetimes)

end Slot

structure ResultStorage (T E : Type) where
  slots : Fin 2 → Slot T E
  active : Fin 2

namespace ResultStorage

variable {Exn T E α : Type}

def ofSlots (first second : Slot T E) (active : Fin 2) : ResultStorage T E :=
  ⟨fun slot => if slot = 0 then first else second, active⟩

def setSlot (storage : ResultStorage T E) (slot : Fin 2) (contents : Slot T E) :
    ResultStorage T E :=
  { storage with slots := Function.update storage.slots slot contents }

@[simp] theorem setSlot_active (storage : ResultStorage T E) (slot : Fin 2) (contents : Slot T E) :
    (storage.setSlot slot contents).active = storage.active := rfl

def construct (content : Except Exn (T ⊕ E)) (lifetimes : Lifetimes) :
    Except Exn (T ⊕ E) × Option (ResultStorage T E) × Lifetimes :=
  match Slot.create content lifetimes with
  | (.ok payload, lifetimes) =>
      (.ok payload.content, some (ofSlots (some payload) none 0), lifetimes)
  | (.error exception, lifetimes) => (.error exception, none, lifetimes)

/-- The constructor of the new payload runs when the next slot has been reset;
`arguments` is what it does in a storage that is in this state. -/
def emplace (storage : ResultStorage T E)
    (arguments : ResultStorage T E → Except Exn (T ⊕ E)) (lifetimes : Lifetimes) :
    Except Exn (T ⊕ E) × ResultStorage T E × Lifetimes :=
  let next := 1 - storage.active
  let cleared := storage.setSlot next none
  match Slot.create (arguments cleared) (Slot.destroy (storage.slots next) lifetimes) with
  | (.error exception, lifetimes) => (.error exception, cleared, lifetimes)
  | (.ok payload, lifetimes) =>
      let previous := storage.active
      let switched := { cleared.setSlot next (some payload) with active := next }
      (.ok payload.content, switched.setSlot previous none,
        Slot.destroy (switched.slots previous) (lifetimes.activate payload.object))

def activeSlot (storage : ResultStorage T E) : Except Termination (Payload T E) :=
  match storage.slots storage.active with
  | some payload => .ok payload
  | none => .error .emptySlot

def index (storage : ResultStorage T E) : Except Termination Alternative := do
  let payload ← storage.activeSlot
  return match payload.content with
    | .inl _ => .value
    | .inr _ => .error

/-- `get`, where `getIf` is `std::get_if` for one of the alternatives. -/
def get (getIf : T ⊕ E → Option α) (storage : ResultStorage T E) : Except Termination α := do
  let payload ← storage.activeSlot
  match getIf payload.content with
  | some content => .ok content
  | none => .error .otherAlternative

/-- The copy constructor: both slots in order. -/
def copy (payloadType : PayloadType Exn (T ⊕ E)) (storage : ResultStorage T E)
    (lifetimes : Lifetimes) : Except Exn (ResultStorage T E) × Lifetimes :=
  match (storage.slots 0).copy payloadType lifetimes with
  | (.error exception, lifetimes) => (.error exception, lifetimes)
  | (.ok first, lifetimes) =>
      match (storage.slots 1).copy payloadType lifetimes with
      | (.error exception, lifetimes) => (.error exception, first.destroy lifetimes)
      | (.ok second, lifetimes) => (.ok (ofSlots first second storage.active), lifetimes)

/-- The move constructor, with what is left of the source. -/
def move (payloadType : PayloadType Exn (T ⊕ E)) (storage : ResultStorage T E)
    (lifetimes : Lifetimes) :
    Except Exn (ResultStorage T E) × ResultStorage T E × Lifetimes :=
  match (storage.slots 0).move payloadType lifetimes with
  | (.error exception, left, lifetimes) => (.error exception, storage.setSlot 0 left, lifetimes)
  | (.ok first, left, lifetimes) =>
      let storage := storage.setSlot 0 left
      match (storage.slots 1).move payloadType lifetimes with
      | (.error exception, left, lifetimes) =>
          (.error exception, storage.setSlot 1 left, first.destroy lifetimes)
      | (.ok second, left, lifetimes) =>
          (.ok (ofSlots first second storage.active), storage.setSlot 1 left, lifetimes)

def destroy (storage : ResultStorage T E) (lifetimes : Lifetimes) : Lifetimes :=
  (storage.slots 0).destroy ((storage.slots 1).destroy lifetimes)

/-- The active slot holds the payload, and the other slot is empty. -/
structure Holds (storage : ResultStorage T E) (payload : Payload T E) : Prop where
  active_eq : storage.slots storage.active = some payload
  inactive_eq : storage.slots (1 - storage.active) = none

theorem eq_active_or (slot active : Fin 2) : slot = active ∨ slot = 1 - active := by
  omega

theorem inactive_ne (active : Fin 2) : 1 - active ≠ active := by
  omega

variable {storage : ResultStorage T E} {payload : Payload T E}

/-- Exactly the active slot is engaged. -/
theorem Holds.isSome_iff (h : storage.Holds payload) (slot : Fin 2) :
    (storage.slots slot).isSome = true ↔ slot = storage.active := by
  rcases eq_active_or slot storage.active with rfl | rfl
  · simp [h.active_eq]
  · simp [h.inactive_eq, inactive_ne]

/-- Only the active slot is not empty. -/
theorem Holds.slots_eq_some_iff (h : storage.Holds payload) (slot : Fin 2) (held : Payload T E) :
    storage.slots slot = some held ↔ slot = storage.active ∧ held = payload := by
  constructor
  · intro hheld
    have hslot : slot = storage.active := (h.isSome_iff slot).mp (by rw [hheld]; rfl)
    subst hslot
    exact ⟨rfl, Option.some.inj (hheld.symm.trans h.active_eq)⟩
  · rintro ⟨rfl, rfl⟩
    exact h.active_eq

theorem Holds.clear_inactive (h : storage.Holds payload) :
    storage.setSlot (1 - storage.active) none = storage := by
  unfold setSlot
  rw [Function.update_eq_self_iff.mpr h.inactive_eq.symm]

theorem Holds.replace_active (h : storage.Holds payload) (payload' : Payload T E) :
    (storage.setSlot storage.active (some payload')).Holds payload' := by
  refine ⟨Function.update_self .., ?_⟩
  exact (Function.update_of_ne (inactive_ne _) ..).trans h.inactive_eq

/-- After the switch the other slot is active and alone. -/
theorem holds_switched (slots : Fin 2 → Slot T E) (active : Fin 2) (payload : Payload T E) :
    (⟨Function.update (Function.update slots (1 - active) (some payload)) active none,
      1 - active⟩ : ResultStorage T E).Holds payload := by
  refine ⟨?_, ?_⟩
  · exact (Function.update_of_ne (inactive_ne active) ..).trans (Function.update_self ..)
  · have hagain : 1 - (1 - active) = active := by omega
    simp only [hagain, Function.update_self]

theorem holds_ofSlots_zero (payload : Payload T E) : (ofSlots (some payload) none 0).Holds payload :=
  ⟨rfl, rfl⟩

theorem holds_ofSlots_one (payload : Payload T E) : (ofSlots none (some payload) 1).Holds payload :=
  ⟨rfl, rfl⟩

/-- Which slot holds the payload. -/
theorem Holds.slots_cases (h : storage.Holds payload) :
    (storage.active = 0 ∧ storage.slots 0 = some payload ∧ storage.slots 1 = none) ∨
      (storage.active = 1 ∧ storage.slots 0 = none ∧ storage.slots 1 = some payload) := by
  have hactive := h.active_eq
  have hinactive := h.inactive_eq
  have hcases : storage.active = 0 ∨ storage.active = 1 := by omega
  rcases hcases with hslot | hslot
  · rw [hslot] at hactive hinactive
    exact Or.inl ⟨hslot, hactive, hinactive⟩
  · rw [hslot] at hactive hinactive
    exact Or.inr ⟨hslot, hinactive, hactive⟩

section Lifetimes

variable (lifetimes : Lifetimes) {content : T ⊕ E} {exception : Exn}

/-- A successful replacement becomes active, and then the previous payload is
destroyed. -/
theorem Holds.emplace_ok (h : storage.Holds payload)
    {arguments : ResultStorage T E → Except Exn (T ⊕ E)}
    (hcontent : arguments storage = .ok content) :
    ∃ storage', storage.emplace arguments lifetimes = (.ok content, storage',
        ((lifetimes.create).activate lifetimes.nextObject).destroy payload.object) ∧
      storage'.Holds ⟨lifetimes.nextObject, content⟩ := by
  refine ⟨_, ?_, holds_switched storage.slots storage.active ⟨lifetimes.nextObject, content⟩⟩
  simp only [emplace, h.clear_inactive, h.inactive_eq, hcontent, Slot.create, Slot.destroy]
  simp only [setSlot]
  rw [Function.update_of_ne (inactive_ne storage.active).symm, h.active_eq]

/-- If the constructor throws, nothing has changed. -/
theorem Holds.emplace_error (h : storage.Holds payload)
    {arguments : ResultStorage T E → Except Exn (T ⊕ E)}
    (hcontent : arguments storage = .error exception) :
    storage.emplace arguments lifetimes = (.error exception, storage, lifetimes.abandon) := by
  simp only [emplace, h.clear_inactive, h.inactive_eq, hcontent, Slot.create, Slot.destroy]

/-- A copy is a new object with an equal payload. -/
theorem Holds.copy_ok (h : storage.Holds payload) {payloadType : PayloadType Exn (T ⊕ E)}
    (hcopy : payloadType.copy payload.content = .ok content) :
    ∃ storage', storage.copy payloadType lifetimes = (.ok storage', lifetimes.create) ∧
      storage'.Holds ⟨lifetimes.nextObject, content⟩ := by
  rcases h.slots_cases with ⟨hactive, hfirst, hsecond⟩ | ⟨hactive, hfirst, hsecond⟩
  · refine ⟨_, ?_, holds_ofSlots_zero ⟨lifetimes.nextObject, content⟩⟩
    simp only [copy, hfirst, hsecond, hactive, Slot.copy, Slot.create, hcopy]
  · refine ⟨_, ?_, holds_ofSlots_one ⟨lifetimes.nextObject, content⟩⟩
    simp only [copy, hfirst, hsecond, hactive, Slot.copy, Slot.create, hcopy]

theorem Holds.copy_error (h : storage.Holds payload) {payloadType : PayloadType Exn (T ⊕ E)}
    (hcopy : payloadType.copy payload.content = .error exception) :
    storage.copy payloadType lifetimes = (.error exception, lifetimes.abandon) := by
  rcases h.slots_cases with ⟨-, hfirst, hsecond⟩ | ⟨-, hfirst, hsecond⟩
  · simp only [copy, hfirst, Slot.copy, Slot.create, hcopy]
  · simp only [copy, hfirst, hsecond, Slot.copy, Slot.create, hcopy, Slot.destroy]

/-- After a move both storages hold a payload. -/
theorem Holds.move_ok (h : storage.Holds payload) {payloadType : PayloadType Exn (T ⊕ E)}
    (hmove : (payloadType.move payload.content).1 = .ok content) :
    ∃ storage' left, storage.move payloadType lifetimes =
        (.ok storage', left, lifetimes.create) ∧
      storage'.Holds ⟨lifetimes.nextObject, content⟩ ∧
      left.Holds { payload with content := (payloadType.move payload.content).2 } := by
  have hinactive := h.clear_inactive
  have hleft := h.replace_active { payload with content := (payloadType.move payload.content).2 }
  rcases h.slots_cases with ⟨hactive, hfirst, hsecond⟩ | ⟨hactive, hfirst, hsecond⟩
  · have hkept := hleft.clear_inactive
    have hother := hleft.inactive_eq
    rw [setSlot_active, hactive] at hkept hother
    rw [hactive] at hleft
    refine ⟨_, _, ?_, holds_ofSlots_zero ⟨lifetimes.nextObject, content⟩, hleft⟩
    have hone : (1 : Fin 2) - 0 = 1 := rfl
    rw [hone] at hkept hother
    simp only [move, hfirst, Slot.move, Slot.create, hmove, hother, hkept, setSlot_active, hactive]
  · rw [hactive] at hinactive hleft
    refine ⟨_, _, ?_, holds_ofSlots_one ⟨lifetimes.nextObject, content⟩, hleft⟩
    have hkept : storage.setSlot 0 none = storage := hinactive
    simp only [move, hfirst, Slot.move, hkept, hsecond, Slot.create, hmove, hactive]

/-- A move that throws leaves an object in the source. -/
theorem Holds.move_error (h : storage.Holds payload) {payloadType : PayloadType Exn (T ⊕ E)}
    (hmove : (payloadType.move payload.content).1 = .error exception) :
    ∃ left, storage.move payloadType lifetimes = (.error exception, left, lifetimes.abandon) ∧
      left.Holds { payload with content := (payloadType.move payload.content).2 } := by
  have hinactive := h.clear_inactive
  have hleft := h.replace_active { payload with content := (payloadType.move payload.content).2 }
  rcases h.slots_cases with ⟨hactive, hfirst, hsecond⟩ | ⟨hactive, hfirst, hsecond⟩
  · rw [hactive] at hleft
    refine ⟨_, ?_, hleft⟩
    simp only [move, hfirst, Slot.move, Slot.create, hmove]
  · rw [hactive] at hinactive hleft
    refine ⟨_, ?_, hleft⟩
    have hkept : storage.setSlot 0 none = storage := hinactive
    simp only [move, hfirst, Slot.move, hkept, hsecond, Slot.create, hmove, Slot.destroy]

theorem Holds.destroy_eq (h : storage.Holds payload) :
    storage.destroy lifetimes = lifetimes.destroy payload.object := by
  rcases h.slots_cases with ⟨-, hfirst, hsecond⟩ | ⟨-, hfirst, hsecond⟩
  · simp only [destroy, hfirst, hsecond, Slot.destroy]
  · simp only [destroy, hfirst, hsecond, Slot.destroy]

end Lifetimes

theorem Holds.activeSlot_eq (h : storage.Holds payload) : storage.activeSlot = .ok payload := by
  simp only [activeSlot, h.active_eq]

theorem Holds.index_eq (h : storage.Holds payload) :
    storage.index = .ok (match payload.content with | .inl _ => .value | .inr _ => .error) := by
  rw [index, h.activeSlot_eq]
  rfl

theorem Holds.get_eq (h : storage.Holds payload) (getIf : T ⊕ E → Option α) :
    storage.get getIf = match getIf payload.content with
      | some content => .ok content
      | none => .error .otherAlternative := by
  rw [get, h.activeSlot_eq]
  rfl

end ResultStorage

end AdaptivePi.Core
