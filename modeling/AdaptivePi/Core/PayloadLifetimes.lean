import AdaptivePi.Core.ResultEffect

namespace AdaptivePi.Core

open Foundation

variable {Exn ResultId T E : Type}

def ownedObject (payloads : ResultId → Option (Payload T E)) (result : ResultId) :
    Option ObjectId :=
  (payloads result).map Payload.object

section

variable [DecidableEq ResultId] {types : ResultTypes Exn T E}
  {payloads payloads' : ResultId → Option (Payload T E)} {lifetimes lifetimes' : Lifetimes}
  {operation : Operation Exn ResultId T E} {outcome : Outcome Exn T E}

private theorem ownedObject_update (payloads : ResultId → Option (Payload T E)) (result : ResultId)
    (payload : Option (Payload T E)) :
    ownedObject (Function.update payloads result payload) =
      Function.update (ownedObject payloads) result (payload.map Payload.object) :=
  Function.comp_update (Option.map Payload.object) payloads result payload

/-- The source of a move keeps its object. -/
private theorem ownedObject_left {source : ResultId} {payload : Payload T E}
    (hsource : payloads source = some payload) (left : T ⊕ E) :
    ownedObject (Function.update payloads source (some { payload with content := left })) =
      ownedObject payloads := by
  rw [ownedObject_update]
  apply Function.update_eq_self_iff.mpr
  rw [ownedObject, hsource]
  rfl

/-- Every operation keeps the accounts of the objects. -/
theorem Effect.accounts (h : Effect types payloads lifetimes operation outcome payloads' lifetimes')
    (haccounts : lifetimes.Accounts (ownedObject payloads)) :
    lifetimes'.Accounts (ownedObject payloads') := by
  have hread : ∀ {result : ResultId} {payload : Option (Payload T E)},
      payloads result = payload → ownedObject payloads result = payload.map Payload.object := by
    intro result payload hpayload
    rw [ownedObject, hpayload]
  cases h with
  | created hfree _ =>
      rw [ownedObject_update]
      exact haccounts.create (hread hfree)
  | createThrew => exact haccounts.abandon
  | emplaced hold _ =>
      rw [ownedObject_update]
      exact haccounts.replace (hread hold)
  | emplaceThrew => exact haccounts.abandon
  | copied hfree _ _ =>
      rw [ownedObject_update]
      exact haccounts.create (hread hfree)
  | copyThrew => exact haccounts.abandon
  | moved hfree hsource _ =>
      rw [ownedObject_update, ownedObject_left hsource]
      exact haccounts.create (hread hfree)
  | moveThrew hfree hsource _ =>
      rw [ownedObject_left hsource]
      exact haccounts.abandon
  | answered => exact haccounts
  | destroyed htarget =>
      rw [ownedObject_update]
      exact haccounts.destroy (hread htarget)

/-- An operation that throws does not destroy any object. -/
theorem Effect.destructions_of_threw {exception : Exn}
    (h : Effect types payloads lifetimes operation (.threw exception) payloads' lifetimes')
    (object : ObjectId) : lifetimes'.destructions object = lifetimes.destructions object := by
  obtain ⟨outcome, houtcome⟩ : ∃ outcome, outcome = Outcome.threw exception := ⟨_, rfl⟩
  rw [← houtcome] at h
  cases h with
  | created => cases houtcome
  | createThrew => exact Lifetimes.destructions_abandon lifetimes object
  | emplaced => cases houtcome
  | emplaceThrew => exact Lifetimes.destructions_abandon lifetimes object
  | copied => cases houtcome
  | copyThrew => exact Lifetimes.destructions_abandon lifetimes object
  | moved => cases houtcome
  | moveThrew => exact Lifetimes.destructions_abandon lifetimes object
  | answered => rfl
  | destroyed => cases houtcome

/-- The log of an emplacement, and the object that it replaces. -/
theorem Effect.emplace_log {target : ResultId} {construction : Construction Exn ResultId T E}
    (h : Effect types payloads lifetimes (.emplace target construction) outcome payloads' lifetimes') :
    ∃ old, payloads target = some old ∧
      ((∃ content, outcome = .stored content ∧
        lifetimes'.log = lifetimes.log ++ [.constructing lifetimes.nextObject,
          .constructed lifetimes.nextObject, .activated lifetimes.nextObject,
          .destroyed old.object]) ∨
      ∃ exception, outcome = .threw exception ∧
        lifetimes'.log = lifetimes.log ++ [.constructing lifetimes.nextObject]) := by
  cases h with
  | @emplaced _ _ content old hold _ =>
      refine ⟨old, hold, Or.inl ⟨content, rfl, ?_⟩⟩
      simp [Lifetimes.create, Lifetimes.activate, Lifetimes.destroy]
  | @emplaceThrew _ _ exception old hold _ => exact ⟨old, hold, Or.inr ⟨exception, rfl, rfl⟩⟩

end

namespace Results

variable [DecidableEq ResultId] {types : ResultTypes Exn T E} {results : Results ResultId T E}
  {events : List (Operation Exn ResultId T E × Outcome Exn T E)}

/-- After every history the Results are well formed, and the accounts of their
objects are kept. -/
theorem accounts (hrun : Execution (Step types) initial events results) :
    results.WellFormed ∧ results.lifetimes.Accounts (ownedObject results.payload) := by
  refine hrun.invariant (I := fun _ results => results.WellFormed ∧
    results.lifetimes.Accounts (ownedObject results.payload))
    ⟨wellFormed_initial, Lifetimes.Accounts.empty⟩ ?_
  rintro events results event results' ⟨hwellFormed, haccounts⟩ ⟨hrunning, happly⟩
  obtain ⟨heffect, hwellFormed'⟩ := hwellFormed.effect happly
  exact ⟨hwellFormed', heffect.accounts haccounts⟩

/-- In every state that a history leads to, each Result that is alive owns
exactly one object: it is alive, in the active slot, and not in any other
Result; and every object that is alive is owned. An emplacement constructs the
new object, makes it active and then destroys the old one, which is alive until
then; if the constructor throws, no object is destroyed, as with every other
operation that throws. Once no Result is left, every object that was ever
constructed has been destroyed exactly once. -/
theorem payload_lifetimes (hrun : Execution (Step types) initial events results) :
    (∀ result storage, results.storages result = some storage → ∃ payload,
      (∀ slot held, storage.slots slot = some held ↔ slot = storage.active ∧ held = payload) ∧
      results.lifetimes.Alive payload.object ∧
      ∀ other storage' slot held, results.storages other = some storage' →
        storage'.slots slot = some held → held.object = payload.object → other = result) ∧
    (∀ object, results.lifetimes.Alive object → ∃ result storage payload,
      results.storages result = some storage ∧
        storage.slots storage.active = some payload ∧ payload.object = object) ∧
    (∀ target construction outcome next,
      results.apply types (.emplace target construction) = some (next, outcome) →
      ∃ old, results.payload target = some old ∧ results.lifetimes.Alive old.object ∧
        ((∃ content, outcome = .stored content ∧
          next.lifetimes.log = results.lifetimes.log ++
            [.constructing results.lifetimes.nextObject, .constructed results.lifetimes.nextObject,
              .activated results.lifetimes.nextObject, .destroyed old.object]) ∨
        ∃ exception, outcome = .threw exception ∧
          next.lifetimes.log =
            results.lifetimes.log ++ [.constructing results.lifetimes.nextObject])) ∧
    (∀ operation exception next, results.apply types operation = some (next, .threw exception) →
      ∀ object, next.lifetimes.destructions object = results.lifetimes.destructions object) ∧
    (∀ object, results.lifetimes.destructions object ≤ results.lifetimes.constructions object ∧
      results.lifetimes.constructions object ≤ 1) ∧
    ((∀ result, results.storages result = none) → ∀ object,
      .constructed object ∈ results.lifetimes.log → results.lifetimes.destructions object = 1) := by
  obtain ⟨hwellFormed, haccounts⟩ := accounts hrun
  have howned : ∀ {result storage payload}, results.storages result = some storage →
      storage.Holds payload → ownedObject results.payload result = some payload.object := by
    intro result storage payload hstorage hholds
    rw [ownedObject, payload_of_storage hstorage hholds, Option.map_some]
  refine ⟨?_, ?_, ?_, ?_, ?_, ?_⟩
  · intro result storage hstorage
    obtain ⟨payload, hholds⟩ := hwellFormed result storage hstorage
    refine ⟨payload, hholds.slots_eq_some_iff,
      (haccounts.alive_iff _).mpr ⟨result, howned hstorage hholds⟩, ?_⟩
    intro other storage' slot held hother hheld hsame
    obtain ⟨payload', hholds'⟩ := hwellFormed other storage' hother
    obtain ⟨-, rfl⟩ := (hholds'.slots_eq_some_iff slot held).mp hheld
    have hobject := howned hother hholds'
    rw [hsame] at hobject
    exact haccounts.distinct other result payload.object hobject (howned hstorage hholds)
  · intro object halive
    obtain ⟨result, hresult⟩ := (haccounts.alive_iff object).mp halive
    obtain ⟨payload, hpayload, hobject⟩ := Option.map_eq_some_iff.mp hresult
    obtain ⟨storage, hstorage, hactive⟩ := Option.bind_eq_some_iff.mp hpayload
    exact ⟨result, storage, payload, hstorage, hactive, hobject⟩
  · intro target construction outcome next happly
    obtain ⟨old, hold, hlog⟩ := (hwellFormed.effect happly).1.emplace_log
    refine ⟨old, hold, (haccounts.alive_iff _).mpr ⟨target, ?_⟩, hlog⟩
    rw [ownedObject, hold, Option.map_some]
  · intro operation exception next happly
    exact (hwellFormed.effect happly).1.destructions_of_threw
  · intro object
    exact ⟨haccounts.balanced.destructions_le object, haccounts.balanced.constructions_le object⟩
  · intro hnone object hconstructed
    refine haccounts.balanced.destructions_of_not_owned ?_ hconstructed
    rintro ⟨result, hresult⟩
    rw [ownedObject, payload_of_none (hnone result)] at hresult
    cases hresult

/-- A Result that is emplaced, moved from and destroyed. -/
theorem payload_lifetimes_moved :
    ∃ final : Results Bool Nat Bool,
      Execution (Step (⟨.trivial, .trivial, fun _ => ⟨none⟩⟩ : ResultTypes Unit Nat Bool)) initial
        [(.fromValue false fun _ => .ok 5, .stored (.inl 5)),
          (.emplaceError false fun _ => .ok true, .stored (.inr true)),
          (.emplaceValue false fun _ => .error (), .threw ()), (.move true false, .moved),
          (.destroy false, .destroyed), (.destroy true, .destroyed)] final ∧
      ∀ object, .constructed object ∈ final.lifetimes.log →
        final.lifetimes.destructions object = 1 := by
  have hrun : ∃ final : Results Bool Nat Bool,
      Execution (Step (⟨.trivial, .trivial, fun _ => ⟨none⟩⟩ : ResultTypes Unit Nat Bool)) initial
        [(.fromValue false fun _ => .ok 5, .stored (.inl 5)),
          (.emplaceError false fun _ => .ok true, .stored (.inr true)),
          (.emplaceValue false fun _ => .error (), .threw ()), (.move true false, .moved),
          (.destroy false, .destroyed), (.destroy true, .destroyed)] final ∧
      ∀ result, final.storages result = none := by
    refine ⟨_, (((((Execution.refl.step (Step.step rfl rfl)).step (Step.step rfl rfl)).step
      (Step.step rfl rfl)).step (Step.step rfl rfl)).step (Step.step rfl rfl)).step
      (Step.step rfl rfl), fun result => ?_⟩
    cases result <;> rfl
  obtain ⟨final, hfinal, hnone⟩ := hrun
  obtain ⟨-, -, -, -, -, hdestroyed⟩ := payload_lifetimes hfinal
  exact ⟨final, hfinal, hdestroyed hnone⟩

end Results

end AdaptivePi.Core
