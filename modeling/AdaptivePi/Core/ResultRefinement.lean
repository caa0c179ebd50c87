import AdaptivePi.Core.ResultEffect

namespace AdaptivePi.Core

open Foundation

variable {Exn ResultId T E : Type}

def Results.sums (results : Results ResultId T E) : ResultSpec.State ResultId T E :=
  ⟨results.view, results.terminated⟩

def Outcome.isTerminated : Outcome Exn T E → Bool
  | .terminated => true
  | _ => false

variable [DecidableEq ResultId] {types : ResultTypes Exn T E} {results results' : Results ResultId T E}
  {operation : Operation Exn ResultId T E} {outcome : Outcome Exn T E}

private theorem contents_update (payloads : ResultId → Option (Payload T E)) (result : ResultId)
    (payload : Option (Payload T E)) :
    contents (Function.update payloads result payload) =
      Function.update (contents payloads) result (payload.map Payload.content) := by
  funext other
  unfold contents
  by_cases hother : other = result
  · subst hother
    rw [Function.update_self, Function.update_self]
  · rw [Function.update_of_ne hother, Function.update_of_ne hother]

/-- What an operation does to the payload objects, it does to the sums. -/
theorem Effect.sums {payloads payloads' : ResultId → Option (Payload T E)}
    {lifetimes lifetimes' : Lifetimes} (terminated : Bool)
    (h : Effect types payloads lifetimes operation outcome payloads' lifetimes') :
    ResultSpec.apply types ⟨contents payloads, terminated⟩ operation =
      some (⟨contents payloads', terminated || outcome.isTerminated⟩, outcome) := by
  have hread : ∀ {result : ResultId} {payload : Option (Payload T E)},
      payloads result = payload → contents payloads result = payload.map Payload.content := by
    intro result payload hpayload
    rw [contents, hpayload]
  cases h with
  | created hfree hcontent =>
      simp [ResultSpec.apply, hread hfree, hcontent, ResultSpec.store, ResultSpec.State.setSum,
        contents_update, Outcome.isTerminated]
  | createThrew hfree hcontent =>
      simp [ResultSpec.apply, hread hfree, hcontent, ResultSpec.store, Outcome.isTerminated]
  | emplaced hold hcontent =>
      simp [ResultSpec.apply, hread hold, hcontent, ResultSpec.store, ResultSpec.State.setSum,
        contents_update, Outcome.isTerminated]
  | emplaceThrew hold hcontent =>
      simp [ResultSpec.apply, hread hold, hcontent, ResultSpec.store, Outcome.isTerminated]
  | copied hfree hsource hcopy =>
      simp [ResultSpec.apply, hread hfree, hread hsource, hcopy, ResultSpec.State.setSum,
        contents_update, Outcome.isTerminated]
  | copyThrew hfree hsource hcopy =>
      simp [ResultSpec.apply, hread hfree, hread hsource, hcopy, Outcome.isTerminated]
  | moved hfree hsource hmove =>
      simp [ResultSpec.apply, hread hfree, hread hsource, hmove, ResultSpec.State.setSum,
        contents_update, Outcome.isTerminated]
  | moveThrew hfree hsource hmove =>
      simp [ResultSpec.apply, hread hfree, hread hsource, hmove, ResultSpec.State.setSum,
        contents_update, Outcome.isTerminated]
  | @answered target query payload htarget =>
      simp only [ResultSpec.apply, hread htarget, Option.map_some]
      cases ResultSpec.answer types query payload.content <;> simp [Outcome.isTerminated]
  | destroyed htarget =>
      simp [ResultSpec.apply, hread htarget, ResultSpec.State.setSum, contents_update,
        Outcome.isTerminated]

namespace Results

omit [DecidableEq ResultId] in
private theorem storing_isTerminated (content : Except Exn (T ⊕ E)) :
    (storing content).isTerminated = false := by
  cases content with
  | ok content => rfl
  | error exception => rfl

/-- Only a query terminates the process. -/
private theorem apply_terminated (h : results.WellFormed)
    (happly : results.apply types operation = some (results', outcome)) :
    results'.terminated = (results.terminated || outcome.isTerminated) := by
  cases operation with
  | create target construction =>
      simp only [apply] at happly
      split at happly
      · cases happly
      · simp only [Option.some.injEq, Prod.mk.injEq] at happly
        obtain ⟨rfl, rfl⟩ := happly
        simp [setStorage, storing_isTerminated]
  | emplace target construction =>
      simp only [apply] at happly
      split at happly
      · cases happly
      · simp only [Option.some.injEq, Prod.mk.injEq] at happly
        obtain ⟨rfl, rfl⟩ := happly
        simp [setStorage, storing_isTerminated]
  | copy target source =>
      simp only [apply] at happly
      split at happly
      · split at happly
        · cases happly
          simp [setStorage, Outcome.isTerminated]
        · cases happly
          simp [Outcome.isTerminated]
      · cases happly
  | move target source =>
      simp only [apply] at happly
      split at happly
      · split at happly
        · cases happly
          simp [setStorage, Outcome.isTerminated]
        · cases happly
          simp [setStorage, Outcome.isTerminated]
      · cases happly
  | query target query =>
      simp only [apply] at happly
      cases htarget : results.storages target with
      | none => simp [htarget] at happly
      | some storage =>
          obtain ⟨payload, hholds⟩ := h target storage htarget
          simp only [htarget] at happly
          rcases hholds.answer_cases types query with ⟨hanswer, hrunning⟩ | ⟨reason, hanswer, -⟩
          · simp only [hanswer, Option.some.injEq, Prod.mk.injEq] at happly
            obtain ⟨rfl, rfl⟩ := happly
            cases houtcome : ResultSpec.answer types query payload.content with
            | terminated => exact absurd houtcome hrunning
            | _ => simp [Outcome.isTerminated]
          · simp only [hanswer, Option.some.injEq, Prod.mk.injEq] at happly
            obtain ⟨rfl, rfl⟩ := happly
            simp [Outcome.isTerminated]
  | destroy target =>
      simp only [apply] at happly
      split at happly
      · cases happly
      · cases happly
        simp [setStorage, Outcome.isTerminated]

/-- An operation that does not occur in programs does not occur on sums. -/
private theorem apply_none (h : results.WellFormed) (happly : results.apply types operation = none) :
    ResultSpec.apply types results.sums operation = none := by
  have hnone : ∀ {result}, results.storages result = none → results.sums.sums result = none := by
    intro result hresult
    simp [sums, view, payload_of_none hresult]
  have hsome : ∀ {result storage}, results.storages result = some storage →
      ∃ content, results.sums.sums result = some content := by
    intro result storage hresult
    obtain ⟨payload, hholds⟩ := h result storage hresult
    exact ⟨payload.content, by simp [sums, view, payload_of_storage hresult hholds]⟩
  cases operation with
  | create target construction =>
      cases htarget : results.storages target with
      | none => simp [apply, htarget] at happly
      | some storage =>
          obtain ⟨content, hcontent⟩ := hsome htarget
          simp [ResultSpec.apply, hcontent]
  | emplace target construction =>
      cases htarget : results.storages target with
      | none => simp [ResultSpec.apply, hnone htarget]
      | some storage => simp [apply, htarget] at happly
  | copy target source =>
      cases htarget : results.storages target with
      | some storage =>
          obtain ⟨content, hcontent⟩ := hsome htarget
          simp [ResultSpec.apply, hcontent]
      | none =>
          cases hsource : results.storages source with
          | none => simp [ResultSpec.apply, hnone htarget, hnone hsource]
          | some storage =>
              simp only [apply, htarget, hsource] at happly
              split at happly <;> cases happly
  | move target source =>
      cases htarget : results.storages target with
      | some storage =>
          obtain ⟨content, hcontent⟩ := hsome htarget
          simp [ResultSpec.apply, hcontent]
      | none =>
          cases hsource : results.storages source with
          | none => simp [ResultSpec.apply, hnone htarget, hnone hsource]
          | some storage =>
              simp only [apply, htarget, hsource] at happly
              split at happly <;> cases happly
  | query target query =>
      cases htarget : results.storages target with
      | none => simp [ResultSpec.apply, hnone htarget]
      | some storage =>
          simp only [apply, htarget] at happly
          split at happly <;> cases happly
  | destroy target =>
      cases htarget : results.storages target with
      | none => simp [ResultSpec.apply, hnone htarget]
      | some storage => simp [apply, htarget] at happly

/-- Every operation does the same to the slots and to the sums. -/
theorem WellFormed.apply_sums (h : results.WellFormed) (types : ResultTypes Exn T E)
    (operation : Operation Exn ResultId T E) :
    ResultSpec.apply types results.sums operation =
      (results.apply types operation).map fun next => (next.1.sums, next.2) := by
  cases happly : results.apply types operation with
  | none => rw [apply_none h happly, Option.map_none]
  | some next =>
      obtain ⟨results', outcome⟩ := next
      obtain ⟨heffect, -⟩ := h.effect happly
      rw [Option.map_some, sums, view_eq_contents, heffect.sums, sums, view_eq_contents,
        apply_terminated h happly]

/-- Every Result in a run holds a payload in its active slot only. -/
theorem wellFormed {events : List (Operation Exn ResultId T E × Outcome Exn T E)}
    (hrun : Execution (Step types) initial events results) : results.WellFormed := by
  refine hrun.invariant (I := fun _ results => results.WellFormed) wellFormed_initial ?_
  rintro events results event results' h ⟨hrunning, happly⟩
  exact (h.effect happly).2

/-- Every execution on slots is one on sums. -/
theorem refines {events : List (Operation Exn ResultId T E × Outcome Exn T E)}
    (hrun : Execution (Step types) initial events results) :
    Execution (ResultSpec.Step types) ResultSpec.initial events results.sums := by
  have hmatch : ∀ (results : Results ResultId T E) event results' state,
      (results.WellFormed ∧ state = results.sums) → Step types results event results' →
      ∃ state', Execution (ResultSpec.Step types) state event.toList state' ∧
        results'.WellFormed ∧ state' = results'.sums := by
    rintro results event results' state ⟨hwellFormed, rfl⟩ ⟨hrunning, happly⟩
    refine ⟨results'.sums, Execution.single (ResultSpec.Step.step hrunning ?_),
      (hwellFormed.effect happly).2, rfl⟩
    rw [hwellFormed.apply_sums, happly, Option.map_some]
  obtain ⟨state, hstate, -, rfl⟩ := Execution.simulate
    (R := fun results state => results.WellFormed ∧ state = results.sums)
    ⟨wellFormed_initial, rfl⟩ hmatch hrun
  exact hstate

/-- Any history of operations on Results does the same as on values of a sum
type, and an operation occurs on the one exactly if it occurs on the other. In
every state that a history leads to, exactly the active slot of a Result is
engaged; it holds what the last successful construction or emplacement has
stored, in the alternative that was chosen there; the queries answer
accordingly, and never find an empty slot. An emplacement that throws leaves
all slots as they are. -/
theorem result_refines_sum {events : List (Operation Exn ResultId T E × Outcome Exn T E)}
    (hrun : Execution (Step types) initial events results) :
    Execution (ResultSpec.Step types) ResultSpec.initial events results.sums ∧
    (∀ operation, ResultSpec.apply types results.sums operation =
      (results.apply types operation).map fun next => (next.1.sums, next.2)) ∧
    (∀ result storage, results.storages result = some storage →
      (∀ slot, (storage.slots slot).isSome = true ↔ slot = storage.active) ∧
      ∃ content, ResultSpec.stored types events result = some content ∧
        ResultSpec.chosen events result = some (ResultSpec.alternative content) ∧
        Result.hasValue storage =
          .ok (decide (ResultSpec.chosen events result = some .value)) ∧
        (Result.value storage = match content with
          | .inl value => .ok value
          | .inr _ => .error .otherAlternative) ∧
        (Result.error storage = match content with
          | .inl _ => .error .errorOfValue
          | .inr error => .ok error) ∧
        (Result.valueOrThrow types storage = match content with
          | .inl value => .ok (.ok value)
          | .inr error => ((types.domain error).throwAsException error).map .error) ∧
        (VoidResult.value storage = match content with
          | .inl _ => .ok ()
          | .inr _ => .error .valueOfError) ∧
        ∀ query, answer types storage query ≠ .error .emptySlot) ∧
    ∀ target construction exception next,
      results.apply types (.emplace target construction) = some (next, .threw exception) →
        next.storages = results.storages := by
  have hwellFormed := wellFormed hrun
  have hspec := refines hrun
  refine ⟨hspec, hwellFormed.apply_sums types, ?_, ?_⟩
  · intro result storage hstorage
    obtain ⟨payload, hholds⟩ := hwellFormed result storage hstorage
    have hsum : results.sums.sums result = some payload.content := by
      simp [sums, view, payload_of_storage hstorage hholds]
    have hchosen : ResultSpec.chosen events result =
        some (ResultSpec.alternative payload.content) := by
      rw [← ResultSpec.alternative_eq_chosen hspec, Function.comp_apply, hsum, Option.map_some]
    refine ⟨hholds.isSome_iff, payload.content, ?_, hchosen, ?_, hholds.value_eq, hholds.error_eq,
      hholds.valueOrThrow_eq types, hholds.voidValue_eq, ?_⟩
    · rw [← ResultSpec.sums_eq_stored hspec, hsum]
    · rw [hholds.hasValue_eq, hchosen]
      cases payload.content with
      | inl value => rfl
      | inr error => rfl
    · intro query hanswer
      rcases hholds.answer_cases types query with ⟨hok, -⟩ | ⟨reason, herror, hreason, -⟩
      · cases hok.symm.trans hanswer
      · cases herror.symm.trans hanswer
        exact hreason rfl
  · intro target construction exception next happly
    exact hwellFormed.emplace_threw happly

/-- Emplacements that read the old payload, one that throws, and a move. -/
theorem result_refines_sum_emplacements :
    ∃ final : Results Nat Nat Bool,
      Execution (Step (⟨.trivial, .trivial, fun _ => ⟨none⟩⟩ : ResultTypes Unit Nat Bool)) initial
        [(.fromValue 0 fun _ => .ok 5, .stored (.inl 5)),
          (.emplaceError 0 fun view => .ok (decide (view 0 = some (.inl 5))), .stored (.inr true)),
          (.emplaceValue 0 fun _ => .error (), .threw ()),
          (.move 1 0, .moved)] final ∧
      ∃ storage, final.storages 1 = some storage ∧ Result.hasValue storage = .ok false ∧
        Result.error storage = .ok true := by
  have hrun : ∃ final : Results Nat Nat Bool,
      Execution (Step (⟨.trivial, .trivial, fun _ => ⟨none⟩⟩ : ResultTypes Unit Nat Bool)) initial
        [(.fromValue 0 fun _ => .ok 5, .stored (.inl 5)),
          (.emplaceError 0 fun view => .ok (decide (view 0 = some (.inl 5))), .stored (.inr true)),
          (.emplaceValue 0 fun _ => .error (), .threw ()),
          (.move 1 0, .moved)] final ∧ (final.storages 1).isSome = true := by
    exact ⟨_, (((Execution.refl.step (Step.step rfl rfl)).step (Step.step rfl rfl)).step
      (Step.step rfl rfl)).step (Step.step rfl rfl), rfl⟩
  obtain ⟨final, hfinal, hsome⟩ := hrun
  obtain ⟨storage, hstorage⟩ := Option.isSome_iff_exists.mp hsome
  obtain ⟨-, -, hresults, -⟩ := result_refines_sum hfinal
  obtain ⟨-, content, hstored, hchosen, hvalue, -, herror, -⟩ := hresults 1 storage hstorage
  cases hstored
  exact ⟨final, hfinal, storage, hstorage, hvalue, herror⟩

end Results

end AdaptivePi.Core
