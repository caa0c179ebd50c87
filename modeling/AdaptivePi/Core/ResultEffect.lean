import AdaptivePi.Core.ResultSpec

/-!
What one operation does to the payload objects, without slots: which Result
has which object afterwards, and which objects have been constructed and
destroyed on the way. In every state that a program can reach, each Result
holds its payload in the active slot, and the other slot is empty.
-/

namespace AdaptivePi.Core

open Foundation

variable {Exn ResultId T E : Type}

def contents (payloads : ResultId → Option (Payload T E)) : View ResultId T E :=
  fun result => (payloads result).map Payload.content

theorem Results.view_eq_contents (results : Results ResultId T E) :
    results.view = contents results.payload := rfl

section

variable [DecidableEq ResultId]

/-- An operation with its outcome, on the payload objects of the Results and on
the lifetimes of all objects. -/
inductive Effect (types : ResultTypes Exn T E) (payloads : ResultId → Option (Payload T E))
    (lifetimes : Lifetimes) : Operation Exn ResultId T E → Outcome Exn T E →
      (ResultId → Option (Payload T E)) → Lifetimes → Prop where
  | created {target : ResultId} {construction : Construction Exn ResultId T E} {content : T ⊕ E}
      (hfree : payloads target = none)
      (hcontent : construction.run (contents payloads) = .ok content) :
      Effect types payloads lifetimes (.create target construction) (.stored content)
        (Function.update payloads target (some ⟨lifetimes.nextObject, content⟩)) lifetimes.create
  | createThrew {target : ResultId} {construction : Construction Exn ResultId T E}
      {exception : Exn} (hfree : payloads target = none)
      (hcontent : construction.run (contents payloads) = .error exception) :
      Effect types payloads lifetimes (.create target construction) (.threw exception) payloads
        lifetimes.abandon
  | emplaced {target : ResultId} {construction : Construction Exn ResultId T E} {content : T ⊕ E}
      {old : Payload T E} (hold : payloads target = some old)
      (hcontent : construction.run (contents payloads) = .ok content) :
      Effect types payloads lifetimes (.emplace target construction) (.stored content)
        (Function.update payloads target (some ⟨lifetimes.nextObject, content⟩))
        ((lifetimes.create.activate lifetimes.nextObject).destroy old.object)
  | emplaceThrew {target : ResultId} {construction : Construction Exn ResultId T E}
      {exception : Exn} {old : Payload T E} (hold : payloads target = some old)
      (hcontent : construction.run (contents payloads) = .error exception) :
      Effect types payloads lifetimes (.emplace target construction) (.threw exception) payloads
        lifetimes.abandon
  | copied {target source : ResultId} {payload : Payload T E} {content : T ⊕ E}
      (hfree : payloads target = none) (hsource : payloads source = some payload)
      (hcopy : types.payloadType.copy payload.content = .ok content) :
      Effect types payloads lifetimes (.copy target source) .copied
        (Function.update payloads target (some ⟨lifetimes.nextObject, content⟩)) lifetimes.create
  | copyThrew {target source : ResultId} {payload : Payload T E} {exception : Exn}
      (hfree : payloads target = none) (hsource : payloads source = some payload)
      (hcopy : types.payloadType.copy payload.content = .error exception) :
      Effect types payloads lifetimes (.copy target source) (.threw exception) payloads
        lifetimes.abandon
  | moved {target source : ResultId} {payload : Payload T E} {content : T ⊕ E}
      (hfree : payloads target = none) (hsource : payloads source = some payload)
      (hmove : (types.payloadType.move payload.content).1 = .ok content) :
      Effect types payloads lifetimes (.move target source) .moved
        (Function.update (Function.update payloads source
          (some { payload with content := (types.payloadType.move payload.content).2 }))
          target (some ⟨lifetimes.nextObject, content⟩)) lifetimes.create
  | moveThrew {target source : ResultId} {payload : Payload T E} {exception : Exn}
      (hfree : payloads target = none) (hsource : payloads source = some payload)
      (hmove : (types.payloadType.move payload.content).1 = .error exception) :
      Effect types payloads lifetimes (.move target source) (.threw exception)
        (Function.update payloads source
          (some { payload with content := (types.payloadType.move payload.content).2 }))
        lifetimes.abandon
  | answered {target : ResultId} {query : Query} {payload : Payload T E}
      (htarget : payloads target = some payload) :
      Effect types payloads lifetimes (.query target query)
        (ResultSpec.answer types query payload.content) payloads lifetimes
  | destroyed {target : ResultId} {payload : Payload T E}
      (htarget : payloads target = some payload) :
      Effect types payloads lifetimes (.destroy target) .destroyed
        (Function.update payloads target none) (lifetimes.destroy payload.object)

end

/-- An error is converted to the exception that is thrown, or ends the process. -/
theorem throwAsException_cases (types : ResultTypes Exn T E) (error : E) :
    (∃ exception, (types.domain error).throwAsException error = .ok exception ∧
      ResultSpec.thrown types error = .threw exception) ∨
    ((types.domain error).throwAsException error = .error .notConverted ∧
      ResultSpec.thrown types error = .terminated) := by
  unfold ErrorDomain.throwAsException ResultSpec.thrown
  cases hconverter : (types.domain error).converter with
  | none => exact Or.inr ⟨rfl, rfl⟩
  | some convert =>
      cases hconvert : convert error with
      | none => exact Or.inr ⟨by simp [hconvert], by simp [hconvert]⟩
      | some exception => exact Or.inl ⟨exception, by simp [hconvert], by simp [hconvert]⟩

/-- A query ends with the answer for the payload. It terminates the process only
if that is the answer, and never because a slot is empty. -/
theorem ResultStorage.Holds.answer_cases {storage : ResultStorage T E} {payload : Payload T E}
    (h : storage.Holds payload) (types : ResultTypes Exn T E) (query : Query) :
    (Results.answer types storage query = .ok (ResultSpec.answer types query payload.content) ∧
      ResultSpec.answer types query payload.content ≠ .terminated) ∨
    (∃ reason, Results.answer types storage query = .error reason ∧ reason ≠ .emptySlot ∧
      ResultSpec.answer types query payload.content = .terminated) := by
  have hhas := h.hasValue_eq
  have hvalue := h.value_eq
  have herror := h.error_eq
  have hvoid := h.voidValue_eq
  have hthrow := h.valueOrThrow_eq types
  have hvoidThrow := h.voidValueOrThrow_eq types
  cases hcontent : payload.content with
  | inl value =>
      rw [hcontent] at hhas hvalue herror hvoid hthrow hvoidThrow
      cases query with
      | hasValue => exact Or.inl ⟨by rw [Results.answer, hhas]; rfl, by simp [ResultSpec.answer]⟩
      | value => exact Or.inl ⟨by rw [Results.answer, hvalue]; rfl, by simp [ResultSpec.answer]⟩
      | error => exact Or.inr ⟨_, by rw [Results.answer, herror]; rfl, by simp, rfl⟩
      | valueOrThrow =>
          exact Or.inl ⟨by rw [Results.answer, hthrow]; rfl, by simp [ResultSpec.answer]⟩
      | voidValue => exact Or.inl ⟨by rw [Results.answer, hvoid]; rfl, by simp [ResultSpec.answer]⟩
      | voidValueOrThrow =>
          exact Or.inl ⟨by rw [Results.answer, hvoidThrow]; rfl, by simp [ResultSpec.answer]⟩
  | inr error =>
      rw [hcontent] at hhas hvalue herror hvoid hthrow hvoidThrow
      dsimp only at hthrow hvoidThrow
      have hconvert := throwAsException_cases types error
      cases query with
      | hasValue => exact Or.inl ⟨by rw [Results.answer, hhas]; rfl, by simp [ResultSpec.answer]⟩
      | value => exact Or.inr ⟨_, by rw [Results.answer, hvalue]; rfl, by simp, rfl⟩
      | error => exact Or.inl ⟨by rw [Results.answer, herror]; rfl, by simp [ResultSpec.answer]⟩
      | valueOrThrow =>
          rcases hconvert with ⟨exception, hexception, hthrown⟩ | ⟨hreason, hthrown⟩
          · refine Or.inl ⟨?_, by simp [ResultSpec.answer, hthrown]⟩
            rw [Results.answer, hthrow]
            simp [hexception, Except.map, ResultSpec.answer, hthrown]
          · refine Or.inr ⟨_, by rw [Results.answer, hthrow, hreason]; rfl, by simp, hthrown⟩
      | voidValue => exact Or.inr ⟨_, by rw [Results.answer, hvoid]; rfl, by simp, rfl⟩
      | voidValueOrThrow =>
          rcases hconvert with ⟨exception, hexception, hthrown⟩ | ⟨hreason, hthrown⟩
          · refine Or.inl ⟨?_, by simp [ResultSpec.answer, hthrown]⟩
            rw [Results.answer, hvoidThrow]
            simp [hexception, Except.map, ResultSpec.answer, hthrown]
          · refine Or.inr ⟨_, by rw [Results.answer, hvoidThrow, hreason]; rfl, by simp, hthrown⟩

namespace Results

/-- Every Result that is alive holds a payload in its active slot only. -/
def WellFormed (results : Results ResultId T E) : Prop :=
  ∀ result storage, results.storages result = some storage → ∃ payload, storage.Holds payload

theorem wellFormed_initial : (initial : Results ResultId T E).WellFormed := by
  intro result storage h
  cases h

variable {results : Results ResultId T E}

theorem payload_of_storage {result : ResultId} {storage : ResultStorage T E}
    {payload : Payload T E} (hstorage : results.storages result = some storage)
    (hholds : storage.Holds payload) : results.payload result = some payload := by
  simp only [Results.payload, hstorage, Option.bind_some, hholds.active_eq]

theorem payload_of_none {result : ResultId} (hstorage : results.storages result = none) :
    results.payload result = none := by
  simp only [Results.payload, hstorage, Option.bind_none]

variable [DecidableEq ResultId]

/-- Storing a Result changes what is read of this one only. -/
theorem payload_setStorage (result : ResultId) (storage : Option (ResultStorage T E))
    (lifetimes : Lifetimes) :
    (results.setStorage result storage lifetimes).payload =
      Function.update results.payload result
        (storage.bind fun storage => storage.slots storage.active) := by
  funext other
  unfold Results.payload setStorage
  dsimp only
  by_cases hother : other = result
  · subst hother
    rw [Function.update_self, Function.update_self]
  · rw [Function.update_of_ne hother, Function.update_of_ne hother]

theorem payload_setStorage_some {result : ResultId} {storage : ResultStorage T E}
    {payload : Payload T E} (hholds : storage.Holds payload) (lifetimes : Lifetimes) :
    (results.setStorage result (some storage) lifetimes).payload =
      Function.update results.payload result (some payload) := by
  rw [payload_setStorage, Option.bind_some, hholds.active_eq]

/-- Storing what is there already changes the lifetimes only. -/
theorem setStorage_self {result : ResultId} {storage : Option (ResultStorage T E)}
    (hstorage : results.storages result = storage) (lifetimes : Lifetimes) :
    results.setStorage result storage lifetimes = { results with lifetimes := lifetimes } := by
  unfold setStorage
  rw [Function.update_eq_self_iff.mpr hstorage.symm]

theorem WellFormed.setStorage (h : results.WellFormed) (result : ResultId)
    {storage : Option (ResultStorage T E)} (lifetimes : Lifetimes)
    (hstorage : ∀ storage', storage = some storage' → ∃ payload, storage'.Holds payload) :
    (results.setStorage result storage lifetimes).WellFormed := by
  intro other storage' hother
  simp only [Results.setStorage] at hother
  by_cases hsame : other = result
  · subst hsame
    rw [Function.update_self] at hother
    exact hstorage storage' hother
  · rw [Function.update_of_ne hsame] at hother
    exact h other storage' hother

theorem WellFormed.setStorage_some (h : results.WellFormed) (result : ResultId)
    {storage : ResultStorage T E} {payload : Payload T E} (lifetimes : Lifetimes)
    (hholds : storage.Holds payload) :
    (results.setStorage result (some storage) lifetimes).WellFormed := by
  refine h.setStorage result lifetimes fun storage' hstorage => ?_
  cases hstorage
  exact ⟨payload, hholds⟩

section

variable {types : ResultTypes Exn T E} {results' : Results ResultId T E} {outcome : Outcome Exn T E}
  {target source : ResultId} {construction : Construction Exn ResultId T E}

/-- A constructor that throws leaves no Result. -/
private theorem WellFormed.create (h : results.WellFormed)
    (happly : results.apply types (.create target construction) = some (results', outcome)) :
    Effect types results.payload results.lifetimes (.create target construction) outcome
      results'.payload results'.lifetimes ∧ results'.WellFormed := by
  simp only [apply] at happly
  cases htarget : results.storages target with
  | some storage => simp [htarget] at happly
  | none =>
      have hfree := payload_of_none htarget
      cases hcontent : construction.run results.view with
      | ok content =>
          simp only [htarget, hcontent, ResultStorage.construct, Slot.create, storing,
            Option.some.injEq, Prod.mk.injEq] at happly
          obtain ⟨rfl, rfl⟩ := happly
          have hholds := ResultStorage.holds_ofSlots_zero
            (⟨results.lifetimes.nextObject, content⟩ : Payload T E)
          rw [payload_setStorage_some hholds]
          exact ⟨.created hfree hcontent, h.setStorage_some _ _ hholds⟩
      | error exception =>
          simp only [htarget, hcontent, ResultStorage.construct, Slot.create, storing,
            Option.some.injEq, Prod.mk.injEq] at happly
          obtain ⟨rfl, rfl⟩ := happly
          rw [setStorage_self htarget]
          exact ⟨.createThrew hfree hcontent, h⟩

/-- The two ways in which an emplacement ends. -/
private theorem WellFormed.emplace_cases (h : results.WellFormed)
    (happly : results.apply types (.emplace target construction) = some (results', outcome)) :
    ∃ old, results.payload target = some old ∧
      ((∃ content storage, construction.run results.view = .ok content ∧
        outcome = .stored content ∧ storage.Holds ⟨results.lifetimes.nextObject, content⟩ ∧
        results' = results.setStorage target (some storage)
          ((results.lifetimes.create.activate results.lifetimes.nextObject).destroy old.object)) ∨
      ∃ exception, construction.run results.view = .error exception ∧
        outcome = .threw exception ∧
        results' = { results with lifetimes := results.lifetimes.abandon }) := by
  simp only [apply] at happly
  cases htarget : results.storages target with
  | none => simp [htarget] at happly
  | some storage =>
      obtain ⟨old, hold⟩ := h target storage htarget
      refine ⟨old, payload_of_storage htarget hold, ?_⟩
      have hview : (results.setStorage target (some storage) results.lifetimes).view =
          results.view := by
        rw [setStorage_self htarget]
      obtain ⟨arguments, harguments⟩ : ∃ arguments : ResultStorage T E → Except Exn (T ⊕ E),
          arguments = fun storage => construction.run
            (results.setStorage target (some storage) results.lifetimes).view := ⟨_, rfl⟩
      simp only [htarget, ← harguments] at happly
      cases hcontent : construction.run results.view with
      | ok content =>
          have hrun : arguments storage = .ok content := by
            simp only [harguments, hview, hcontent]
          obtain ⟨storage', hemplace, hholds⟩ := hold.emplace_ok results.lifetimes hrun
          simp only [hemplace, storing, Option.some.injEq, Prod.mk.injEq] at happly
          obtain ⟨rfl, rfl⟩ := happly
          exact Or.inl ⟨content, storage', rfl, rfl, hholds, rfl⟩
      | error exception =>
          have hrun : arguments storage = .error exception := by
            simp only [harguments, hview, hcontent]
          simp only [hold.emplace_error _ hrun, storing, Option.some.injEq, Prod.mk.injEq] at happly
          obtain ⟨rfl, rfl⟩ := happly
          exact Or.inr ⟨exception, rfl, rfl, setStorage_self htarget _⟩

/-- The payload is replaced when the new one is complete, and not before. -/
private theorem WellFormed.emplace (h : results.WellFormed)
    (happly : results.apply types (.emplace target construction) = some (results', outcome)) :
    Effect types results.payload results.lifetimes (.emplace target construction) outcome
      results'.payload results'.lifetimes ∧ results'.WellFormed := by
  obtain ⟨old, hold, ⟨content, storage, hcontent, rfl, hholds, rfl⟩ |
    ⟨exception, hcontent, rfl, rfl⟩⟩ := h.emplace_cases happly
  · rw [payload_setStorage_some hholds]
    exact ⟨.emplaced hold hcontent, h.setStorage_some _ _ hholds⟩
  · exact ⟨.emplaceThrew hold hcontent, h⟩

/-- An emplacement that throws does not touch any slot. -/
theorem WellFormed.emplace_threw (h : results.WellFormed) {exception : Exn}
    (happly : results.apply types (.emplace target construction) =
      some (results', .threw exception)) : results'.storages = results.storages := by
  obtain ⟨old, -, ⟨content, storage, -, houtcome, -⟩ | ⟨exception, -, -, rfl⟩⟩ :=
    h.emplace_cases happly
  · cases houtcome
  · rfl

/-- A copy has the payload of its source, in an object of its own. -/
private theorem WellFormed.copy (h : results.WellFormed)
    (happly : results.apply types (.copy target source) = some (results', outcome)) :
    Effect types results.payload results.lifetimes (.copy target source) outcome
      results'.payload results'.lifetimes ∧ results'.WellFormed := by
  simp only [apply] at happly
  cases htarget : results.storages target with
  | some storage => simp [htarget] at happly
  | none =>
      have hfree := payload_of_none htarget
      cases hsource : results.storages source with
      | none => simp [htarget, hsource] at happly
      | some storage =>
          obtain ⟨payload, hholds⟩ := h source storage hsource
          have hpayload := payload_of_storage hsource hholds
          simp only [htarget, hsource] at happly
          cases hcopy : types.payloadType.copy payload.content with
          | ok content =>
              obtain ⟨copied, hcopied, hholds'⟩ :=
                hholds.copy_ok results.lifetimes hcopy
              simp only [hcopied, Option.some.injEq, Prod.mk.injEq] at happly
              obtain ⟨rfl, rfl⟩ := happly
              rw [payload_setStorage_some hholds']
              exact ⟨.copied hfree hpayload hcopy, h.setStorage_some _ _ hholds'⟩
          | error exception =>
              simp only [hholds.copy_error _ hcopy, Option.some.injEq, Prod.mk.injEq] at happly
              obtain ⟨rfl, rfl⟩ := happly
              exact ⟨.copyThrew hfree hpayload hcopy, h⟩

/-- A move leaves an object in its source. -/
private theorem WellFormed.move (h : results.WellFormed)
    (happly : results.apply types (.move target source) = some (results', outcome)) :
    Effect types results.payload results.lifetimes (.move target source) outcome
      results'.payload results'.lifetimes ∧ results'.WellFormed := by
  simp only [apply] at happly
  cases htarget : results.storages target with
  | some storage => simp [htarget] at happly
  | none =>
      have hfree := payload_of_none htarget
      cases hsource : results.storages source with
      | none => simp [htarget, hsource] at happly
      | some storage =>
          obtain ⟨payload, hholds⟩ := h source storage hsource
          have hpayload := payload_of_storage hsource hholds
          simp only [htarget, hsource] at happly
          cases hmove : (types.payloadType.move payload.content).1 with
          | ok content =>
              obtain ⟨moved, left, hmoved, hholds', hleft⟩ :=
                hholds.move_ok results.lifetimes hmove
              simp only [hmoved, Option.some.injEq, Prod.mk.injEq] at happly
              obtain ⟨rfl, rfl⟩ := happly
              rw [payload_setStorage_some hholds', payload_setStorage_some hleft]
              exact ⟨.moved hfree hpayload hmove,
                (h.setStorage_some _ _ hleft).setStorage_some _ _ hholds'⟩
          | error exception =>
              obtain ⟨left, hmoved, hleft⟩ :=
                hholds.move_error results.lifetimes hmove
              simp only [hmoved, Option.some.injEq, Prod.mk.injEq] at happly
              obtain ⟨rfl, rfl⟩ := happly
              rw [payload_setStorage_some hleft]
              exact ⟨.moveThrew hfree hpayload hmove, h.setStorage_some _ _ hleft⟩

private theorem WellFormed.query (h : results.WellFormed) {query : Query}
    (happly : results.apply types (.query target query) = some (results', outcome)) :
    Effect types results.payload results.lifetimes (.query target query) outcome
      results'.payload results'.lifetimes ∧ results'.WellFormed := by
  simp only [apply] at happly
  cases htarget : results.storages target with
  | none => simp [htarget] at happly
  | some storage =>
      obtain ⟨payload, hholds⟩ := h target storage htarget
      have hpayload := payload_of_storage htarget hholds
      have hanswered : Effect types results.payload results.lifetimes (.query target query)
          (ResultSpec.answer types query payload.content) results.payload results.lifetimes :=
        .answered hpayload
      simp only [htarget] at happly
      rcases hholds.answer_cases types query with ⟨hanswer, -⟩ | ⟨reason, hanswer, -, hterminated⟩
      · simp only [hanswer, Option.some.injEq, Prod.mk.injEq] at happly
        obtain ⟨rfl, rfl⟩ := happly
        exact ⟨hanswered, h⟩
      · simp only [hanswer, Option.some.injEq, Prod.mk.injEq] at happly
        obtain ⟨rfl, rfl⟩ := happly
        rw [hterminated] at hanswered
        exact ⟨hanswered, h⟩

private theorem WellFormed.destroy (h : results.WellFormed)
    (happly : results.apply types (.destroy target) = some (results', outcome)) :
    Effect types results.payload results.lifetimes (.destroy target) outcome
      results'.payload results'.lifetimes ∧ results'.WellFormed := by
  simp only [apply] at happly
  cases htarget : results.storages target with
  | none => simp [htarget] at happly
  | some storage =>
      obtain ⟨payload, hholds⟩ := h target storage htarget
      simp only [htarget, Option.some.injEq, Prod.mk.injEq] at happly
      obtain ⟨rfl, rfl⟩ := happly
      refine ⟨?_, h.setStorage _ _ fun storage' hstorage => by cases hstorage⟩
      rw [payload_setStorage, Option.bind_none]
      simp only [hholds.destroy_eq]
      exact .destroyed (payload_of_storage htarget hholds)

end

/-- What every operation does, and that it leaves the Results well formed. -/
theorem WellFormed.effect (h : results.WellFormed) {types : ResultTypes Exn T E}
    {operation : Operation Exn ResultId T E} {outcome : Outcome Exn T E}
    {results' : Results ResultId T E}
    (happly : results.apply types operation = some (results', outcome)) :
    Effect types results.payload results.lifetimes operation outcome results'.payload
      results'.lifetimes ∧ results'.WellFormed := by
  cases operation with
  | create target construction => exact h.create happly
  | emplace target construction => exact h.emplace happly
  | copy target source => exact h.copy happly
  | move target source => exact h.move happly
  | query target query => exact h.query happly
  | destroy target => exact h.destroy happly

end Results

end AdaptivePi.Core
