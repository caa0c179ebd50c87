import AdaptivePi.Core.Result

/-!
Results as values of a sum type. A successful construction or emplacement
stores a payload, and nothing else changes it but a move to another Result. The
history of a program determines what each Result stores.
-/

namespace AdaptivePi.Core.ResultSpec

open Foundation

variable {Exn ResultId T E : Type}

structure State (ResultId T E : Type) where
  sums : View ResultId T E
  terminated : Bool

def initial : State ResultId T E := ⟨fun _ => none, false⟩

/-- What becomes of an error: the exception that its domain converts it to. -/
def thrown (types : ResultTypes Exn T E) (error : E) : Outcome Exn T E :=
  match (types.domain error).converter.bind (· error) with
  | some exception => .threw exception
  | none => .terminated

def answer (types : ResultTypes Exn T E) : Query → T ⊕ E → Outcome Exn T E
  | .hasValue, content => .flag content.isLeft
  | .value, .inl value => .value value
  | .value, .inr _ => .terminated
  | .error, .inl _ => .terminated
  | .error, .inr error => .error error
  | .valueOrThrow, .inl value => .value value
  | .valueOrThrow, .inr error => thrown types error
  | .voidValue, .inl _ => .returned
  | .voidValue, .inr _ => .terminated
  | .voidValueOrThrow, .inl _ => .returned
  | .voidValueOrThrow, .inr error => thrown types error

variable [DecidableEq ResultId]

def State.setSum (state : State ResultId T E) (result : ResultId) (content : Option (T ⊕ E)) :
    State ResultId T E :=
  { state with sums := Function.update state.sums result content }

def store (state : State ResultId T E) (target : ResultId) (content : Except Exn (T ⊕ E)) :
    State ResultId T E × Outcome Exn T E :=
  match content with
  | .ok content => (state.setSum target (some content), .stored content)
  | .error exception => (state, .threw exception)

def apply (types : ResultTypes Exn T E) (state : State ResultId T E) :
    Operation Exn ResultId T E → Option (State ResultId T E × Outcome Exn T E)
  | .create target construction =>
      match state.sums target with
      | some _ => none
      | none => some (store state target (construction.run state.sums))
  | .emplace target construction =>
      match state.sums target with
      | none => none
      | some _ => some (store state target (construction.run state.sums))
  | .copy target source =>
      match state.sums target, state.sums source with
      | none, some content =>
          match types.payloadType.copy content with
          | .ok copied => some (state.setSum target (some copied), .copied)
          | .error exception => some (state, .threw exception)
      | _, _ => none
  | .move target source =>
      match state.sums target, state.sums source with
      | none, some content =>
          let left := state.setSum source (some (types.payloadType.move content).2)
          match (types.payloadType.move content).1 with
          | .ok moved => some (left.setSum target (some moved), .moved)
          | .error exception => some (left, .threw exception)
      | _, _ => none
  | .query target query =>
      match state.sums target with
      | none => none
      | some content =>
          match answer types query content with
          | .terminated => some ({ state with terminated := true }, .terminated)
          | outcome => some (state, outcome)
  | .destroy target =>
      match state.sums target with
      | none => none
      | some _ => some (state.setSum target none, .destroyed)

inductive Step (types : ResultTypes Exn T E) :
    StepRelation (State ResultId T E) (Operation Exn ResultId T E × Outcome Exn T E) where
  | step {state state' : State ResultId T E} {operation : Operation Exn ResultId T E}
      {outcome : Outcome Exn T E} (hrunning : state.terminated = false)
      (happly : apply types state operation = some (state', outcome)) :
      Step types state (some (operation, outcome)) state'

/-- What an operation with its outcome says about what the Results store. -/
def storedAfter (types : ResultTypes Exn T E) (stored : View ResultId T E) :
    Operation Exn ResultId T E × Outcome Exn T E → View ResultId T E
  | (.create target _, .stored content) => Function.update stored target (some content)
  | (.emplace target _, .stored content) => Function.update stored target (some content)
  | (.copy target source, .copied) => Function.update stored target (stored source)
  | (.move target source, .moved) =>
      Function.update (Function.update stored source
        ((stored source).map fun content => (types.payloadType.move content).2))
        target (stored source)
  | (.move _ source, .threw _) =>
      Function.update stored source
        ((stored source).map fun content => (types.payloadType.move content).2)
  | (.destroy target, .destroyed) => Function.update stored target none
  | _ => stored

/-- What each Result stores after a history: the payload of the last successful
construction or emplacement, of the Result itself or of the one that it was
copied or moved from. -/
def stored (types : ResultTypes Exn T E)
    (events : List (Operation Exn ResultId T E × Outcome Exn T E)) : View ResultId T E :=
  events.foldl (storedAfter types) fun _ => none

def chosenAfter (chosen : ResultId → Option Alternative) :
    Operation Exn ResultId T E × Outcome Exn T E → ResultId → Option Alternative
  | (.create target construction, .stored _) =>
      Function.update chosen target (some construction.alternative)
  | (.emplace target construction, .stored _) =>
      Function.update chosen target (some construction.alternative)
  | (.copy target source, .copied) => Function.update chosen target (chosen source)
  | (.move target source, .moved) => Function.update chosen target (chosen source)
  | (.destroy target, .destroyed) => Function.update chosen target none
  | _ => chosen

def chosen (events : List (Operation Exn ResultId T E × Outcome Exn T E)) :
    ResultId → Option Alternative :=
  events.foldl chosenAfter fun _ => none

def alternative : T ⊕ E → Alternative
  | .inl _ => .value
  | .inr _ => .error

omit [DecidableEq ResultId] in
private theorem run_alternative {construction : Construction Exn ResultId T E}
    {view : View ResultId T E} {content : T ⊕ E} (h : construction.run view = .ok content) :
    alternative content = construction.alternative := by
  cases construction with
  | value arguments =>
      cases hvalue : arguments view with
      | ok value =>
          simp only [Construction.run, hvalue, Except.map, Except.ok.injEq] at h
          rw [← h]
          rfl
      | error exception => simp [Construction.run, hvalue, Except.map] at h
  | error arguments =>
      cases herror : arguments view with
      | ok error =>
          simp only [Construction.run, herror, Except.map, Except.ok.injEq] at h
          rw [← h]
          rfl
      | error exception => simp [Construction.run, herror, Except.map] at h

omit [DecidableEq ResultId] in
private theorem move_alternative (types : ResultTypes Exn T E) (content : T ⊕ E) :
    alternative (types.payloadType.move content).2 = alternative content := by
  cases content with
  | inl value => rfl
  | inr error => rfl

private theorem copy_eq {types : ResultTypes Exn T E} {content copied : T ⊕ E}
    (h : types.payloadType.copy content = .ok copied) : copied = content :=
  types.payloadType.copy_eq content copied h

private theorem move_eq {types : ResultTypes Exn T E} {content moved : T ⊕ E}
    (h : (types.payloadType.move content).1 = .ok moved) : moved = content :=
  types.payloadType.move_eq content moved h

section

variable {types : ResultTypes Exn T E} {state state' : State ResultId T E}
  {operation : Operation Exn ResultId T E} {outcome : Outcome Exn T E}
  {events : List (Operation Exn ResultId T E × Outcome Exn T E)}

/-- A failed store leaves all sums as they were. -/
private theorem store_sums {target : ResultId} {content : Except Exn (T ⊕ E)}
    (h : store state target content = (state', outcome)) :
    (∃ stored, content = .ok stored ∧ outcome = .stored stored ∧
      state'.sums = Function.update state.sums target (some stored)) ∨
    (∃ exception, outcome = .threw exception ∧ state'.sums = state.sums) := by
  cases content with
  | ok content =>
      cases h
      exact Or.inl ⟨content, rfl, rfl, rfl⟩
  | error exception =>
      cases h
      exact Or.inr ⟨exception, rfl, rfl⟩

/-- One operation stores what its outcome says. -/
theorem apply_stored (h : apply types state operation = some (state', outcome)) :
    state'.sums = storedAfter types state.sums (operation, outcome) := by
  cases operation with
  | create target construction =>
      simp only [apply] at h
      cases htarget : state.sums target with
      | some content => simp [htarget] at h
      | none =>
          simp only [htarget, Option.some.injEq] at h
          rcases store_sums h with ⟨content, -, rfl, hsums⟩ | ⟨exception, rfl, hsums⟩
          · exact hsums
          · exact hsums
  | emplace target construction =>
      simp only [apply] at h
      cases htarget : state.sums target with
      | none => simp [htarget] at h
      | some old =>
          simp only [htarget, Option.some.injEq] at h
          rcases store_sums h with ⟨content, -, rfl, hsums⟩ | ⟨exception, rfl, hsums⟩
          · exact hsums
          · exact hsums
  | copy target source =>
      simp only [apply] at h
      cases htarget : state.sums target with
      | some content => simp [htarget] at h
      | none =>
          cases hsource : state.sums source with
          | none => simp [htarget, hsource] at h
          | some content =>
              simp only [htarget, hsource] at h
              cases hcopy : types.payloadType.copy content with
              | ok copied =>
                  simp only [hcopy, Option.some.injEq, Prod.mk.injEq] at h
                  obtain ⟨rfl, rfl⟩ := h
                  simp only [storedAfter, State.setSum, hsource, copy_eq hcopy]
              | error exception =>
                  simp only [hcopy, Option.some.injEq, Prod.mk.injEq] at h
                  obtain ⟨rfl, rfl⟩ := h
                  rfl
  | move target source =>
      simp only [apply] at h
      cases htarget : state.sums target with
      | some content => simp [htarget] at h
      | none =>
          cases hsource : state.sums source with
          | none => simp [htarget, hsource] at h
          | some content =>
              simp only [htarget, hsource] at h
              cases hmove : (types.payloadType.move content).1 with
              | ok moved =>
                  simp only [hmove, Option.some.injEq, Prod.mk.injEq] at h
                  obtain ⟨rfl, rfl⟩ := h
                  simp only [storedAfter, State.setSum, hsource, Option.map_some, move_eq hmove]
              | error exception =>
                  simp only [hmove, Option.some.injEq, Prod.mk.injEq] at h
                  obtain ⟨rfl, rfl⟩ := h
                  simp only [storedAfter, State.setSum, hsource, Option.map_some]
  | query target query =>
      simp only [apply] at h
      cases htarget : state.sums target with
      | none => simp [htarget] at h
      | some content =>
          simp only [htarget] at h
          cases hanswer : answer types query content <;> simp only [hanswer] at h <;> cases h <;> rfl
  | destroy target =>
      simp only [apply] at h
      cases htarget : state.sums target with
      | none => simp [htarget] at h
      | some content =>
          simp only [htarget, Option.some.injEq, Prod.mk.injEq] at h
          obtain ⟨rfl, rfl⟩ := h
          rfl

/-- After every history the Results store what the history says. -/
theorem sums_eq_stored (hrun : Execution (Step types) initial events state) :
    state.sums = stored types events := by
  refine hrun.invariant (I := fun events state => state.sums = stored types events) rfl ?_
  rintro events state event state' h ⟨hrunning, happly⟩
  rw [Option.toList_some, stored, List.foldl_append, apply_stored happly, h]
  rfl

/-- What is stored has the alternative that was chosen. -/
private theorem apply_alternative {target : ResultId}
    {construction : Construction Exn ResultId T E} {content : T ⊕ E}
    (hoperation : operation = .create target construction ∨ operation = .emplace target construction)
    (h : apply types state operation = some (state', .stored content)) :
    alternative content = construction.alternative := by
  have hstore : store state target (construction.run state.sums) = (state', .stored content) := by
    rcases hoperation with rfl | rfl
    · simp only [apply] at h
      cases htarget : state.sums target with
      | some old => simp [htarget] at h
      | none => simpa [htarget] using h
    · simp only [apply] at h
      cases htarget : state.sums target with
      | some old => simpa [htarget] using h
      | none => simp [htarget] at h
  rcases store_sums hstore with ⟨stored, hstored, houtcome, -⟩ | ⟨exception, houtcome, -⟩
  · cases houtcome
    exact run_alternative hstored
  · cases houtcome

/-- The alternatives follow from the chosen ones in the same way. -/
theorem apply_chosen (h : apply types state operation = some (state', outcome)) :
    Option.map alternative ∘ state'.sums =
      chosenAfter (Option.map alternative ∘ state.sums) (operation, outcome) := by
  rw [apply_stored h]
  have hleft : ∀ source, Option.map alternative ∘ Function.update state.sums source
      ((state.sums source).map fun content => (types.payloadType.move content).2) =
        Option.map alternative ∘ state.sums := by
    intro source
    rw [Function.comp_update, Option.map_map]
    apply Function.update_eq_self_iff.mpr
    cases hsource : state.sums source with
    | none => simp [hsource]
    | some content => simp [hsource, move_alternative]
  cases operation with
  | create target construction =>
      cases outcome with
      | stored content =>
          simp only [storedAfter, chosenAfter, Function.comp_update, Option.map_some]
          rw [apply_alternative (Or.inl rfl) h]
      | _ => rfl
  | emplace target construction =>
      cases outcome with
      | stored content =>
          simp only [storedAfter, chosenAfter, Function.comp_update, Option.map_some]
          rw [apply_alternative (Or.inr rfl) h]
      | _ => rfl
  | copy target source =>
      cases outcome with
      | copied => simp only [storedAfter, chosenAfter, Function.comp_update, Function.comp_apply]
      | _ => rfl
  | move target source =>
      cases outcome with
      | moved =>
          simp only [storedAfter, chosenAfter, Function.comp_update, Function.comp_apply]
          rw [← Function.comp_update, hleft]
      | threw exception => exact hleft source
      | _ => rfl
  | query target query => rfl
  | destroy target =>
      cases outcome with
      | destroyed => simp only [storedAfter, chosenAfter, Function.comp_update, Option.map_none]
      | _ => rfl

/-- The history alone says which alternative is held. -/
theorem alternative_eq_chosen (hrun : Execution (Step types) initial events state) :
    Option.map alternative ∘ state.sums = chosen events := by
  refine hrun.invariant (I := fun events state =>
    Option.map alternative ∘ state.sums = chosen events) rfl ?_
  rintro events state event state' h ⟨hrunning, happly⟩
  rw [Option.toList_some, chosen, List.foldl_append, apply_chosen happly, h]
  rfl

end

end AdaptivePi.Core.ResultSpec
