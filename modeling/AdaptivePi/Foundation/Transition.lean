import Mathlib.Tactic.Common

/-!
Transition systems whose steps emit at most one event. An execution is a
sequence of steps with the list of its events; a property of the events and
the state that every step preserves holds after every execution. A forward
simulation matches each step of one system by an execution of another with the
same events. Events that carry the name of a component interleave what the
components do, and are projected to one component.
-/

namespace AdaptivePi.Foundation

variable {σ τ ε ι β γ : Type*}

/-- `step state event state'` -/
abbrev StepRelation (σ ε : Type*) := σ → Option ε → σ → Prop

inductive Execution (step : StepRelation σ ε) (initial : σ) : List ε → σ → Prop where
  | refl : Execution step initial [] initial
  | step {events : List ε} {state state' : σ} {event : Option ε}
      (hrun : Execution step initial events state) (hstep : step state event state') :
      Execution step initial (events ++ event.toList) state'

namespace Execution

variable {step : StepRelation σ ε} {step' : StepRelation τ ε}

/-- What holds at first and is preserved by steps holds at the end. -/
theorem invariant {I : List ε → σ → Prop} {initial final : σ} {events : List ε}
    (hinit : I [] initial)
    (hpreserve : ∀ events state event state', I events state → step state event state' →
      I (events ++ event.toList) state')
    (hrun : Execution step initial events final) : I events final := by
  induction hrun with
  | refl => exact hinit
  | step _ hstep ih => exact hpreserve _ _ _ _ ih hstep

/-- A step without an event. -/
theorem silent {initial state state' : σ} {events : List ε}
    (hrun : Execution step initial events state) (hstep : step state none state') :
    Execution step initial events state' := by
  simpa using hrun.step hstep

theorem trans {initial middle final : σ} {events events' : List ε}
    (hfirst : Execution step initial events middle)
    (hsecond : Execution step middle events' final) :
    Execution step initial (events ++ events') final := by
  induction hsecond with
  | refl => simpa using hfirst
  | step _ hstep ih =>
      rw [← List.append_assoc]
      exact ih.step hstep

theorem single {state state' : σ} {event : Option ε} (hstep : step state event state') :
    Execution step state event.toList state' := by
  simpa using Execution.refl.step hstep

/-- A forward simulation: each step is matched by an execution with the same
events. -/
theorem simulate {R : σ → τ → Prop} {initial final : σ} {events : List ε} {initial' : τ}
    (hinit : R initial initial')
    (hmatch : ∀ state event state' other, R state other → step state event state' →
      ∃ other', Execution step' other event.toList other' ∧ R state' other')
    (hrun : Execution step initial events final) :
    ∃ final', Execution step' initial' events final' ∧ R final final' := by
  induction hrun with
  | refl => exact ⟨initial', .refl, hinit⟩
  | step _ hstep ih =>
      obtain ⟨other, hother, hrel⟩ := ih
      obtain ⟨other', hnext, hrel'⟩ := hmatch _ _ _ _ hrel hstep
      exact ⟨other', hother.trans hnext, hrel'⟩

end Execution

def projection [DecidableEq ι] (component : ι) (events : List (ι × β)) : List β :=
  (events.filter (·.1 = component)).map Prod.snd

section

variable [DecidableEq ι]

@[simp] theorem projection_nil (component : ι) :
    projection component ([] : List (ι × β)) = [] := rfl

theorem projection_append (component : ι) (left right : List (ι × β)) :
    projection component (left ++ right) =
      projection component left ++ projection component right := by
  simp [projection]

@[simp] theorem projection_self (component : ι) (event : β) :
    projection component [(component, event)] = [event] := by
  simp [projection]

theorem projection_other {component other : ι} (h : other ≠ component) (event : β) :
    projection component [(other, event)] = [] := by
  simp [projection, h]

/-- The elements of `whole` can be attributed to components so that those of
each component are its part, in order. -/
def IsInterleaving (whole : List β) (parts : ι → List β) : Prop :=
  ∃ attributed : List (ι × β), attributed.map Prod.snd = whole ∧
    ∀ component, projection component attributed = parts component

/-- What is selected from an interleaving is an interleaving of what is
selected from its parts. -/
theorem isInterleaving_filterMap (events : List (ι × β)) (f : β → Option γ) :
    IsInterleaving ((events.map Prod.snd).filterMap f)
      fun component => (projection component events).filterMap f := by
  refine ⟨events.filterMap fun event => (f event.2).map (event.1, ·), ?_, ?_⟩
  · rw [List.map_filterMap, List.filterMap_map]
    congr 1
    funext event
    simp [Function.comp_def]
  · intro component
    dsimp only
    induction events with
    | nil => rfl
    | cons event rest ih =>
        obtain ⟨owner, content⟩ := event
        have hcons : projection component ((owner, content) :: rest) =
            projection component [(owner, content)] ++ projection component rest :=
          projection_append component [(owner, content)] rest
        rw [hcons, List.filterMap_append, ← ih]
        by_cases howner : owner = component
        · subst howner
          cases hcontent : f content with
          | none => simp [hcontent]
          | some selected =>
              simp [hcontent, projection]
        · rw [projection_other howner]
          cases hcontent : f content with
          | none => simp [hcontent]
          | some selected =>
              simp [hcontent, projection, howner]

end

end AdaptivePi.Foundation
