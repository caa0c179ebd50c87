import Mathlib.Tactic.Common

/-!
Rules for computations that may raise an exception. A computation satisfies a
condition for its value and a condition for its exceptions at once, so one proof
says what is known after it, and what has to be caught.
-/

namespace AdaptivePi.Foundation

section

variable {ε α β : Type} {raised : ε → Prop}

/-- The value satisfies `post`, or the exception satisfies `raised`. -/
def Satisfies (raised : ε → Prop) (action : Except ε α) (post : α → Prop) : Prop :=
  match action with
  | .ok value => post value
  | .error error => raised error

/-- `or`, whose second operand is evaluated only if the first is false. -/
def either (first second : Except ε Bool) : Except ε Bool := do
  let value ← first
  if value then pure true else second

/-- `if ...: raise` -/
def raiseIf (condition : Except ε Bool) (error : ε) : Except ε Unit := do
  let value ← condition
  if value then throw error else pure ()

/-- A condition that is false only if something holds. -/
def Refutes (raised : ε → Prop) (condition : Except ε Bool) (P : Prop) : Prop :=
  Satisfies raised condition fun value => value = false → P

namespace Satisfies

variable {action : Except ε α} {next : α → Except ε β} {post post' : α → Prop} {post₂ : β → Prop}

theorem pure {value : α} (h : post value) : Satisfies raised (pure value : Except ε α) post := h

theorem bind (h : Satisfies raised action post)
    (hnext : ∀ value, post value → Satisfies raised (next value) post₂) :
    Satisfies raised (action >>= next) post₂ := by
  cases action with
  | ok value => exact hnext value h
  | error error => exact h

theorem mono (h : Satisfies raised action post) (hpost : ∀ value, post value → post' value) :
    Satisfies raised action post' := by
  cases action with
  | ok value => exact hpost value h
  | error error => exact h

/-- What is known of the value of a computation. -/
theorem of_forall (h : ∀ value, action = .ok value → post value) :
    Satisfies (fun _ => True) action post := by
  cases action with
  | ok value => exact h value rfl
  | error error => trivial

theorem of_eq {value : α} (h : Satisfies raised action post) (heq : action = .ok value) :
    post value := by
  subst heq
  exact h

theorem raiseIf {condition : Except ε Bool} {error : ε} {P : Prop}
    (h : Refutes raised condition P) (herror : raised error) :
    Satisfies raised (raiseIf condition error) fun _ => P := by
  apply Satisfies.bind h
  intro value hvalue
  cases value with
  | false => exact hvalue rfl
  | true => exact herror

theorem forM {action : α → Except ε Unit} {P : α → Prop} {items : List α}
    (h : ∀ item ∈ items, Satisfies raised (action item) fun _ => P item) :
    Satisfies raised (items.forM action) fun _ => ∀ item ∈ items, P item := by
  induction items with
  | nil => exact fun item hitem => absurd hitem List.not_mem_nil
  | cons item items ih =>
      apply Satisfies.bind (h item List.mem_cons_self)
      intro _ hitem
      apply (ih fun other hother => h other (List.mem_cons_of_mem _ hother)).mono
      exact fun _ hitems => List.forall_mem_cons.mpr ⟨hitem, hitems⟩

theorem mapM {action : α → Except ε β} {R : α → β → Prop} {items : List α}
    (h : ∀ item ∈ items, Satisfies raised (action item) (R item)) :
    Satisfies raised (items.mapM action) fun results => List.Forall₂ R items results := by
  induction items with
  | nil => exact List.Forall₂.nil
  | cons item items ih =>
      rw [List.mapM_cons]
      apply Satisfies.bind (h item List.mem_cons_self)
      intro result hresult
      apply Satisfies.bind (ih fun other hother => h other (List.mem_cons_of_mem _ hother))
      exact fun results hresults => List.Forall₂.cons hresult hresults

end Satisfies

namespace Refutes

variable {first second : Except ε Bool} {P Q : Prop}

theorem pure {value : Bool} (h : value = false → P) :
    Refutes raised (pure value : Except ε Bool) P := h

theorem bind {action : Except ε α} {next : α → Except ε Bool} {post : α → Prop}
    (h : Satisfies raised action post) (hnext : ∀ value, post value → Refutes raised (next value) P) :
    Refutes raised (action >>= next) P := Satisfies.bind h hnext

/-- The second operand may rely on what the first one has refuted. -/
theorem either (hfirst : Refutes raised first P) (hsecond : P → Refutes raised second Q) :
    Refutes raised (either first second) (P ∧ Q) := by
  apply Satisfies.bind hfirst
  intro value hvalue
  cases value with
  | false => exact Satisfies.mono (hsecond (hvalue rfl)) fun _ h hfalse => ⟨hvalue rfl, h hfalse⟩
  | true => exact fun htrue => absurd htrue (by decide)

end Refutes

end

end AdaptivePi.Foundation
