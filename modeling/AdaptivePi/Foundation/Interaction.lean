import Mathlib.Tactic.Common

/-!
Programs that ask their environment questions. A program is a value or a
question with a continuation for each answer; nothing else about the
environment is known. A complete execution is given by an environment, that
is, an arbitrary function from the events so far to the next answer. `After`
follows a program through a finite list of events, answered by anyone, and is
what an interleaving of several programs is made of.
-/

namespace AdaptivePi.Foundation

universe u v w

/-- Every question `e : E` has its own type of answers. -/
inductive Program (E : Type u) (Reply : E → Type v) (α : Type w) : Type (max u v w) where
  | done (value : α) : Program E Reply α
  | ask (question : E) (next : Reply question → Program E Reply α) : Program E Reply α

/-- An environment answers from the events so far. -/
abbrev Environment {E : Type u} (Reply : E → Type v) :=
  List (Sigma Reply) → (question : E) → Reply question

namespace Program

variable {E : Type u} {Reply : E → Type v} {α β γ : Type w}

def bind : Program E Reply α → (α → Program E Reply β) → Program E Reply β
  | .done value, f => f value
  | .ask question next, f => .ask question fun answer => (next answer).bind f

instance : Monad (Program E Reply) where
  pure := .done
  bind := bind

def perform (question : E) : Program E Reply (Reply question) :=
  .ask question .done

@[simp] theorem done_bind (value : α) (f : α → Program E Reply β) :
    (done value : Program E Reply α).bind f = f value := rfl

@[simp] theorem ask_bind (question : E) (next : Reply question → Program E Reply α)
    (f : α → Program E Reply β) :
    (ask question next).bind f = .ask question fun answer => (next answer).bind f := rfl

@[simp] theorem bind_done (p : Program E Reply α) : p.bind .done = p := by
  induction p with
  | done value => rfl
  | ask question next ih => simp [ih]

theorem bind_assoc (p : Program E Reply α) (f : α → Program E Reply β)
    (g : β → Program E Reply γ) :
    (p.bind f).bind g = p.bind fun value => (f value).bind g := by
  induction p with
  | done value => rfl
  | ask question next ih => simp [ih]

/-- The value and the new events of a complete execution. -/
def run (env : Environment Reply) : List (Sigma Reply) → Program E Reply α →
    α × List (Sigma Reply)
  | _, .done value => (value, [])
  | history, .ask question next =>
      let answer := env history question
      let result := run env (history ++ [⟨question, answer⟩]) (next answer)
      (result.1, ⟨question, answer⟩ :: result.2)

/-- The events of a complete execution that starts with no history. -/
def trace (env : Environment Reply) (p : Program E Reply α) : List (Sigma Reply) :=
  (run env [] p).2

@[simp] theorem run_done (env : Environment Reply) (history : List (Sigma Reply))
    (value : α) : run env history (done value : Program E Reply α) = (value, []) := rfl

/-- A program continues with the history of its first part. -/
theorem run_bind (env : Environment Reply) (history : List (Sigma Reply))
    (p : Program E Reply α) (f : α → Program E Reply β) :
    run env history (p.bind f) =
      let first := run env history p
      let second := run env (history ++ first.2) (f first.1)
      (second.1, first.2 ++ second.2) := by
  induction p generalizing history with
  | done value => simp
  | ask question next ih =>
      simp only [ask_bind, run]
      rw [ih]
      simp [List.append_assoc]

/-- `p.After events q`: once the questions of `p` were answered as in `events`,
`q` is left to be executed. -/
def After : Program E Reply α → List (Sigma Reply) → Program E Reply α → Prop
  | p, [], q => p = q
  | p, event :: events, q =>
      ∃ next, p = .ask event.1 next ∧ After (next event.2) events q

theorem after_append {p q : Program E Reply α} {left right : List (Sigma Reply)} :
    p.After (left ++ right) q ↔ ∃ middle, p.After left middle ∧ middle.After right q := by
  induction left generalizing p with
  | nil => simp [After]
  | cons event left ih =>
      simp only [List.cons_append, After]
      constructor
      · rintro ⟨next, rfl, h⟩
        obtain ⟨middle, hleft, hright⟩ := ih.mp h
        exact ⟨middle, ⟨next, rfl, hleft⟩, hright⟩
      · rintro ⟨middle, ⟨next, rfl, hleft⟩, hright⟩
        exact ⟨next, rfl, ih.mpr ⟨middle, hleft, hright⟩⟩

theorem after_snoc {p : Program E Reply α} {events : List (Sigma Reply)} {question : E}
    {next : Reply question → Program E Reply α} (h : p.After events (.ask question next))
    (answer : Reply question) :
    p.After (events ++ [⟨question, answer⟩]) (next answer) :=
  after_append.mpr ⟨_, h, next, rfl, rfl⟩

/-- An environment that gives the answers of a list of events. -/
def Answers (env : Environment Reply) (events : List (Sigma Reply)) : Prop :=
  ∀ before event after, events = before ++ event :: after →
    env before event.1 = event.2

/-- Executed alone in an environment with the same answers, a program
produces the same events. -/
theorem run_of_after {env : Environment Reply} {p q : Program E Reply α}
    {events : List (Sigma Reply)} (h : p.After events q) (henv : Answers env events) :
    run env [] p = ((run env events q).1, events ++ (run env events q).2) := by
  suffices hgen : ∀ history remaining, events = history ++ remaining →
      ∀ p : Program E Reply α, p.After remaining q →
        run env history p =
          ((run env events q).1, remaining ++ (run env events q).2) by
    exact hgen [] events rfl p h
  intro history remaining hsplit p hp
  induction remaining generalizing history p with
  | nil =>
      have hpq : p = q := hp
      subst hpq
      simp only [List.append_nil] at hsplit
      simp [hsplit]
  | cons event remaining ih =>
      obtain ⟨next, rfl, hnext⟩ := hp
      have hanswer := henv history event remaining hsplit
      have hrest := ih (history ++ [event]) (by simp [hsplit]) (next event.2) hnext
      simp only [run, hanswer]
      rw [hrest]
      simp

/-- All questions that a program can ever ask satisfy `P`. -/
def Every (P : E → Prop) : Program E Reply α → Prop
  | .done _ => True
  | .ask question next => P question ∧ ∀ answer, Every P (next answer)

/-- All values that a program can return satisfy `Q`. -/
def Returns (Q : α → Prop) : Program E Reply α → Prop
  | .done value => Q value
  | .ask _ next => ∀ answer, Returns Q (next answer)

theorem Every.bind {P : E → Prop} {p : Program E Reply α} {f : α → Program E Reply β}
    (hp : p.Every P) (hf : ∀ value, (f value).Every P) : (p.bind f).Every P := by
  induction p with
  | done value => exact hf value
  | ask question next ih => exact ⟨hp.1, fun answer => ih answer (hp.2 answer)⟩

/-- What all questions satisfy, those that are asked satisfy. -/
theorem Every.after {P : E → Prop} {p q : Program E Reply α} {events : List (Sigma Reply)}
    (hp : p.Every P) (h : p.After events q) : ∀ event ∈ events, P event.1 := by
  induction events generalizing p with
  | nil => simp
  | cons event events ih =>
      obtain ⟨next, rfl, hnext⟩ := h
      intro other hmem
      rcases List.mem_cons.mp hmem with rfl | hrest
      · exact hp.1
      · exact ih (hp.2 event.2) hnext other hrest

theorem returns_true (p : Program E Reply α) : p.Returns fun _ => True := by
  induction p with
  | done value => trivial
  | ask question next ih => exact ih

theorem Returns.bind {Q : α → Prop} {R : β → Prop} {p : Program E Reply α}
    {f : α → Program E Reply β} (hp : p.Returns Q) (hf : ∀ value, Q value → (f value).Returns R) :
    (p.bind f).Returns R := by
  induction p with
  | done value => exact hf value hp
  | ask question next ih => exact fun answer => ih answer (hp answer)

end Program

end AdaptivePi.Foundation
