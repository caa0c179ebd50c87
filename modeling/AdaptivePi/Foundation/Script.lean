import AdaptivePi.Foundation.Interaction

/-!
Scripts are programs whose questions are commands that may raise an exception.
What a command answers and what it does to the state of the world is a relation,
so that it may fail at any time, with any part of its effect. A run is the list
of its exchanges; `wp` says what has to hold before a program so that something
holds after every complete run. `execute` is the one run in which every command
succeeds.
-/

namespace AdaptivePi.Foundation

/-- A question in a state, an answer to it, and the state that is left. -/
abbrev Responses {E : Type} (Reply : E → Type) (σ : Type) :=
  σ → (question : E) → Reply question → σ → Prop

structure Exchange {E : Type} (Reply : E → Type) (σ : Type) where
  before : σ
  question : E
  answer : Reply question
  after : σ

def Exchange.map {E : Type} {Reply : E → Type} {σ τ : Type} (f : σ → τ)
    (exchange : Exchange Reply σ) : Exchange Reply τ :=
  ⟨f exchange.before, exchange.question, exchange.answer, f exchange.after⟩

namespace Program

variable {E : Type} {Reply : E → Type} {σ α β : Type}

/-- What is left of a program after some exchanges. -/
inductive Leads (respond : Responses Reply σ) :
    σ → Program E Reply α → List (Exchange Reply σ) → Program E Reply α → σ → Prop where
  | refl (state : σ) (p : Program E Reply α) : Leads respond state p [] p state
  | ask {state middle state' : σ} {question : E} {answer : Reply question}
      {next : Reply question → Program E Reply α} {rest : List (Exchange Reply σ)}
      {q : Program E Reply α} (hrespond : respond state question answer middle)
      (hrest : Leads respond middle (next answer) rest q state') :
      Leads respond state (.ask question next) (⟨state, question, answer, middle⟩ :: rest) q state'

/-- What has to hold before a program, after some exchanges, so that `post` holds
after every complete run. -/
def wp (respond : Responses Reply σ) (post : List (Exchange Reply σ) → α → σ → Prop) :
    Program E Reply α → List (Exchange Reply σ) → σ → Prop
  | .done value, past, state => post past value state
  | .ask question next, past, state => ∀ answer state', respond state question answer state' →
      wp respond post (next answer) (past ++ [⟨state, question, answer, state'⟩]) state'

/-- The run with given answers, unless one of them is missing. -/
def execute (answer : σ → (question : E) → Option (Reply question × σ)) :
    Program E Reply α → σ → Option (α × σ)
  | .done value, state => some (value, state)
  | .ask question next, state =>
      match answer state question with
      | none => none
      | some (reply, state') => execute answer (next reply) state'

/-- No question is one of `late` before an answer that is `early`. -/
def Precedes (early : (question : E) → Reply question → Prop) (late : E → Prop) :
    Program E Reply α → Prop
  | .done _ => True
  | .ask question next => ¬late question ∧
      ∀ answer, ¬early question answer → Precedes early late (next answer)

variable {respond : Responses Reply σ} {p q : Program E Reply α} {f : α → Program E Reply β}
  {state state' : σ} {past exchanges : List (Exchange Reply σ)}

namespace Leads

theorem done_inv {value value' : α} (h : Leads respond state (.done value) exchanges (.done value') state') :
    value' = value ∧ exchanges = [] ∧ state' = state := by
  cases h
  exact ⟨rfl, rfl, rfl⟩

theorem bind (h : Leads respond state p exchanges q state') :
    Leads respond state (p.bind f) exchanges (q.bind f) state' := by
  induction h with
  | refl => exact .refl _ _
  | ask hrespond _ ih => exact .ask hrespond ih

/-- Every exchange of a run is one that is possible. -/
theorem forall_respond (h : Leads respond state p exchanges q state') :
    ∀ exchange ∈ exchanges,
      respond exchange.before exchange.question exchange.answer exchange.after := by
  induction h with
  | refl => simp
  | ask hrespond _ ih => exact List.forall_mem_cons.mpr ⟨hrespond, ih⟩

/-- A run is one of other responses if all its exchanges are. -/
theorem of_forall {respond' : Responses Reply σ} (h : Leads respond state p exchanges q state')
    (hall : ∀ exchange ∈ exchanges,
      respond' exchange.before exchange.question exchange.answer exchange.after) :
    Leads respond' state p exchanges q state' := by
  induction h with
  | refl => exact .refl _ _
  | ask hrespond _ ih =>
      obtain ⟨hfirst, hrest⟩ := List.forall_mem_cons.mp hall
      exact .ask hfirst (ih hrest)

/-- What holds at first and after every exchange, if it holds before it. -/
theorem invariant {I : σ → Prop} (h : Leads respond state p exchanges q state') (hinit : I state)
    (hall : ∀ exchange ∈ exchanges, I exchange.before → I exchange.after) :
    I state' ∧ ∀ exchange ∈ exchanges, I exchange.after := by
  induction h with
  | refl => exact ⟨hinit, by simp⟩
  | ask _ _ ih =>
      obtain ⟨hfirst, hrest⟩ := List.forall_mem_cons.mp hall
      obtain ⟨hfinal, hafter⟩ := ih (hfirst hinit) hrest
      exact ⟨hfinal, List.forall_mem_cons.mpr ⟨hfirst hinit, hafter⟩⟩

/-- A run is one of what is seen of its states. -/
theorem map {τ : Type} {respond' : Responses Reply τ} (f : σ → τ)
    (h : Leads respond state p exchanges q state')
    (hall : ∀ exchange ∈ exchanges,
      respond' (f exchange.before) exchange.question exchange.answer (f exchange.after)) :
    Leads respond' (f state) p (exchanges.map (Exchange.map f)) q (f state') := by
  induction h with
  | refl => exact .refl _ _
  | ask _ _ ih =>
      obtain ⟨hfirst, hrest⟩ := List.forall_mem_cons.mp hall
      exact .ask hfirst (ih hrest)

/-- A run is what is seen of a run of states that can follow it. -/
theorem lift {τ : Type} {respond' : Responses Reply τ} {f : τ → σ} {I : τ → Prop}
    (h : Leads respond state p exchanges q state')
    (hstep : ∀ start question answer after, I start → respond (f start) question answer after →
      ∃ final, f final = after ∧ I final ∧ respond' start question answer final)
    {start : τ} (hstart : f start = state) (hinit : I start) : ∃ exchanges' final,
      Leads respond' start p exchanges' q final ∧ f final = state' ∧
        exchanges'.map (Exchange.map f) = exchanges := by
  induction h generalizing start with
  | refl state p => exact ⟨[], start, .refl _ _, hstart, rfl⟩
  | ask hrespond _ ih =>
      subst hstart
      obtain ⟨middle, rfl, hmiddle, hrespond'⟩ := hstep _ _ _ _ hinit hrespond
      obtain ⟨exchanges', final, hrest, hfinal, rfl⟩ := ih rfl hmiddle
      exact ⟨_, final, .ask hrespond' hrest, hfinal, rfl⟩

/-- What every exchange preserves is preserved by the run. -/
theorem preserves {R : σ → σ → Prop} (hrefl : ∀ state, R state state)
    (htrans : ∀ state middle state', R state middle → R middle state' → R state state')
    (h : Leads respond state p exchanges q state')
    (hall : ∀ exchange ∈ exchanges, R exchange.before exchange.after) : R state state' := by
  induction h with
  | refl => exact hrefl _
  | ask _ _ ih =>
      obtain ⟨hfirst, hrest⟩ := List.forall_mem_cons.mp hall
      exact htrans _ _ _ hfirst (ih hrest)

theorem trans {middle : σ} {r : Program E Reply α} {rest : List (Exchange Reply σ)}
    (hfirst : Leads respond state p exchanges q middle) (hrest : Leads respond middle q rest r state') :
    Leads respond state p (exchanges ++ rest) r state' := by
  induction hfirst with
  | refl => exact hrest
  | ask hrespond _ ih => exact .ask hrespond (ih hrest)

end Leads

/-- A complete run of two programs is one of each. -/
theorem leads_bind_iff {value : β} :
    Leads respond state (p.bind f) exchanges (.done value) state' ↔
      ∃ middle first rest between, exchanges = first ++ rest ∧
        Leads respond state p first (.done middle) between ∧
        Leads respond between (f middle) rest (.done value) state' := by
  constructor
  · intro h
    induction p generalizing state exchanges with
    | done middle => exact ⟨middle, [], exchanges, state, rfl, .refl _ _, h⟩
    | ask question next ih =>
        cases h with
        | ask hrespond hrest =>
            obtain ⟨middle, first, rest, between, rfl, hfirst, hnext⟩ := ih _ hrest
            exact ⟨middle, _ :: first, rest, between, rfl, .ask hrespond hfirst, hnext⟩
  · rintro ⟨middle, first, rest, between, rfl, hfirst, hnext⟩
    exact (hfirst.bind (f := f)).trans hnext

section Rules

variable {post post' : List (Exchange Reply σ) → α → σ → Prop}

/-- A program after another. -/
theorem wp_bind {post : List (Exchange Reply σ) → β → σ → Prop} :
    wp respond post (p.bind f) past state =
      wp respond (fun past value state => wp respond post (f value) past state) p past state := by
  induction p generalizing past state with
  | done value => rfl
  | ask question next ih =>
      simp only [ask_bind, wp]
      simp only [ih]

theorem wp_mono (hpost : ∀ past value state, post past value state → post' past value state)
    (h : wp respond post p past state) : wp respond post' p past state := by
  induction p generalizing past state with
  | done value => exact hpost _ _ _ h
  | ask question next ih => exact fun answer after hrespond => ih answer (h answer after hrespond)

/-- What `wp` says holds after every complete run. -/
theorem wp_iff : wp respond post p past state ↔ ∀ exchanges value state',
    Leads respond state p exchanges (.done value) state' → post (past ++ exchanges) value state' := by
  induction p generalizing past state with
  | done value =>
      constructor
      · intro h exchanges value' state' hrun
        obtain ⟨rfl, rfl, rfl⟩ := hrun.done_inv
        rwa [List.append_nil]
      · intro h
        have hpost := h [] value state (.refl _ _)
        rwa [List.append_nil] at hpost
  | ask question next ih =>
      constructor
      · intro h exchanges value state' hrun
        cases hrun with
        | ask hrespond hrest =>
            rw [List.append_cons]
            exact (ih _).mp (h _ _ hrespond) _ _ _ hrest
      · intro h answer after hrespond
        refine (ih answer).mpr fun exchanges value state' hrest => ?_
        rw [List.append_assoc]
        exact h _ value state' (.ask hrespond hrest)

end Rules

section Execute

variable {answer : σ → (question : E) → Option (Reply question × σ)}

theorem execute_bind :
    execute answer (p.bind f) state =
      match execute answer p state with
      | none => none
      | some (value, between) => execute answer (f value) between := by
  induction p generalizing state with
  | done value => rfl
  | ask question next ih =>
      rw [ask_bind, execute, execute]
      cases answer state question with
      | none => rfl
      | some step => exact ih step.1

/-- The run is the one all of whose answers are the given ones. -/
theorem execute_eq_some_iff {value : α} :
    execute answer p state = some (value, state') ↔
      ∃ exchanges, Leads (fun state question reply state' =>
        answer state question = some (reply, state')) state p exchanges (.done value) state' := by
  induction p generalizing state with
  | done value' =>
      constructor
      · intro h
        cases h
        exact ⟨[], .refl _ _⟩
      · rintro ⟨exchanges, hrun⟩
        obtain ⟨rfl, -, rfl⟩ := hrun.done_inv
        rfl
  | ask question next ih =>
      rw [execute]
      constructor
      · intro h
        cases hanswer : answer state question with
        | none =>
            rw [hanswer] at h
            cases h
        | some step =>
            rw [hanswer] at h
            obtain ⟨exchanges, hrun⟩ := (ih step.1).mp h
            exact ⟨_, .ask hanswer hrun⟩
      · rintro ⟨exchanges, hrun⟩
        cases hrun with
        | ask hrespond hrest =>
            rw [hrespond]
            exact (ih _).mpr ⟨_, hrest⟩

end Execute

section Order

variable {early : (question : E) → Reply question → Prop} {late : E → Prop}

theorem precedes_of_every (h : p.Every fun question => ¬late question) : p.Precedes early late := by
  induction p with
  | done value => trivial
  | ask question next ih => exact ⟨h.1, fun answer _ => ih answer (h.2 answer)⟩

theorem Precedes.bind_of_every (hp : p.Every fun question => ¬late question)
    (hf : ∀ value, (f value).Precedes early late) : (p.bind f).Precedes early late := by
  induction p with
  | done value => exact hf value
  | ask question next ih => exact ⟨hp.1, fun answer _ => ih answer (hp.2 answer)⟩

/-- A late question in a run, complete or not, comes after an early answer. -/
theorem Precedes.exists_early (h : p.Precedes early late)
    (hrun : Leads respond state p exchanges q state') {before rest : List (Exchange Reply σ)}
    {exchange : Exchange Reply σ} (hsplit : exchanges = before ++ exchange :: rest)
    (hlate : late exchange.question) : ∃ other ∈ before, early other.question other.answer := by
  induction hrun generalizing before with
  | refl => simp at hsplit
  | @ask state middle _ question answer next tail q hrespond hrest ih =>
      cases before with
      | nil =>
          obtain ⟨rfl, -⟩ := List.cons.inj hsplit
          exact absurd hlate h.1
      | cons first before =>
          rw [List.cons_append] at hsplit
          obtain ⟨rfl, htail⟩ := List.cons.inj hsplit
          by_cases hearly : early question answer
          · exact ⟨_, List.mem_cons_self, hearly⟩
          · obtain ⟨other, hother, hfound⟩ := ih (h.2 answer hearly) htail
            exact ⟨other, List.mem_cons_of_mem _ hother, hfound⟩

end Order

theorem Every.forall_exchange {P : E → Prop} (h : p.Every P)
    (hrun : Leads respond state p exchanges q state') : ∀ exchange ∈ exchanges, P exchange.question := by
  induction hrun with
  | refl => simp
  | ask _ _ ih => exact List.forall_mem_cons.mpr ⟨h.1, ih (h.2 _)⟩

end Program

/-- A program whose commands may raise, and that ends with a value or an exception. -/
def Script (E : Type) (Out : E → Type) (ε α : Type) :=
  Program E (fun command => Except ε (Out command)) (Except ε α)

namespace Script

variable {E : Type} {Out : E → Type} {ε α β σ : Type}

def done (result : Except ε α) : Script E Out ε α := Program.done result

def perform (command : E) : Script E Out ε (Out command) := Program.perform command

def raise (error : ε) : Script E Out ε α := done (.error error)

def bind (script : Script E Out ε α) (next : α → Script E Out ε β) : Script E Out ε β :=
  Program.bind script fun
    | .ok value => next value
    | .error error => done (.error error)

def catching (script : Script E Out ε α) (handler : ε → Script E Out ε α) : Script E Out ε α :=
  Program.bind script fun
    | .ok value => done (.ok value)
    | .error error => handler error

/-- `try: ... finally: ...`, where an exception of the last part is the one that is left. -/
def lastly (script : Script E Out ε α) (last : Script E Out ε Unit) : Script E Out ε α :=
  Program.bind script fun result => last.bind fun _ => done result

instance : Monad (Script E Out ε) where
  pure value := done (.ok value)
  bind := bind

/-- Raise an exception unless a condition holds. -/
def require (condition : Bool) (error : ε) : Script E Out ε Unit :=
  if condition then pure () else raise error

/-- A part that is left out unless a condition holds. -/
def onlyIf (condition : Bool) (script : Script E Out ε Unit) : Script E Out ε Unit :=
  if condition then script else pure ()

abbrev Event (E : Type) (Out : E → Type) (ε σ : Type) :=
  Exchange (fun command : E => Except ε (Out command)) σ

def Runs (respond : Responses (fun command => Except ε (Out command)) σ) (state : σ)
    (script : Script E Out ε α) (events : List (Event E Out ε σ)) (result : Except ε α)
    (state' : σ) : Prop :=
  Program.Leads respond state script events (.done result) state'

def wp (respond : Responses (fun command => Except ε (Out command)) σ)
    (post : List (Event E Out ε σ) → Except ε α → σ → Prop) (script : Script E Out ε α) :
    List (Event E Out ε σ) → σ → Prop :=
  Program.wp respond post script

/-- Unless it raises, a script ends with a value and in a state that satisfy `P`. -/
def Yields (respond : Responses (fun command => Except ε (Out command)) σ) (P : α → σ → Prop)
    (script : Script E Out ε α) (state : σ) : Prop :=
  ∀ events value state', Runs respond state script events (.ok value) state' → P value state'

def Precedes (early : (command : E) → Except ε (Out command) → Prop) (late : E → Prop)
    (script : Script E Out ε α) : Prop :=
  Program.Precedes early late script

/-- Whatever is answered, all commands satisfy `P`. -/
def Every (P : E → Prop) (script : Script E Out ε α) : Prop := Program.Every P script

def success (answer : σ → (command : E) → Option (Out command × σ)) (state : σ) (command : E) :
    Option (Except ε (Out command) × σ) :=
  (answer state command).map fun (out, state') => (.ok out, state')

/-- The run in which every command succeeds, unless one of them cannot. -/
def execute (answer : σ → (command : E) → Option (Out command × σ)) (script : Script E Out ε α)
    (state : σ) : Option (Except ε α × σ) :=
  Program.execute (success answer) script state

section Rules

variable {respond : Responses (fun command => Except ε (Out command)) σ}
  {script : Script E Out ε α} {next : α → Script E Out ε β} {state state' : σ}
  {past events : List (Event E Out ε σ)} {post : List (Event E Out ε σ) → Except ε α → σ → Prop}

theorem wp_raise {error : ε} :
    wp respond post (raise error) past state ↔ post past (.error error) state := Iff.rfl

theorem wp_perform {command : E}
    {post : List (Event E Out ε σ) → Except ε (Out command) → σ → Prop} :
    wp respond post (perform command) past state ↔ ∀ answer after,
      respond state command answer after →
        post (past ++ [⟨state, command, answer, after⟩]) answer after :=
  Iff.rfl

/-- What has to hold after the first of two scripts. -/
def sequel (respond : Responses (fun command => Except ε (Out command)) σ)
    (post : List (Event E Out ε σ) → Except ε β → σ → Prop) (next : α → Script E Out ε β)
    (past : List (Event E Out ε σ)) : Except ε α → σ → Prop
  | .ok value, state => wp respond post (next value) past state
  | .error error, state => post past (.error error) state

/-- What has to hold before a handler. -/
def rescue (respond : Responses (fun command => Except ε (Out command)) σ)
    (post : List (Event E Out ε σ) → Except ε α → σ → Prop) (handler : ε → Script E Out ε α)
    (past : List (Event E Out ε σ)) : Except ε α → σ → Prop
  | .ok value, state => post past (.ok value) state
  | .error error, state => wp respond post (handler error) past state

def closing (post : List (Event E Out ε σ) → Except ε α → σ → Prop) (result : Except ε α)
    (past : List (Event E Out ε σ)) : Except ε Unit → σ → Prop
  | .ok _, state => post past result state
  | .error error, state => post past (.error error) state

theorem wp_bind {post : List (Event E Out ε σ) → Except ε β → σ → Prop} :
    wp respond post (script >>= next) past state =
      wp respond (sequel respond post next) script past state := by
  refine Program.wp_bind.trans ?_
  unfold wp
  congr 1
  funext past result state
  cases result <;> rfl

/-- A handler begins where an exception has ended a script. -/
theorem wp_catching {handler : ε → Script E Out ε α} :
    wp respond post (script.catching handler) past state =
      wp respond (rescue respond post handler) script past state := by
  refine Program.wp_bind.trans ?_
  unfold wp
  congr 1
  funext past result state
  cases result <;> rfl

/-- The last part is executed in any case. -/
theorem wp_lastly {last : Script E Out ε Unit} :
    wp respond post (script.lastly last) past state =
      wp respond (fun past result state => wp respond (closing post result) last past state) script
        past state := by
  refine Program.wp_bind.trans ?_
  unfold wp
  congr 1
  funext past result state
  refine Program.wp_bind.trans ?_
  congr 1
  funext past final state
  cases final <;> rfl

theorem wp_mono {post' : List (Event E Out ε σ) → Except ε α → σ → Prop}
    (hpost : ∀ past result state, post past result state → post' past result state)
    (h : wp respond post script past state) : wp respond post' script past state :=
  Program.wp_mono hpost h

theorem wp_iff : wp respond post script past state ↔
    ∀ events result state', Runs respond state script events result state' →
      post (past ++ events) result state' :=
  Program.wp_iff

/-- An exception ends a script, and a value is what the rest continues with. -/
theorem runs_bind_iff {result : Except ε β} :
    Runs respond state (script >>= next) events result state' ↔
      (∃ error, result = .error error ∧ Runs respond state script events (.error error) state') ∨
      ∃ value first rest between, events = first ++ rest ∧
        Runs respond state script first (.ok value) between ∧
        Runs respond between (next value) rest result state' := by
  refine Program.leads_bind_iff.trans ?_
  constructor
  · rintro ⟨middle, first, rest, between, rfl, hfirst, hrest⟩
    cases middle with
    | ok value => exact .inr ⟨value, first, rest, between, rfl, hfirst, hrest⟩
    | error error =>
        obtain ⟨rfl, rfl, rfl⟩ := hrest.done_inv
        rw [List.append_nil]
        exact .inl ⟨error, rfl, hfirst⟩
  · rintro (⟨error, rfl, hfirst⟩ | ⟨value, first, rest, between, rfl, hfirst, hrest⟩)
    · exact ⟨.error error, events, [], state', (List.append_nil _).symm, hfirst, .refl _ _⟩
    · exact ⟨.ok value, first, rest, between, rfl, hfirst, hrest⟩

theorem runs_perform_iff {command : E} {result : Except ε (Out command)} :
    Runs respond state (perform command) events result state' ↔
      respond state command result state' ∧ events = [⟨state, command, result, state'⟩] := by
  constructor
  · intro hrun
    cases hrun with
    | ask hrespond hrest =>
        obtain ⟨rfl, rfl, rfl⟩ := hrest.done_inv
        exact ⟨hrespond, rfl⟩
  · rintro ⟨hrespond, rfl⟩
    exact .ask hrespond (.refl _ _)

section Yields

variable {P : α → σ → Prop}

@[simp] theorem yields_pure {value : α} :
    Yields respond P (pure value : Script E Out ε α) state ↔ P value state := by
  constructor
  · exact fun h => h [] value state (.refl _ _)
  · intro h events value' state' hrun
    obtain ⟨heq, -, rfl⟩ := Program.Leads.done_inv hrun
    cases heq
    exact h

@[simp] theorem yields_raise {error : ε} :
    Yields respond P (raise error : Script E Out ε α) state := by
  intro events value state' hrun
  cases (Program.Leads.done_inv hrun).1

@[simp] theorem yields_perform {command : E} {P : Out command → σ → Prop} :
    Yields respond P (perform command) state ↔
      ∀ out after, respond state command (.ok out) after → P out after := by
  constructor
  · exact fun h out after hrespond => h _ out after (.ask hrespond (.refl _ _))
  · intro h events value state' hrun
    cases hrun with
    | ask hrespond hrest =>
        obtain ⟨heq, -, rfl⟩ := hrest.done_inv
        exact h _ _ (heq ▸ hrespond)

/-- A script after another that has not raised. -/
theorem yields_bind {P : β → σ → Prop} :
    Yields respond P (script >>= next) state ↔
      Yields respond (fun value between => Yields respond P (next value) between) script state := by
  constructor
  · intro h first value between hfirst rest value' state' hrest
    exact h _ value' state' (runs_bind_iff.mpr (.inr ⟨_, _, _, _, rfl, hfirst, hrest⟩))
  · intro h events value' state' hrun
    rcases runs_bind_iff.mp hrun with ⟨error, herror, -⟩ | ⟨value, first, rest, between, -, hfirst, hrest⟩
    · cases herror
    · exact h first value between hfirst rest value' state' hrest

/-- The rest of a script, whatever is there before it. -/
theorem yields_bind_of_forall {P : β → σ → Prop}
    (h : ∀ value between, Yields respond P (next value) between) :
    Yields respond P (script >>= next) state :=
  yields_bind.mpr fun _ value between _ => h value between

@[simp] theorem yields_require {condition : Bool} {error : ε} {P : Unit → σ → Prop} :
    Yields respond P (require condition error : Script E Out ε Unit) state ↔
      (condition = true → P () state) := by
  cases condition with
  | false => exact ⟨fun _ h => (by cases h), fun _ => yields_raise⟩
  | true => exact yields_pure.trans ⟨fun h _ => h, fun h => h rfl⟩

@[simp] theorem yields_onlyIf {condition : Bool} {script : Script E Out ε Unit} {P : Unit → σ → Prop} :
    Yields respond P (onlyIf condition script) state ↔
      if condition then Yields respond P script state else P () state := by
  cases condition with
  | false => exact yields_pure
  | true => exact Iff.rfl

end Yields

section Every

variable {P : E → Prop}

theorem every_pure {value : α} : Every P (pure value : Script E Out ε α) := trivial

theorem every_raise {error : ε} : Every P (raise error : Script E Out ε α) := trivial

theorem every_perform {command : E} (h : P command) :
    Every P (perform command : Script E Out ε _) :=
  ⟨h, fun _ => trivial⟩

theorem every_require {condition : Bool} {error : ε} :
    Every P (require condition error : Script E Out ε Unit) := by
  cases condition <;> trivial

theorem every_onlyIf {condition : Bool} {script : Script E Out ε Unit} (h : Every P script) :
    Every P (onlyIf condition script) := by
  cases condition with
  | false => exact every_pure
  | true => exact h

theorem every_bind (h : Every P script) (hnext : ∀ value, Every P (next value)) :
    Every P (script >>= next) := by
  apply Program.Every.bind h
  intro result
  cases result with
  | ok value => exact hnext value
  | error error => exact every_raise

theorem Every.mono {Q : E → Prop} (h : Every P script) (hmono : ∀ command, P command → Q command) :
    Every Q script := by
  induction script with
  | done result => trivial
  | ask command more ih => exact ⟨hmono _ h.1, fun answer => ih answer (h.2 answer)⟩

theorem Every.forall_event {result : Except ε α} (h : Every P script)
    (hrun : Runs respond state script events result state') : ∀ event ∈ events, P event.question :=
  Program.Every.forall_exchange h hrun

end Every

section Order

variable {early : (command : E) → Except ε (Out command) → Prop} {late : E → Prop}

theorem precedes_of_every (h : Every (fun command => ¬late command) script) :
    Precedes early late script :=
  Program.precedes_of_every h

theorem precedes_bind_of_every (h : Every (fun command => ¬late command) script)
    (hnext : ∀ value, Precedes early late (next value)) : Precedes early late (script >>= next) := by
  apply Program.Precedes.bind_of_every h
  intro result
  cases result with
  | ok value => exact hnext value
  | error error => trivial

/-- After an early answer anything may follow, and after an exception nothing does. -/
theorem precedes_perform_bind {command : E} {next : Out command → Script E Out ε β}
    (hlate : ¬late command) (hearly : ∀ out, early command (.ok out)) :
    Precedes early late (perform command >>= next) := by
  refine ⟨hlate, fun answer hnot => ?_⟩
  cases answer with
  | ok out => exact absurd (hearly out) hnot
  | error error => trivial

end Order

section Execute

variable {answer : σ → (command : E) → Option (Out command × σ)}

@[simp] theorem execute_pure {value : α} :
    execute answer (pure value : Script E Out ε α) state = some (.ok value, state) := rfl

@[simp] theorem execute_raise {error : ε} :
    execute answer (raise error : Script E Out ε α) state = some (.error error, state) := rfl

@[simp] theorem execute_perform {command : E} :
    execute answer (perform command : Script E Out ε _) state =
      (answer state command).map fun (out, after) => (Except.ok out, after) := by
  change Program.execute (success answer) (.ask command .done) state = _
  rw [Program.execute, success]
  cases answer state command <;> rfl

theorem execute_bind :
    execute answer (script >>= next) state =
      match execute answer script state with
      | none => none
      | some (.ok value, between) => execute answer (next value) between
      | some (.error error, between) => some (.error error, between) := by
  refine Program.execute_bind.trans ?_
  unfold execute
  cases Program.execute (success answer) script state with
  | none => rfl
  | some step =>
      obtain ⟨result, between⟩ := step
      cases result <;> rfl

theorem execute_bind_ok {value : α} {between : σ} (h : execute answer script state = some (.ok value, between)) :
    execute answer (script >>= next) state = execute answer (next value) between := by
  rw [execute_bind, h]

theorem execute_bind_error {error : ε} {between : σ}
    (h : execute answer script state = some (.error error, between)) :
    execute answer (script >>= next) state = some (.error error, between) := by
  rw [execute_bind, h]

@[simp] theorem execute_require {condition : Bool} {error : ε} :
    execute answer (require condition error : Script E Out ε Unit) state =
      some (if condition then .ok () else .error error, state) := by
  cases condition <;> rfl

@[simp] theorem execute_onlyIf {condition : Bool} {script : Script E Out ε Unit} :
    execute answer (onlyIf condition script) state =
      if condition then execute answer script state else some (.ok (), state) := by
  cases condition <;> rfl

theorem execute_catching {handler : ε → Script E Out ε α} :
    execute answer (script.catching handler) state =
      match execute answer script state with
      | none => none
      | some (.ok value, between) => some (.ok value, between)
      | some (.error error, between) => execute answer (handler error) between := by
  refine Program.execute_bind.trans ?_
  unfold execute
  cases Program.execute (success answer) script state with
  | none => rfl
  | some step =>
      obtain ⟨result, between⟩ := step
      cases result <;> rfl

/-- The last part succeeds, and the result is that of the script. -/
theorem execute_lastly {last : Script E Out ε Unit} {result : Except ε α} {between after : σ}
    (h : execute answer script state = some (result, between))
    (hlast : execute answer last between = some (.ok (), after)) :
    execute answer (script.lastly last) state = some (result, after) := by
  refine Program.execute_bind.trans ?_
  change Program.execute (success answer) script state = _ at h
  rw [h]
  refine execute_bind.trans ?_
  rw [hlast]
  rfl

def AllSucceed (events : List (Event E Out ε σ)) : Prop :=
  ∀ event ∈ events, ∃ out, event.answer = .ok out

/-- `execute` finds the run in which every command succeeds. -/
theorem execute_eq_some_iff {result : Except ε α}
    (hanswer : ∀ state command out state', respond state command (.ok out) state' ↔
      answer state command = some (out, state')) :
    execute answer script state = some (result, state') ↔
      ∃ events, Runs respond state script events result state' ∧ AllSucceed events := by
  have hsuccess : ∀ (state : σ) (command : E) (reply : Except ε (Out command)) (state' : σ),
      success answer state command = some (reply, state') ↔
        respond state command reply state' ∧ ∃ out, reply = .ok out := by
    intro state command reply state'
    constructor
    · intro h
      obtain ⟨⟨out, after⟩, hstep, heq⟩ := Option.map_eq_some_iff.mp h
      obtain ⟨rfl, rfl⟩ := Prod.mk.inj heq
      exact ⟨(hanswer _ _ _ _).mpr hstep, out, rfl⟩
    · rintro ⟨hrespond, out, rfl⟩
      exact Option.map_eq_some_iff.mpr ⟨(out, state'), (hanswer _ _ _ _).mp hrespond, rfl⟩
  refine Program.execute_eq_some_iff.trans ?_
  constructor
  · rintro ⟨events, hrun⟩
    have hall := fun event hevent => (hsuccess _ _ _ _).mp (hrun.forall_respond event hevent)
    exact ⟨events, hrun.of_forall fun event hevent => (hall event hevent).1,
      fun event hevent => (hall event hevent).2⟩
  · rintro ⟨events, hrun, hall⟩
    exact ⟨events, Program.Leads.of_forall hrun fun event hevent =>
      (hsuccess _ _ _ _).mpr ⟨Program.Leads.forall_respond hrun event hevent, hall event hevent⟩⟩

end Execute

end Rules

end Script

end AdaptivePi.Foundation
