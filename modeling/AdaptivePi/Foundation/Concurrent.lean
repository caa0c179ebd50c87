import AdaptivePi.Foundation.Script
import AdaptivePi.Foundation.Transition
import Mathlib.Logic.Function.Basic
import Mathlib.Logic.Relation

/-!
Processes that run programs in one world. A step is an exchange of one process, or a
process is gone; this may happen at any time, and the rest of its program is lost.
What a process relies on is a relation of states, and what it guarantees is one of its
exchanges. If what one guarantees is what the others rely on, every program can be
looked at alone: what is known before a question has to be stable, that is, it still
holds after others have changed the world as they may.
-/

namespace AdaptivePi.Foundation

open Relation (ReflTransGen)

section Stability

variable {σ : Type} {rely : σ → σ → Prop} {P Q : σ → Prop}

/-- What others do not change. -/
def Stable (rely : σ → σ → Prop) (P : σ → Prop) : Prop :=
  ∀ state later, P state → rely state later → P later

theorem Stable.later {state later : σ} (hstable : Stable rely P) (h : P state)
    (hlater : ReflTransGen rely state later) : P later := by
  induction hlater with
  | refl => exact h
  | tail _ hstep ih => exact hstable _ _ ih hstep

theorem Stable.and (hP : Stable rely P) (hQ : Stable rely Q) :
    Stable rely fun state => P state ∧ Q state := by
  intro state later h hstep
  exact ⟨hP _ _ h.1 hstep, hQ _ _ h.2 hstep⟩

theorem stable_true : Stable rely fun _ => True := fun _ _ _ _ => trivial

end Stability

namespace Program

variable {E : Type} {Reply : E → Type} {σ α β : Type} {respond : Responses Reply σ}
  {rely : σ → σ → Prop} {guarantee : Responses Reply σ} {post : α → σ → Prop}
  {p : Program E Reply α} {state : σ}

/-- Every exchange of a program is as it guarantees, and `post` holds when it is done,
whatever others do that it relies on. -/
def Guards (respond : Responses Reply σ) (rely : σ → σ → Prop) (guarantee : Responses Reply σ)
    (post : α → σ → Prop) : Program E Reply α → σ → Prop
  | .done value, state => ∀ later, ReflTransGen rely state later → post value later
  | .ask question next, state => ∀ later, ReflTransGen rely state later → ∀ answer after,
      respond later question answer after →
        guarantee later question answer after ∧
          Guards respond rely guarantee post (next answer) after

/-- A program may be interrupted before it begins. -/
theorem Guards.later {later : σ} (h : p.Guards respond rely guarantee post state)
    (hlater : ReflTransGen rely state later) : p.Guards respond rely guarantee post later := by
  cases p with
  | done value => exact fun last hlast => h last (hlater.trans hlast)
  | ask question next => exact fun last hlast => h last (hlater.trans hlast)

theorem Guards.bind {f : α → Program E Reply β} {post' : β → σ → Prop}
    (h : p.Guards respond rely guarantee post state)
    (hnext : ∀ value state, post value state → (f value).Guards respond rely guarantee post' state) :
    (p.bind f).Guards respond rely guarantee post' state := by
  induction p generalizing state with
  | done value => exact hnext value state (h state .refl)
  | ask question next ih =>
      intro later hlater answer after hrespond
      obtain ⟨hguarantee, hrest⟩ := h later hlater answer after hrespond
      exact ⟨hguarantee, ih answer hrest⟩

theorem guards_done {value : α} (hstable : Stable rely (post value)) (h : post value state) :
    (Program.done value : Program E Reply α).Guards respond rely guarantee post state :=
  fun _ hlater => hstable.later h hlater

theorem guards_ask {P : σ → Prop} {question : E} {next : Reply question → Program E Reply α}
    (hstable : Stable rely P) (h : P state)
    (hstep : ∀ later answer after, P later → respond later question answer after →
      guarantee later question answer after ∧
        (next answer).Guards respond rely guarantee post after) :
    (Program.ask question next).Guards respond rely guarantee post state :=
  fun later hlater answer after hrespond =>
    hstep later answer after (hstable.later h hlater) hrespond

end Program

namespace Script

variable {E : Type} {Out : E → Type} {ε α β σ : Type}
  {respond guarantee : Responses (fun command => Except ε (Out command)) σ} {rely : σ → σ → Prop}
  {P : σ → Prop} {success : α → σ → Prop} {failure : ε → σ → Prop} {script : Script E Out ε α}
  {state : σ}

def outcome (success : α → σ → Prop) (failure : ε → σ → Prop) : Except ε α → σ → Prop
  | .ok value => success value
  | .error error => failure error

def Guards (respond : Responses (fun command => Except ε (Out command)) σ)
    (rely : σ → σ → Prop) (guarantee : Responses (fun command => Except ε (Out command)) σ)
    (success : α → σ → Prop) (failure : ε → σ → Prop) (script : Script E Out ε α) (state : σ) : Prop :=
  Program.Guards respond rely guarantee (outcome success failure) script state

theorem guards_pure {value : α} (hstable : Stable rely (success value)) (h : success value state) :
    Guards respond rely guarantee success failure (pure value : Script E Out ε α) state := by
  apply Program.guards_done
  · exact hstable
  · exact h

theorem guards_raise {error : ε} (hstable : Stable rely (failure error)) (h : failure error state) :
    Guards respond rely guarantee success failure (raise error : Script E Out ε α) state := by
  apply Program.guards_done
  · exact hstable
  · exact h

/-- A command in a stable state, whose answers leave stable states. -/
theorem guards_perform {command : E} {success : Out command → σ → Prop}
    (hstable : Stable rely P) (h : P state)
    (hsuccess : ∀ out, Stable rely (success out)) (hfailure : ∀ error, Stable rely (failure error))
    (hstep : ∀ later answer after, P later → respond later command answer after →
      guarantee later command answer after ∧ outcome success failure answer after) :
    Guards respond rely guarantee success failure (perform command) state := by
  apply Program.guards_ask hstable h
  intro later answer after hlater hrespond
  obtain ⟨hguarantee, houtcome⟩ := hstep later answer after hlater hrespond
  refine ⟨hguarantee, Program.guards_done ?_ houtcome⟩
  cases answer with
  | ok out => exact hsuccess out
  | error error => exact hfailure error

/-- A script after another, where an exception ends both. -/
theorem Guards.bind {next : α → Script E Out ε β} {success' : β → σ → Prop}
    (h : Guards respond rely guarantee success failure script state)
    (hfailure : ∀ error, Stable rely (failure error))
    (hnext : ∀ value state, success value state →
      Guards respond rely guarantee success' failure (next value) state) :
    Guards respond rely guarantee success' failure (script >>= next) state := by
  apply Program.Guards.bind h
  intro result state hresult
  cases result with
  | ok value => exact hnext value state hresult
  | error error => exact guards_raise (hfailure error) hresult

theorem guards_onlyIf {condition : Bool} {part : Script E Out ε Unit} {success : Unit → σ → Prop}
    (hstable : Stable rely (success ()))
    (hpart : condition = true → Guards respond rely guarantee success failure part state)
    (hskip : condition = false → success () state) :
    Guards respond rely guarantee success failure (onlyIf condition part) state := by
  cases condition with
  | false => exact guards_pure hstable (hskip rfl)
  | true => exact hpart rfl

/-- A last part is run after a value and after an exception. -/
theorem Guards.lastly {last : Script E Out ε Unit} {success' : α → σ → Prop}
    {failure' : ε → σ → Prop} (h : Guards respond rely guarantee success failure script state)
    (hsuccess' : ∀ value, Stable rely (success' value)) (hfailure' : ∀ error, Stable rely (failure' error))
    (hvalue : ∀ value state, success value state →
      Guards respond rely guarantee (fun _ => success' value) failure' last state)
    (herror : ∀ error state, failure error state →
      Guards respond rely guarantee (fun _ => failure' error) failure' last state) :
    Guards respond rely guarantee success' failure' (script.lastly last) state := by
  apply Program.Guards.bind h
  intro result state hresult
  cases result with
  | ok value =>
      apply Program.Guards.bind (hvalue value state hresult)
      intro final state hfinal
      cases final with
      | ok _ => exact guards_pure (hsuccess' value) hfinal
      | error error => exact guards_raise (hfailure' error) hfinal
  | error error =>
      apply Program.Guards.bind (herror error state hresult)
      intro final state hfinal
      cases final with
      | ok _ => exact guards_raise (hfailure' error) hfinal
      | error error => exact guards_raise (hfailure' error) hfinal

end Script

section Processes

variable {ι E : Type} {Reply : E → Type} {σ α : Type}

/-- What is left of the program of each process that is there, and the world. -/
structure Configuration (ι : Type) {E : Type} (Reply : E → Type) (σ α : Type) where
  processes : ι → Option (Program E Reply α)
  world : σ

/-- What the commands of each process do, and what happens when it is gone. -/
structure Kernel (ι : Type) {E : Type} (Reply : E → Type) (σ : Type) where
  respond : ι → Responses Reply σ
  leave : ι → σ → σ → Prop

variable [DecidableEq ι]

/-- A step of one of the processes. -/
inductive Kernel.Step (kernel : Kernel ι Reply σ) :
    StepRelation (Configuration ι Reply σ α) (ι × Exchange Reply σ) where
  | exchange {processes : ι → Option (Program E Reply α)} {world world' : σ} {process : ι}
      {question : E} {next : Reply question → Program E Reply α} {answer : Reply question}
      (hprocess : processes process = some (.ask question next))
      (hrespond : kernel.respond process world question answer world') :
      kernel.Step ⟨processes, world⟩ (some (process, ⟨world, question, answer, world'⟩))
        ⟨Function.update processes process (some (next answer)), world'⟩
  | leave {processes : ι → Option (Program E Reply α)} {world world' : σ} {process : ι}
      {program : Program E Reply α} (hprocess : processes process = some program)
      (hleave : kernel.leave process world world') :
      kernel.Step ⟨processes, world⟩ none ⟨Function.update processes process none, world'⟩

/-- A process that runs while the others wait. -/
theorem Kernel.execution_of_leads {kernel : Kernel ι Reply σ} {process : ι}
    {processes : ι → Option (Program E Reply α)} {world world' : σ} {p q : Program E Reply α}
    {exchanges : List (Exchange Reply σ)} (hprocess : processes process = some p)
    (hrun : Program.Leads (kernel.respond process) world p exchanges q world') :
    Execution kernel.Step ⟨processes, world⟩ (exchanges.map (process, ·))
      ⟨Function.update processes process (some q), world'⟩ := by
  induction hrun generalizing processes with
  | refl =>
      rw [← hprocess, Function.update_eq_self]
      exact .refl
  | ask hrespond _ ih =>
      have hfirst := Execution.single (Kernel.Step.exchange hprocess hrespond)
      have hrest := ih (Function.update_self process _ processes)
      rw [Function.update_idem] at hrest
      exact hfirst.trans hrest

/-- What each process relies on and guarantees. -/
structure Contract (kernel : Kernel ι Reply σ) where
  rely : ι → σ → σ → Prop
  guarantee : ι → Responses Reply σ
  rely_of_guarantee : ∀ {process other : ι} {state state' : σ} {question : E}
    {answer : Reply question}, process ≠ other →
    guarantee process state question answer state' → rely other state state'
  rely_of_leave : ∀ {process other : ι} {state state' : σ}, process ≠ other →
    kernel.leave process state state' → rely other state state'

namespace Contract

variable {kernel : Kernel ι Reply σ} {contract : Contract kernel} {post : ι → α → σ → Prop}
  {initial final config config' : Configuration ι Reply σ α} {events : List (ι × Exchange Reply σ)}
  {event : Option (ι × Exchange Reply σ)}

/-- What is left of every process keeps to the contract. -/
def Holds (contract : Contract kernel) (post : ι → α → σ → Prop)
    (config : Configuration ι Reply σ α) : Prop :=
  ∀ process program, config.processes process = some program →
    program.Guards (kernel.respond process) (contract.rely process) (contract.guarantee process)
      (post process) config.world

/-- A step, and what the process guarantees for it. -/
theorem Holds.step (h : contract.Holds post config) (hstep : kernel.Step config event config') :
    contract.Holds post config' ∧
      ∀ process exchange, event = some (process, exchange) →
        config.world = exchange.before ∧ config'.world = exchange.after ∧
        kernel.respond process exchange.before exchange.question exchange.answer exchange.after ∧
        contract.guarantee process exchange.before exchange.question exchange.answer exchange.after := by
  cases hstep with
  | @exchange processes world world' process question next answer hprocess hrespond =>
      obtain ⟨hguarantee, hrest⟩ := h process _ hprocess world .refl answer world' hrespond
      refine ⟨?_, ?_⟩
      · intro other program hother
        change Function.update processes process _ other = _ at hother
        by_cases heq : process = other
        · subst heq
          rw [Function.update_self] at hother
          cases hother
          exact hrest
        · rw [Function.update_of_ne (Ne.symm heq)] at hother
          exact (h other program hother).later (.single (contract.rely_of_guarantee heq hguarantee))
      · intro other exchange heq
        cases heq
        exact ⟨rfl, rfl, hrespond, hguarantee⟩
  | @leave processes world world' process program hprocess hleave =>
      refine ⟨?_, fun _ _ heq => by cases heq⟩
      intro other rest hother
      change Function.update processes process none other = _ at hother
      by_cases heq : process = other
      · subst heq
        rw [Function.update_self] at hother
        cases hother
      · rw [Function.update_of_ne (Ne.symm heq)] at hother
        exact (h other rest hother).later (.single (contract.rely_of_leave heq hleave))

/-- What holds of all processes holds after any interleaving. -/
theorem Holds.execution (h : contract.Holds post initial)
    (hrun : Execution kernel.Step initial events final) : contract.Holds post final := by
  induction hrun with
  | refl => exact h
  | step _ hstep ih => exact (ih.step hstep).1

/-- What the guarantees keep, of the exchanges so far and the world. -/
theorem Holds.invariant {I : List (ι × Exchange Reply σ) → σ → Prop}
    (h : contract.Holds post initial) (hinit : I [] initial.world)
    (hexchange : ∀ events process exchange, I events exchange.before →
      kernel.respond process exchange.before exchange.question exchange.answer exchange.after →
      contract.guarantee process exchange.before exchange.question exchange.answer exchange.after →
      I (events ++ [(process, exchange)]) exchange.after)
    (hleave : ∀ events process state state', I events state → kernel.leave process state state' →
      I events state')
    (hrun : Execution kernel.Step initial events final) : I events final.world := by
  induction hrun with
  | refl => exact hinit
  | @step events state state' event hrun hstep ih =>
      have hguarantee := ((h.execution hrun).step hstep).2
      cases event with
      | some event =>
          obtain ⟨hbefore, hafter, hrespond, hkept⟩ := hguarantee event.1 event.2 rfl
          rw [hafter]
          exact hexchange events event.1 event.2 (hbefore ▸ ih) hrespond hkept
      | none =>
          rw [Option.toList_none, List.append_nil]
          cases hstep with
          | leave _ hgone => exact hleave _ _ _ _ ih hgone

omit [DecidableEq ι] in
/-- A process that is done has left what it promises. -/
theorem Holds.done {process : ι} {value : α} (h : contract.Holds post config)
    (hdone : config.processes process = some (.done value)) : post process value config.world :=
  h process _ hdone _ .refl

end Contract

end Processes

end AdaptivePi.Foundation
