import Mathlib.Tactic.Common

namespace AdaptivePi.Foundation

/-- A reader, which fails where there is no next state. -/
structure Tokenizer (σ α τ : Type*) where
  /-- The next state, and what is emitted. -/
  step : σ → α → Option (σ × List τ)
  /-- What is emitted at the end, if a text may end in the state. -/
  finish : σ → Option (List τ)

namespace Tokenizer

variable {σ α τ : Type*} (tokenizer : Tokenizer σ α τ)

/-- The tokens of a text that is read from a state on. -/
def run (state : σ) : List α → Option (List τ)
  | [] => tokenizer.finish state
  | symbol :: text =>
      (tokenizer.step state symbol).bind fun (next, found) => (run next text).map (found ++ ·)

/-- Reading a text leads from one state to another and emits tokens, whatever
follows. -/
def Reads (state : σ) (text : List α) (found : List τ) (next : σ) : Prop :=
  ∀ rest, tokenizer.run state (text ++ rest) = (tokenizer.run next rest).map (found ++ ·)

namespace Reads

variable {tokenizer : Tokenizer σ α τ} {state middle next : σ} {left right : List α}
  {found more : List τ} {symbol : α}

theorem refl : tokenizer.Reads state [] [] state := by
  intro rest
  rw [List.nil_append]
  cases tokenizer.run state rest <;> rfl

theorem single (hstep : tokenizer.step state symbol = some (next, found)) :
    tokenizer.Reads state [symbol] found next := by
  intro rest
  rw [List.singleton_append, run, hstep, Option.bind_some]

theorem append (hleft : tokenizer.Reads state left found middle)
    (hright : tokenizer.Reads middle right more next) :
    tokenizer.Reads state (left ++ right) (found ++ more) next := by
  intro rest
  rw [List.append_assoc, hleft, hright, Option.map_map]
  congr 1
  funext tokens
  exact (List.append_assoc found more tokens).symm

/-- A first symbol that emits nothing. -/
theorem cons (hstep : tokenizer.step state symbol = some (middle, []))
    (hright : tokenizer.Reads middle right more next) :
    tokenizer.Reads state (symbol :: right) more next :=
  (single hstep).append hright

/-- A last symbol, after a text that emits nothing. -/
theorem snoc (hleft : tokenizer.Reads state left [] middle)
    (hstep : tokenizer.step middle symbol = some (next, found)) :
    tokenizer.Reads state (left ++ [symbol]) found next :=
  hleft.append (single hstep)

/-- Symbols that only lengthen what a state keeps. -/
theorem accumulate (keep : List α → σ) (seen : List α) {text : List α}
    (hstep : ∀ seen, ∀ symbol ∈ text,
      tokenizer.step (keep seen) symbol = some (keep (seen ++ [symbol]), [])) :
    tokenizer.Reads (keep seen) text [] (keep (seen ++ text)) := by
  induction text generalizing seen with
  | nil =>
      rw [List.append_nil]
      exact refl
  | cons symbol text ih =>
      have hfirst := hstep seen symbol List.mem_cons_self
      have hrest := ih (seen ++ [symbol]) fun seen other hother =>
        hstep seen other (List.mem_cons_of_mem _ hother)
      rw [List.append_assoc, List.singleton_append] at hrest
      exact cons hfirst hrest

/-- A text that is read to its end. -/
theorem run_eq (h : tokenizer.Reads state left found next) {last : List τ}
    (hfinish : tokenizer.finish next = some last) :
    tokenizer.run state left = some (found ++ last) := by
  have hrun := h []
  rw [List.append_nil] at hrun
  rw [hrun, run, hfinish]
  rfl

end Reads

end Tokenizer

end AdaptivePi.Foundation
