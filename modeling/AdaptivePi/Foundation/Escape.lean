import Mathlib.Data.List.Chain
import Mathlib.Tactic.Common

/-!
Escaping with one escape symbol. A scheme writes some symbols as the escape
symbol followed by a letter and all others as themselves. If the escape
symbol is itself escaped, text up to a delimiter that the scheme escapes is
read back exactly, and several texts may be written one after another. A
delimiter that stands for itself after the escape symbol can also be found
from the right: inside escaped text the escape symbol always precedes it.
-/

namespace AdaptivePi.Foundation

/-- `letter c` is what follows the escape symbol when `c` is escaped, and
`original` reads that letter back. -/
structure EscapeScheme (α : Type*) where
  escape : α
  letter : α → Option α
  original : α → Option α
  original_letter : ∀ c l, letter c = some l → original l = some c
  letter_escape : (letter escape).isSome = true

namespace EscapeScheme

variable {α : Type*} (scheme : EscapeScheme α)

def encodeSymbol (c : α) : List α :=
  match scheme.letter c with
  | some l => [scheme.escape, l]
  | none => [c]

def encode (text : List α) : List α := text.flatMap scheme.encodeSymbol

@[simp] theorem encode_nil : scheme.encode [] = [] := rfl

@[simp] theorem encode_cons (c : α) (text : List α) :
    scheme.encode (c :: text) = scheme.encodeSymbol c ++ scheme.encode text := rfl

theorem encodeSymbol_length_le (c : α) : (scheme.encodeSymbol c).length ≤ 2 := by
  unfold encodeSymbol
  cases scheme.letter c <;> simp

/-- Escapes at most double the length. -/
theorem encode_length_le (text : List α) :
    (scheme.encode text).length ≤ 2 * text.length := by
  induction text with
  | nil => simp
  | cons c rest ih =>
      have hc := scheme.encodeSymbol_length_le c
      simp only [encode_cons, List.length_append, List.length_cons]
      omega

/-- An escaped symbol occurs in escaped text only as a letter. -/
theorem not_mem_encode {b : α} (hspecial : (scheme.letter b).isSome = true)
    (hescape : b ≠ scheme.escape) (hletter : ∀ c, scheme.letter c ≠ some b)
    (text : List α) : b ∉ scheme.encode text := by
  intro hmem
  obtain ⟨c, _, hc⟩ := List.mem_flatMap.mp hmem
  unfold encodeSymbol at hc
  cases hl : scheme.letter c with
  | none =>
      rw [hl, List.mem_singleton] at hc
      rw [hc, hl] at hspecial
      cases hspecial
  | some l =>
      simp only [hl, List.mem_cons, List.not_mem_nil, or_false] at hc
      rcases hc with h | h
      · exact hescape h
      · exact hletter c (by rw [hl, h])

section Reading

variable [DecidableEq α]

/-- Read escaped text up to the first bare `stop`. The flag says that the
escape symbol has just been read and a letter must follow. -/
def decodeFrom (stop : α) : Bool → List α → Option (List α × List α)
  | _, [] => none
  | true, l :: rest => do
      let symbol ← scheme.original l
      let (text, tail) ← decodeFrom stop false rest
      pure (symbol :: text, tail)
  | false, c :: rest =>
      if c = stop then
        some ([], rest)
      else if c = scheme.escape then
        decodeFrom stop true rest
      else do
        let (text, tail) ← decodeFrom stop false rest
        pure (c :: text, tail)

/-- The original text before the first bare `stop`, and what follows it. -/
def decodeUntil (stop : α) (text : List α) : Option (List α × List α) :=
  scheme.decodeFrom stop false text

/-- Reading inverts writing: the delimiter must be a symbol that the scheme
escapes, other than the escape symbol. -/
theorem decodeUntil_encode {stop : α} (hspecial : (scheme.letter stop).isSome = true)
    (hstop : stop ≠ scheme.escape) (text rest : List α) :
    scheme.decodeUntil stop (scheme.encode text ++ stop :: rest) = some (text, rest) := by
  unfold decodeUntil
  induction text with
  | nil => simp [decodeFrom]
  | cons c text ih =>
      cases hl : scheme.letter c with
      | none =>
          have hcstop : c ≠ stop := by
            rintro rfl
            simp [hl] at hspecial
          have hcescape : c ≠ scheme.escape := by
            rintro rfl
            have h := scheme.letter_escape
            simp [hl] at h
          simp [encodeSymbol, hl, decodeFrom, hcstop, hcescape, ih]
      | some l =>
          have horiginal := scheme.original_letter c l hl
          simp [encodeSymbol, hl, decodeFrom, hstop.symm, horiginal, ih]

end Reading

/-- `stop` stands only directly after the escape symbol, where `previous` is
the symbol before the text. -/
def Guarded (stop : α) : α → List α → Prop
  | _, [] => True
  | previous, c :: rest => (c = stop → previous = scheme.escape) ∧ Guarded stop c rest

/-- The delimiter does not stand bare in escaped text. -/
theorem guarded_encode {stop : α} (hspecial : (scheme.letter stop).isSome = true)
    (hstop : stop ≠ scheme.escape) (previous : α) (text : List α) :
    scheme.Guarded stop previous (scheme.encode text) := by
  induction text generalizing previous with
  | nil => trivial
  | cons c text ih =>
      cases hl : scheme.letter c with
      | none =>
          have hcstop : c ≠ stop := by
            rintro rfl
            simp [hl] at hspecial
          simpa [encodeSymbol, hl, Guarded, hcstop] using ih c
      | some l =>
          simpa [encodeSymbol, hl, Guarded, hstop.symm] using ih l

theorem guarded_append {stop previous : α} {left right : List α}
    (h : scheme.Guarded stop previous (left ++ right)) :
    scheme.Guarded stop previous left := by
  induction left generalizing previous with
  | nil => trivial
  | cons c left ih => exact ⟨h.1, ih h.2⟩

theorem guarded_append_of_not_mem {stop previous : α} {left right : List α}
    (h : scheme.Guarded stop previous left) (hright : stop ∉ right) :
    scheme.Guarded stop previous (left ++ right) := by
  induction left generalizing previous with
  | nil =>
      induction right generalizing previous with
      | nil => trivial
      | cons c right ih =>
          rw [List.mem_cons, not_or] at hright
          exact ⟨fun heq => absurd heq.symm hright.1, ih hright.2 trivial⟩
  | cons c left ih => exact ⟨h.1, ih h.2⟩

theorem guarded_last {stop previous before last : α} {text : List α}
    (h : scheme.Guarded stop previous ((text ++ [before]) ++ [last]))
    (hlast : last = stop) : before = scheme.escape := by
  induction text generalizing previous with
  | nil => exact h.2.1 hlast
  | cons c text ih => exact ih h.2

end EscapeScheme

section RightEnd

variable {α : Type*} [DecidableEq α]

/-- Split reversed text at the first `stop` that no `escape` precedes in
reading order: the text after it, in reading order, and the reversed text
before it. -/
def openField (stop escape : α) : List α → Option (List α × List α)
  | [] => none
  | [_] => none
  | c :: previous :: rest =>
      if c = stop ∧ previous ≠ escape then
        some ([], previous :: rest)
      else do
        let (field, before) ← openField stop escape (previous :: rest)
        pure (field ++ [c], before)

/-- A field whose delimiter is guarded is cut off at the right place: `mark`
is any symbol before the opening delimiter other than the escape symbol. -/
theorem openField_reverse (scheme : EscapeScheme α) {stop mark : α}
    (hmark : mark ≠ scheme.escape) (field before : List α)
    (hfield : scheme.Guarded stop stop field) :
    openField stop scheme.escape
        ((before ++ mark :: stop :: field).reverse) =
      some (field, (before ++ [mark]).reverse) := by
  induction field using List.reverseRecOn with
  | nil => simp [openField, hmark]
  | append_singleton field last ih =>
      have hinit := scheme.guarded_append hfield
      have hstep := ih hinit
      -- The symbol before `last` is the end of `field`, or the delimiter.
      obtain ⟨previous, rest, hrest, hlast⟩ :
          ∃ previous rest, (before ++ mark :: stop :: field).reverse = previous :: rest ∧
            (last = stop → previous = scheme.escape) := by
        rcases List.eq_nil_or_concat field with rfl | ⟨init, final, rfl⟩
        · refine ⟨stop, mark :: before.reverse, by simp, ?_⟩
          exact hfield.1
        · rw [List.concat_eq_append] at hfield ⊢
          refine ⟨final, (before ++ mark :: stop :: init).reverse, by simp, ?_⟩
          intro heq
          exact scheme.guarded_last hfield heq
      have hreverse : (before ++ mark :: stop :: (field ++ [last])).reverse =
          last :: previous :: rest := by
        rw [← hrest]
        simp
      rw [hreverse]
      have hnot : ¬(last = stop ∧ previous ≠ scheme.escape) := by
        rintro ⟨heq, hne⟩
        exact hne (hlast heq)
      rw [hrest] at hstep
      simp [openField, hnot, hstep]

end RightEnd

end AdaptivePi.Foundation
