import AdaptivePi.Foundation.Decimal
import Mathlib.Data.List.Lex

namespace AdaptivePi.Foundation

/-- The widths of the numbers and the separators behind them. -/
abbrev Layout := List (Nat × Bytes)

namespace Layout

def text : Layout → List Nat → Bytes
  | (width, separator) :: fields, value :: values =>
      padded width value ++ (separator ++ text fields values)
  | _, _ => []

def length (layout : Layout) : Nat := (layout.map fun field => field.1 + field.2.length).sum

/-- Each number fits the width of its field. -/
def Fits (layout : Layout) (values : List Nat) : Prop :=
  List.Forall₂ (fun field value => 0 < field.1 ∧ value < 10 ^ field.1) layout values

/-- Texts of one layout have one length. -/
theorem text_length {layout : Layout} {values : List Nat} (hfits : layout.Fits values) :
    (layout.text values).length = layout.length := by
  induction hfits with
  | nil => rfl
  | @cons field value fields values hfield _ ih =>
      have hwidth := padded_length hfield.1 hfield.2
      simp only [text, List.length_append, hwidth, ih, length, List.map_cons, List.sum_cons]
      omega

end Layout

private theorem digit_toNat {byte : UInt8} (hdigit : isDigit byte = true) :
    48 ≤ byte.toNat ∧ byte.toNat ≤ 57 := by
  simpa [isDigit, UInt8.le_iff_toNat_le] using hdigit

theorem readDecimal_cons (digit : UInt8) (digits : Bytes) :
    readDecimal (digit :: digits) =
      10 ^ digits.length * (digit.toNat - 48) + readDecimal digits := by
  have hchar : (Char.ofUInt8 digit).toNat = digit.toNat := UInt8.toNat_toUInt32 digit
  unfold readDecimal
  rw [List.map_cons, Nat.ofDigitChars_cons, Nat.ofDigitChars_eq_ofDigitChars_zero, hchar]
  simp

theorem readDecimal_lt {digits : Bytes} (hdigits : ∀ byte ∈ digits, isDigit byte = true) :
    readDecimal digits < 10 ^ digits.length := by
  induction digits with
  | nil => decide
  | cons digit digits ih =>
      have hrest := ih fun byte hbyte => hdigits byte (List.mem_cons_of_mem _ hbyte)
      have hdigit := digit_toNat (hdigits digit List.mem_cons_self)
      have hbound : 10 ^ digits.length * (digit.toNat - 48) ≤ 10 ^ digits.length * 9 :=
        Nat.mul_le_mul_left _ (by omega)
      rw [readDecimal_cons, List.length_cons, Nat.pow_succ]
      omega

/-- Equally long numerals are ordered as their values are. -/
theorem lt_of_readDecimal_lt {digits digits' : Bytes} (hlength : digits.length = digits'.length)
    (hdigits : ∀ byte ∈ digits, isDigit byte = true)
    (hdigits' : ∀ byte ∈ digits', isDigit byte = true)
    (hlt : readDecimal digits < readDecimal digits') : digits < digits' := by
  induction digits generalizing digits' with
  | nil =>
      obtain rfl := List.eq_nil_of_length_eq_zero hlength.symm
      exact absurd hlt (lt_irrefl _)
  | cons digit rest ih =>
      cases digits' with
      | nil => simp at hlength
      | cons digit' rest' =>
          have hrestLength : rest.length = rest'.length := by simpa using hlength
          have hrest : ∀ byte ∈ rest, isDigit byte = true := fun byte hbyte =>
            hdigits byte (List.mem_cons_of_mem _ hbyte)
          have hrest' : ∀ byte ∈ rest', isDigit byte = true := fun byte hbyte =>
            hdigits' byte (List.mem_cons_of_mem _ hbyte)
          have hdigit := digit_toNat (hdigits digit List.mem_cons_self)
          have hdigit' := digit_toNat (hdigits' digit' List.mem_cons_self)
          rw [readDecimal_cons, readDecimal_cons, hrestLength] at hlt
          rw [List.cons_lt_cons_iff]
          rcases lt_trichotomy digit.toNat digit'.toNat with hless | hequal | hgreater
          · exact .inl (UInt8.lt_iff_toNat_lt.mpr hless)
          · refine .inr ⟨UInt8.toNat_inj.mp hequal, ih hrestLength hrest hrest' ?_⟩
            rw [hequal] at hlt
            omega
          · have hbound := readDecimal_lt hrest'
            have hstep : 10 ^ rest'.length * (digit'.toNat - 48 + 1) ≤
                10 ^ rest'.length * (digit.toNat - 48) := Nat.mul_le_mul_left _ (by omega)
            rw [Nat.mul_add] at hstep
            omega

/-- Numerals of one width are in the order of their numbers. -/
theorem padded_lt {width m n : Nat} (hwidth : 0 < width) (hlt : m < n) (hn : n < 10 ^ width) :
    padded width m < padded width n := by
  have hlength : (padded width m).length = (padded width n).length := by
    rw [padded_length hwidth (by omega), padded_length hwidth hn]
  refine lt_of_readDecimal_lt hlength (fun _ => isDigit_of_mem_padded)
    (fun _ => isDigit_of_mem_padded) ?_
  rw [readDecimal_padded, readDecimal_padded]
  exact hlt

/-- A difference inside equally long prefixes decides the order. -/
theorem append_lt_append_of_lt {first first' : Bytes} (hlength : first.length = first'.length)
    (hlt : first < first') (rest rest' : Bytes) : first ++ rest < first' ++ rest' := by
  induction first generalizing first' with
  | nil =>
      obtain rfl := List.eq_nil_of_length_eq_zero hlength.symm
      exact absurd hlt (List.not_lt_nil _)
  | cons byte first ih =>
      cases first' with
      | nil => simp at hlength
      | cons byte' first' =>
          rw [List.cons_append, List.cons_append, List.cons_lt_cons_iff]
          rcases List.cons_lt_cons_iff.mp hlt with hbyte | ⟨hbyte, hrest⟩
          · exact .inl hbyte
          · exact .inr ⟨hbyte, ih (by simpa using hlength) hrest⟩

namespace Layout

/-- Texts of one layout are ordered as their numbers are. -/
theorem text_lt {layout : Layout} {values values' : List Nat} (hfits : layout.Fits values)
    (hfits' : layout.Fits values') (hlt : values < values') :
    layout.text values < layout.text values' := by
  induction hfits generalizing values' with
  | nil =>
      cases hfits'
      exact absurd hlt (List.not_lt_nil _)
  | @cons field value fields values hfield _ ih =>
      cases hfits' with
      | @cons _ value' _ values' hfield' hrest' =>
          obtain ⟨width, separator⟩ := field
          simp only [text]
          rcases List.cons_lt_cons_iff.mp hlt with hvalue | ⟨rfl, hvalues⟩
          · refine append_lt_append_of_lt ?_ (padded_lt hfield.1 hvalue hfield'.2) _ _
            rw [padded_length hfield.1 hfield.2, padded_length hfield'.1 hfield'.2]
          · apply List.append_left_lt
            apply List.append_left_lt
            exact ih hrest' hvalues

end Layout

end AdaptivePi.Foundation
