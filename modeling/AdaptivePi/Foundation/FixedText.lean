import AdaptivePi.Foundation.FloatText
import AdaptivePi.Foundation.PythonText
import Mathlib.Data.List.Infix

namespace AdaptivePi.Foundation

open PythonText

/-- An even number is the nearest one up to half a unit, ties included. -/
theorem roundHalfEven_eq_iff {v : ℚ} {n : Nat} (hv : 0 ≤ v) (heven : n % 2 = 0) :
    roundHalfEven v = n ↔ (n : ℚ) ≤ v + 1 / 2 ∧ v ≤ n + 1 / 2 := by
  have hlow : ((⌊v⌋.toNat : Nat) : ℚ) = ⌊v⌋ := by
    exact_mod_cast Int.toNat_of_nonneg (Int.floor_nonneg.mpr hv)
  have hbelow : ((⌊v⌋.toNat : Nat) : ℚ) ≤ v := hlow ▸ Int.floor_le v
  have habove : v < (⌊v⌋.toNat : Nat) + 1 := hlow ▸ Int.lt_floor_add_one v
  unfold roundHalfEven
  dsimp only
  generalize ⌊v⌋.toNat = low at *
  -- Whatever is half a unit away lies on one of the two sides of `v`.
  have hnear : (n : ℚ) ≤ v + 1 / 2 → v ≤ n + 1 / 2 → low = n ∨ low + 1 = n := by
    intro hge hle
    have hupper : n < low + 2 := by
      have h : (n : ℚ) < (low : ℚ) + 2 := by linarith
      exact_mod_cast h
    have hlower : low < n + 1 := by
      have h : (low : ℚ) < (n : ℚ) + 1 := by linarith
      exact_mod_cast h
    omega
  split_ifs with hdown hup htie
  · constructor
    · rintro rfl
      constructor <;> linarith
    · rintro ⟨hge, hle⟩
      refine (hnear hge hle).resolve_right ?_
      rintro rfl
      push_cast at hge
      linarith
  · constructor
    · rintro rfl
      push_cast
      constructor <;> linarith
    · rintro ⟨hge, hle⟩
      refine (hnear hge hle).resolve_left ?_
      rintro rfl
      linarith
  · constructor
    · rintro rfl
      constructor <;> linarith
    · rintro ⟨hge, hle⟩
      have hcases := hnear hge hle
      omega
  · constructor
    · rintro rfl
      push_cast
      constructor <;> linarith
    · rintro ⟨hge, hle⟩
      have hcases := hnear hge hle
      omega

/-- Rounding does not pass a natural number. -/
theorem roundHalfEven_le {v : ℚ} {n : Nat} (hv : 0 ≤ v) (hle : v ≤ n) : roundHalfEven v ≤ n := by
  have hlow : ((⌊v⌋.toNat : Nat) : ℚ) = ⌊v⌋ := by
    exact_mod_cast Int.toNat_of_nonneg (Int.floor_nonneg.mpr hv)
  have hbelow : ((⌊v⌋.toNat : Nat) : ℚ) ≤ v := hlow ▸ Int.floor_le v
  unfold roundHalfEven
  dsimp only
  generalize ⌊v⌋.toNat = low at *
  have hlown : low ≤ n := by exact_mod_cast hbelow.trans hle
  by_cases hdown : v - low < 1 / 2
  · rw [if_pos hdown]
    exact hlown
  · have hlt : (low : ℚ) < n := by linarith
    have hnext : low + 1 ≤ n := by exact_mod_cast hlt
    split_ifs <;> omega

/-- A number with leading zeros. -/
def zeroPadded (width n : Nat) : Text :=
  List.replicate (width - (Nat.toDigits 10 n).length) '0' ++ Nat.toDigits 10 n

/-- A nonnegative number with as many decimals, as the format `f` has it. -/
def fixedText (decimals : Nat) (v : ℚ) : Text :=
  let scaled := roundHalfEven (v * 10 ^ decimals)
  Nat.toDigits 10 (scaled / 10 ^ decimals) ++
    if decimals = 0 then [] else '.' :: zeroPadded decimals (scaled % 10 ^ decimals)

theorem isDigit_of_mem_toDigits_ten {n : Nat} {char : Char} (hchar : char ∈ Nat.toDigits 10 n) :
    char.isDigit = true :=
  Nat.isDigit_of_mem_toDigits (by omega) (by omega) hchar

theorem toDigits_ten_injective {m n : Nat} (h : Nat.toDigits 10 m = Nat.toDigits 10 n) : m = n := by
  rw [← @Nat.ofDigitChars_ten_toDigits m, h, Nat.ofDigitChars_ten_toDigits]

/-- Leading zeros can be told from digits. -/
theorem zeroPadded_injective {width m n : Nat} (h : zeroPadded width m = zeroPadded width n) :
    m = n := by
  have hvalue : ∀ k, Nat.ofDigitChars 10 (zeroPadded width k) 0 = k := by
    intro k
    rw [zeroPadded, Nat.ofDigitChars_append, Nat.ofDigitChars_replicate_zero, mul_zero,
      Nat.ofDigitChars_ten_toDigits]
  rw [← hvalue m, h, hvalue]

theorem isDigit_of_mem_zeroPadded {width n : Nat} {char : Char}
    (hchar : char ∈ zeroPadded width n) : char.isDigit = true := by
  rcases List.mem_append.mp hchar with hzero | hdigit
  · rw [(List.mem_replicate.mp hzero).2]
    rfl
  · exact isDigit_of_mem_toDigits_ten hdigit

theorem mem_fixedText {decimals : Nat} {v : ℚ} {char : Char} (hchar : char ∈ fixedText decimals v) :
    char.isDigit = true ∨ char = '.' := by
  unfold fixedText at hchar
  rcases List.mem_append.mp hchar with hwhole | hfraction
  · exact .inl (isDigit_of_mem_toDigits_ten hwhole)
  · split_ifs at hfraction with hdecimals
    · cases hfraction
    · rcases List.mem_cons.mp hfraction with rfl | hdigit
      · exact .inr rfl
      · exact .inl (isDigit_of_mem_zeroPadded hdigit)

theorem zeroPadded_length {width n : Nat} (hwidth : 0 < width) (hn : n < 10 ^ width) :
    (zeroPadded width n).length = width := by
  have hlength := (Nat.length_toDigits_le_iff (b := 10) (n := n) (by omega) hwidth).mpr hn
  rw [zeroPadded, List.length_append, List.length_replicate]
  omega

/-- The length is bounded by the digits before the point. -/
theorem fixedText_length_le {decimals width : Nat} {v : ℚ} (hdecimals : 0 < decimals)
    (hwidth : 0 < width) (hbound : roundHalfEven (v * 10 ^ decimals) < 10 ^ (width + decimals)) :
    (fixedText decimals v).length ≤ width + 1 + decimals := by
  have hpositive : 0 < 10 ^ decimals := by positivity
  have hwhole : roundHalfEven (v * 10 ^ decimals) / 10 ^ decimals < 10 ^ width := by
    rw [Nat.div_lt_iff_lt_mul hpositive, ← Nat.pow_add]
    exact hbound
  have hlength := (Nat.length_toDigits_le_iff (b := 10) (by omega) hwidth).mpr hwhole
  have hfraction := zeroPadded_length hdecimals
    (Nat.mod_lt (roundHalfEven (v * 10 ^ decimals)) hpositive)
  unfold fixedText
  dsimp only
  rw [if_neg (by omega), List.length_append, List.length_cons, hfraction]
  omega

/-- The text shows the rounded number. -/
theorem fixedText_eq_iff {decimals : Nat} {v w : ℚ} :
    fixedText decimals v = fixedText decimals w ↔
      roundHalfEven (v * 10 ^ decimals) = roundHalfEven (w * 10 ^ decimals) := by
  constructor
  · intro h
    unfold fixedText at h
    dsimp only at h
    generalize roundHalfEven (v * 10 ^ decimals) = m at *
    generalize roundHalfEven (w * 10 ^ decimals) = n at *
    by_cases hdecimals : decimals = 0
    · subst hdecimals
      have heq : m / 10 ^ 0 = n / 10 ^ 0 := toDigits_ten_injective (by simpa using h)
      simpa using heq
    · rw [if_neg hdecimals, if_neg hdecimals] at h
      have hpoint : ∀ k, '.' ∉ Nat.toDigits 10 k :=
        fun k hmem => absurd (isDigit_of_mem_toDigits_ten hmem) (by decide)
      obtain ⟨hwhole, hfraction⟩ := append_cons_inj_left (hpoint _) (hpoint _) h
      rw [← Nat.div_add_mod m (10 ^ decimals), toDigits_ten_injective hwhole,
        zeroPadded_injective hfraction, Nat.div_add_mod]
  · intro h
    rw [fixedText, h]
    rfl

/-- A word that ends with a mark occurs where the only mark is. -/
theorem snoc_occurs_iff {α : Type} {mark : α} {word left right : List α}
    (hword : mark ∉ word) (hleft : mark ∉ left) (hright : mark ∉ right) :
    word ++ [mark] <:+: left ++ mark :: right ↔ word <:+ left := by
  constructor
  · rintro ⟨before, after, h⟩
    rw [List.append_assoc, List.append_assoc, List.singleton_append, ← List.append_assoc] at h
    by_cases hbefore : mark ∈ before
    · obtain ⟨first, rest, rfl, hfirst⟩ := List.eq_append_cons_of_mem hbefore
      rw [List.append_assoc, List.append_assoc, List.cons_append] at h
      obtain ⟨-, hrest⟩ := append_cons_inj_left hfirst hleft h
      exact absurd (hrest ▸ by simp) hright
    · have hnot : mark ∉ before ++ word := by
        rw [List.mem_append]
        exact not_or_intro hbefore hword
      exact ⟨before, (append_cons_inj_left hnot hleft h).1⟩
  · rintro ⟨before, rfl⟩
    exact ⟨before, right, by simp⟩

end AdaptivePi.Foundation
