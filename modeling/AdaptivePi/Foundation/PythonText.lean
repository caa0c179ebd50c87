import AdaptivePi.Foundation.Lines
import Mathlib.Algebra.Ring.Nat

/-!
Strings as Python has them: white space, decimal digits, the ends of lines that
`splitlines` knows, and the newlines that reading in text mode leaves. Unpaired
surrogates are not characters here.
-/

namespace AdaptivePi.Foundation.PythonText

/-- White space, but for the blanks from U+2000 to U+200A. -/
def spaces : Text :=
  "\t\n\x0b\x0c\r\x1c\x1d\x1e\x1f \u0085\u00a0\u1680\u2028\u2029\u202f\u205f\u3000".toList

/-- `str.isspace`, and `\s` in a regular expression. -/
def isSpace (char : Char) : Bool :=
  spaces.contains char || (0x2000 ≤ char.toNat && char.toNat ≤ 0x200a)

private theorem isDigit_bounds {char : Char} (hchar : char.isDigit = true) :
    48 ≤ char.toNat ∧ char.toNat ≤ 57 := by
  simp only [Char.isDigit, Bool.and_eq_true, decide_eq_true_eq] at hchar
  exact ⟨UInt32.le_iff_toNat_le.mp hchar.1, UInt32.le_iff_toNat_le.mp hchar.2⟩

private theorem toNat_of_isAlphanum {char : Char} (hchar : char.isAlphanum = true) : char.toNat ≤ 122 := by
  change (decide (65 ≤ char.val ∧ char.val ≤ 90) ||
    (decide (97 ≤ char.val) && decide (char.val ≤ 122)) ||
    (decide (48 ≤ char.val) && decide (char.val ≤ 57))) = true at hchar
  simp only [Bool.or_eq_true, Bool.and_eq_true, decide_eq_true_eq, UInt32.le_iff_toNat_le] at hchar
  rcases hchar with (⟨-, hupper⟩ | ⟨-, hlower⟩) | ⟨-, hdigit⟩
  · exact Nat.le_trans hupper (by decide)
  · exact hlower
  · exact Nat.le_trans hdigit (by decide)

theorem isSpace_of_isAlphanum {char : Char} (hchar : char.isAlphanum = true) : isSpace char = false := by
  have hbound := toNat_of_isAlphanum hchar
  unfold isSpace
  rw [Bool.or_eq_false_iff]
  constructor
  · rw [← Bool.not_eq_true, List.contains_iff_mem]
    intro hmem
    have hspaces : spaces.all (!·.isAlphanum) = true := by decide
    have hnotAlphanum := List.all_eq_true.mp hspaces char hmem
    rw [hchar] at hnotAlphanum
    cases hnotAlphanum
  · rw [Bool.and_eq_false_iff, decide_eq_false_iff_not]
    omega

theorem isSpace_of_isDigit {char : Char} (hchar : char.isDigit = true) : isSpace char = false := by
  apply isSpace_of_isAlphanum
  rw [Char.isAlphanum, hchar, Bool.or_true]

def strip (text : Text) : Text :=
  ((text.dropWhile isSpace).reverse.dropWhile isSpace).reverse

/-- The characters at which `splitlines` ends a line. -/
def boundaries : Text := "\n\r\x0b\x0c\x1c\x1d\x1e\u0085\u2028\u2029".toList

def isBoundary (char : Char) : Bool := boundaries.contains char

theorem isBoundary_of_isDigit {char : Char} (hchar : char.isDigit = true) :
    isBoundary char = false := by
  unfold isBoundary
  rw [← Bool.not_eq_true, List.contains_iff_mem]
  intro hmem
  have hboundaries : boundaries.all (!·.isDigit) = true := by decide
  have hnotDigit := List.all_eq_true.mp hboundaries char hmem
  rw [hchar] at hnotDigit
  cases hnotDigit

def splitlines : Text → List Text
  | [] => []
  | '\r' :: '\n' :: rest => [] :: splitlines rest
  | char :: rest =>
      if isBoundary char then [] :: splitlines rest
      else
        match splitlines rest with
        | [] => [[char]]
        | line :: lines => (char :: line) :: lines

/-- A line without boundaries is one row. -/
theorem splitlines_append_newline {line : Text} (hline : ∀ char ∈ line, isBoundary char = false)
    (rest : Text) : splitlines (line ++ '\n' :: rest) = line :: splitlines rest := by
  induction line with
  | nil => rfl
  | cons char line ih =>
      have hchar := hline char List.mem_cons_self
      have hnotReturn : char ≠ '\r' := by
        rintro rfl
        exact absurd hchar (by decide)
      rw [List.cons_append, splitlines, if_neg (by simp [hchar]),
        ih fun other hother => hline other (List.mem_cons_of_mem _ hother)]
      exact fun _ h => absurd h hnotReturn

/-- Lines without boundaries are split at their newlines. -/
theorem splitlines_unlines {lines : List Text}
    (hlines : ∀ line ∈ lines, ∀ char ∈ line, isBoundary char = false) :
    splitlines (unlines lines) = lines := by
  induction lines with
  | nil => rfl
  | cons line lines ih =>
      rw [unlines_cons, splitlines_append_newline (hlines line List.mem_cons_self),
        ih fun other hother => hlines other (List.mem_cons_of_mem _ hother)]

theorem isBoundary_of_mem_splitlines {text line : Text} (hline : line ∈ splitlines text) :
    ∀ char ∈ line, isBoundary char = false := by
  induction text using splitlines.induct generalizing line with
  | case1 => cases hline
  | case2 rest ih =>
      rw [splitlines] at hline
      rcases List.mem_cons.mp hline with rfl | hline
      · simp
      · exact ih hline
  | case3 char rest hnot hboundary ih =>
      rw [splitlines, if_pos hboundary] at hline
      · rcases List.mem_cons.mp hline with rfl | hline
        · simp
        · exact ih hline
      · exact hnot
  | case4 char rest hnot hboundary hrest ih =>
      rw [splitlines, if_neg hboundary, hrest] at hline
      · rw [List.mem_singleton] at hline
        simpa [hline] using hboundary
      · exact hnot
  | case5 char rest hnot hboundary first lines hrest ih =>
      rw [splitlines, if_neg hboundary, hrest] at hline
      · rcases List.mem_cons.mp hline with rfl | hline
        · intro other hother
          rcases List.mem_cons.mp hother with rfl | hother
          · simpa using hboundary
          · exact ih (by rw [hrest]; exact List.mem_cons_self) other hother
        · exact ih (by rw [hrest]; exact List.mem_cons_of_mem _ hline)
      · exact hnot

/-- The decimal digits of a version of Unicode. -/
structure Unicode where
  decimal : Char → Option Nat
  decimal_ascii : ∀ char : Char, char.toNat < 128 →
    decimal char = if char.isDigit then some (char.toNat - 48) else none

def Unicode.ascii : Unicode where
  decimal char := if char.isDigit then some (char.toNat - 48) else none
  decimal_ascii _ _ := rfl

/-- The largest number of digits that `int` reads, unless it is set otherwise. -/
def maxDigits : Nat := 4300

namespace Unicode

variable (unicode : Unicode)

/-- `\d` in a regular expression. -/
def isDecimal (char : Char) : Bool := (unicode.decimal char).isSome

def value (digits : Text) : Nat :=
  digits.foldl (fun n char => 10 * n + (unicode.decimal char).getD 0) 0

/-- `int` on digits, with `none` for a `ValueError`. -/
def int (digits : Text) : Option Nat :=
  if digits.length ≤ maxDigits then some (unicode.value digits) else none

theorem isDecimal_ascii {char : Char} (hchar : char.toNat < 128) :
    unicode.isDecimal char = char.isDigit := by
  unfold isDecimal
  rw [unicode.decimal_ascii char hchar]
  cases char.isDigit <;> rfl

private theorem decimal_of_isDigit {char : Char} (hchar : char.isDigit = true) :
    unicode.decimal char = some (char.toNat - '0'.toNat) := by
  have hrange := isDigit_bounds hchar
  rw [unicode.decimal_ascii char (by omega), if_pos hchar]
  rfl

theorem isDecimal_of_mem_toDigits {n : Nat} {char : Char} (hchar : char ∈ Nat.toDigits 10 n) :
    unicode.isDecimal char = true := by
  unfold isDecimal
  rw [unicode.decimal_of_isDigit (Nat.isDigit_of_mem_toDigits (by omega) (by omega) hchar)]
  rfl

theorem value_toDigits (n : Nat) : unicode.value (Nat.toDigits 10 n) = n := by
  have hfold : ∀ (digits : Text) (init : Nat), (∀ char ∈ digits, char.isDigit = true) →
      digits.foldl (fun n char => 10 * n + (unicode.decimal char).getD 0) init =
        Nat.ofDigitChars 10 digits init := by
    intro digits
    induction digits with
    | nil => exact fun _ _ => rfl
    | cons char digits ih =>
        intro init hdigits
        rw [List.foldl_cons, Nat.ofDigitChars_cons, ih _ fun c hc => hdigits c (by simp [hc]),
          unicode.decimal_of_isDigit (hdigits char (by simp)), Option.getD_some]
  unfold value
  rw [hfold _ _ fun char hchar => Nat.isDigit_of_mem_toDigits (by omega) (by omega) hchar,
    Nat.ofDigitChars_toDigits (by omega) (by omega)]

theorem int_eq_some {digits : Text} {n : Nat} (h : unicode.int digits = some n) :
    unicode.value digits = n ∧ digits.length ≤ maxDigits := by
  unfold int at h
  split at h
  · rename_i hlength
    exact ⟨Option.some.inj h, hlength⟩
  · cases h

theorem isSome_int {digits : Text} :
    (unicode.int digits).isSome = true ↔ digits.length ≤ maxDigits := by
  unfold int
  split <;> simp_all

end Unicode

/-- What text mode makes of `\r\n` and `\r`. -/
def universalNewlines : Text → Text
  | [] => []
  | '\r' :: '\n' :: rest => '\n' :: universalNewlines rest
  | char :: rest => (if char = '\r' then '\n' else char) :: universalNewlines rest

/-- Texts without carriage returns are read as they are. -/
theorem universalNewlines_eq_self {text : Text} (htext : '\r' ∉ text) :
    universalNewlines text = text := by
  induction text using universalNewlines.induct with
  | case1 => rfl
  | case2 rest ih => exact absurd List.mem_cons_self htext
  | case3 char rest hnot ih =>
      rw [List.mem_cons, not_or] at htext
      rw [universalNewlines, if_neg fun heq => htext.1 heq.symm, ih htext.2]
      exact hnot

/-- Text mode keeps the lines, but for empty ones. -/
private theorem lines_universalNewlines (text : Text) :
    ∃ first lines lines', (universalNewlines text).splitOnP (· == '\n') = first :: lines ∧
      text.splitOnP isBreak = first :: lines' ∧
      ∀ line, line ≠ [] → (line ∈ lines ↔ line ∈ lines') := by
  induction text using universalNewlines.induct with
  | case1 => exact ⟨[], [], [], rfl, rfl, fun _ _ => Iff.rfl⟩
  | case2 rest ih =>
      obtain ⟨first, lines, lines', hlines, hlines', hiff⟩ := ih
      refine ⟨[], first :: lines, [] :: first :: lines', ?_, ?_, ?_⟩
      · rw [universalNewlines, List.splitOnP_cons_eq_if_modifyHead, hlines]
        rfl
      · rw [List.splitOnP_cons_eq_if_modifyHead, List.splitOnP_cons_eq_if_modifyHead, hlines']
        rfl
      · intro line hline
        simp [hline, hiff line hline]
  | case3 char rest hnot ih =>
      obtain ⟨first, lines, lines', hlines, hlines', hiff⟩ := ih
      have hcons : universalNewlines (char :: rest) =
          (if char = '\r' then '\n' else char) :: universalNewlines rest := by
        rw [universalNewlines]
        exact hnot
      rw [hcons, List.splitOnP_cons_eq_if_modifyHead, List.splitOnP_cons_eq_if_modifyHead, hlines,
        hlines']
      by_cases hbreak : isBreak char = true
      · refine ⟨[], first :: lines, first :: lines', ?_, by rw [if_pos hbreak], ?_⟩
        · rcases (by simpa [isBreak] using hbreak : char = '\n' ∨ char = '\r') with rfl | rfl <;> rfl
        · intro line hline
          simp [hiff line hline]
      · obtain ⟨hnewline, hreturn⟩ : char ≠ '\n' ∧ char ≠ '\r' := by simpa [isBreak] using hbreak
        exact ⟨char :: first, lines, lines', by simp [hnewline, hreturn], by simp [hbreak], hiff⟩

/-- Text mode keeps the lines that are not empty. -/
theorem mem_lines_universalNewlines {line : Text} (hline : line ≠ []) (text : Text) :
    line ∈ (universalNewlines text).splitOnP (· == '\n') ↔ line ∈ text.splitOnP isBreak := by
  obtain ⟨first, lines, lines', hlines, hlines', hiff⟩ := lines_universalNewlines text
  rw [hlines, hlines', List.mem_cons, List.mem_cons, hiff line hline]

section Shell

def isShellPlain (char : Char) : Bool := char.isAlphanum || "_@%+=:,./-".toList.contains char

/-- `shlex.quote` -/
def shlexQuote (word : Text) : Text :=
  if word = [] then "''".toList
  else if word.all isShellPlain then word
  else '\'' :: word.flatMap (fun char => if char = '\'' then "'\"'\"'".toList else [char]) ++ ['\'']

/-- `shlex.join` -/
def shlexJoin (words : List Text) : Text := " ".toList.intercalate (words.map shlexQuote)

end Shell

end AdaptivePi.Foundation.PythonText
