import AdaptivePi.Foundation.FixedText
import AdaptivePi.Foundation.Json
import Mathlib.Data.Bool.AllAny

/-!
JSON as `json.dumps` writes it: in ASCII, with an indentation, which puts every item
and every member on a line of its own. What is written is read back as it was, except
for floats, whose literals are not looked at here, and for integers with more digits
than Python converts.
-/

namespace AdaptivePi.Foundation

namespace Json

open Reader

section Writing

/-- The letters that the writer uses. -/
def writtenEscapes : List (Char × Char) := escapes.filter (·.1 ≠ '/')

def hexDigits (code : Nat) : Text :=
  [Nat.digitChar (code / 4096 % 16), Nat.digitChar (code / 256 % 16), Nat.digitChar (code / 16 % 16),
    Nat.digitChar (code % 16)]

def escapeCode (code : Nat) : Text := '\\' :: 'u' :: hexDigits code

/-- A character that is not in ASCII, as one code or as a pair of surrogates. -/
def escapeWide (char : Char) : Text :=
  if char.toNat < 0x10000 then escapeCode char.toNat
  else escapeCode (0xd800 + (char.toNat - 0x10000) / 0x400) ++
    escapeCode (0xdc00 + (char.toNat - 0x10000) % 0x400)

def escapeChar (char : Char) : Text :=
  match writtenEscapes.find? (·.2 = char) with
  | some (letter, _) => ['\\', letter]
  | none => if 32 ≤ char.toNat ∧ char.toNat < 127 then [char] else escapeWide char

def quote (text : Text) : Text := '"' :: text.flatMap escapeChar ++ ['"']

def integer : Int → Text
  | .ofNat n => Nat.toDigits 10 n
  | .negSucc n => '-' :: Nat.toDigits 10 (n + 1)

def newLine (indent level : Nat) : Text := '\n' :: List.replicate (indent * level) ' '

mutual

/-- The text of a value inside of some brackets. -/
def write (indent level : Nat) : Json → Text
  | null => "null".toList
  | bool value => if value then "true".toList else "false".toList
  | int value => integer value
  | float literal => literal
  | string value => quote value
  | array [] => "[]".toList
  | array (item :: items) =>
      '[' :: newLine indent (level + 1) ++ write indent (level + 1) item ++
        writeItems indent (level + 1) items ++ newLine indent level ++ [']']
  | object [] => "\x7b\x7d".toList
  | object ((key, value) :: members) =>
      '\x7b' :: newLine indent (level + 1) ++ quote key ++ ": ".toList ++
        write indent (level + 1) value ++ writeMembers indent (level + 1) members ++
        newLine indent level ++ ['\x7d']

def writeItems (indent level : Nat) : List Json → Text
  | [] => []
  | item :: items => ',' :: newLine indent level ++ write indent level item ++ writeItems indent level items

def writeMembers (indent level : Nat) : List (Text × Json) → Text
  | [] => []
  | (key, value) :: members =>
      ',' :: newLine indent level ++ quote key ++ ": ".toList ++ write indent level value ++
        writeMembers indent level members

end

/-- `json.dumps(value, indent=indent)` -/
def dumps (indent : Nat) (value : Json) : Text := write indent 0 value

/-- Values without floats and without integers of too many digits. -/
inductive IsWritable : Json → Prop where
  | null : IsWritable null
  | bool (value : Bool) : IsWritable (bool value)
  | int {value : Int} (hvalue : (Nat.toDigits 10 value.natAbs).length ≤ PythonText.maxDigits) :
      IsWritable (int value)
  | string (value : Text) : IsWritable (string value)
  | array {items : List Json} (hitems : ∀ item ∈ items, IsWritable item) : IsWritable (array items)
  | object {members : List (Text × Json)} (hmembers : ∀ member ∈ members, IsWritable member.2) :
      IsWritable (object members)

end Writing

section Strings

variable {char : Char} {code : Nat} {text rest : Text}

theorem hexValue_digitChar {digit : Nat} (hdigit : digit < 16) :
    hexValue (Nat.digitChar digit) = some digit := by
  have hall : ∀ digit < 16, hexValue (Nat.digitChar digit) = some digit := by decide
  exact hall digit hdigit

theorem readHex_hexDigits (hcode : code < 0x10000) (rest : Text) :
    readHex (hexDigits code ++ rest) = some (code, rest) := by
  have hdigits : (hexDigits code).mapM hexValue =
      some [code / 4096 % 16, code / 256 % 16, code / 16 % 16, code % 16] := by
    simp [hexDigits, hexValue_digitChar, Nat.mod_lt]
  have hsum : 16 * (16 * (16 * (16 * 0 + code / 4096 % 16) + code / 256 % 16) + code / 16 % 16) +
      code % 16 = code := by
    omega
  change ((hexDigits code).mapM hexValue).bind (fun digits =>
    some (digits.foldl (fun code digit => 16 * code + digit) 0, rest)) = _
  rw [hdigits]
  exact congrArg (fun code => some (code, rest)) hsum

/-- The letter of a code is not one of the short escapes. -/
theorem readEscape_code (hcode : code < 0x10000) (hhigh : isHighSurrogate code = false)
    (hlow : isLowSurrogate code = false) (rest : Text) :
    readEscape ('u' :: (hexDigits code ++ rest)) = some (Char.ofNat code, rest) := by
  have hsymbol : symbol ('u' :: (hexDigits code ++ rest)) = some ('u', hexDigits code ++ rest) := rfl
  have hletter : escapes.lookup 'u' = none := by decide
  rw [readEscape, bind_of_some hsymbol, hletter]
  dsimp only
  rw [if_pos rfl, bind_of_some (readHex_hexDigits hcode rest), hhigh, hlow]
  rfl

theorem isHighSurrogate_iff : isHighSurrogate code = true ↔ 0xd800 ≤ code ∧ code ≤ 0xdbff := by
  simp [isHighSurrogate]

theorem isLowSurrogate_iff : isLowSurrogate code = true ↔ 0xdc00 ≤ code ∧ code ≤ 0xdfff := by
  simp [isLowSurrogate]

/-- A pair of surrogates is read as one character. -/
theorem readEscape_pair {high low : Nat} (hhigh : isHighSurrogate high = true)
    (hlow : isLowSurrogate low = true) (rest : Text) :
    readEscape ('u' :: (hexDigits high ++ (escapeCode low ++ rest))) =
      some (Char.ofNat (0x10000 + (high - 0xd800) * 0x400 + (low - 0xdc00)), rest) := by
  have hsymbol : symbol ('u' :: (hexDigits high ++ (escapeCode low ++ rest))) =
      some ('u', hexDigits high ++ (escapeCode low ++ rest)) := rfl
  have hletter : escapes.lookup 'u' = none := by decide
  have hhighCode : high < 0x10000 := lt_of_le_of_lt (isHighSurrogate_iff.mp hhigh).2 (by decide)
  have hlowCode : low < 0x10000 := lt_of_le_of_lt (isLowSurrogate_iff.mp hlow).2 (by decide)
  rw [readEscape, bind_of_some hsymbol, hletter]
  dsimp only
  rw [if_pos rfl, bind_of_some (readHex_hexDigits hhighCode _), if_pos hhigh]
  change (readHex (hexDigits low ++ rest)).bind _ = _
  rw [readHex_hexDigits hlowCode, Option.bind_some]
  exact if_pos hlow

theorem toNat_valid (char : Char) :
    char.toNat < 0xd800 ∨ (0xdfff < char.toNat ∧ char.toNat < 0x110000) := char.valid

/-- No character is a surrogate. -/
theorem not_isSurrogate (char : Char) :
    isHighSurrogate char.toNat = false ∧ isLowSurrogate char.toNat = false := by
  have hvalid := toNat_valid char
  rw [← Bool.not_eq_true, ← Bool.not_eq_true, isHighSurrogate_iff, isLowSurrogate_iff]
  omega

/-- The pair of surrogates for a code. -/
theorem surrogates_spec {code : Nat} (hwide : 0x10000 ≤ code) (hcode : code < 0x110000) :
    isHighSurrogate (0xd800 + (code - 0x10000) / 0x400) = true ∧
      isLowSurrogate (0xdc00 + (code - 0x10000) % 0x400) = true ∧
      0x10000 + (0xd800 + (code - 0x10000) / 0x400 - 0xd800) * 0x400 +
        (0xdc00 + (code - 0x10000) % 0x400 - 0xdc00) = code := by
  rw [isHighSurrogate_iff, isLowSurrogate_iff]
  omega

/-- A character outside of ASCII is read back. -/
theorem readChars_wide (char : Char) (fuel : Nat) (text : Text) :
    readChars (fuel + 1) (escapeWide char ++ text) =
      (readChars fuel text).map fun result => (char :: result.1, result.2) := by
  have hescape : ∃ letters, escapeWide char ++ text = '\\' :: letters ∧
      readEscape letters = some (char, text) := by
    unfold escapeWide
    split
    · rename_i hcode
      refine ⟨_, rfl, ?_⟩
      obtain ⟨hhigh, hlow⟩ := not_isSurrogate char
      have hread := readEscape_code hcode hhigh hlow text
      rwa [Char.ofNat_toNat] at hread
    · rename_i hcode
      have hvalid : char.toNat < 0x110000 := by
        have h := toNat_valid char
        omega
      obtain ⟨hhigh, hlow, hsum⟩ := surrogates_spec (Nat.le_of_not_lt hcode) hvalid
      have hread := readEscape_pair hhigh hlow text
      rw [hsum, Char.ofNat_toNat] at hread
      refine ⟨_, ?_, hread⟩
      rw [List.append_assoc]
      rfl
  obtain ⟨letters, htext, hread⟩ := hescape
  have hsymbol : symbol ('\\' :: letters) = some ('\\', letters) := rfl
  rw [htext, readChars, bind_of_some hsymbol, if_neg (by decide), if_pos rfl, bind_of_some hread]
  exact map_apply (char :: ·) text

/-- A character is read as it was before it was escaped. -/
theorem readChars_escapeChar (char : Char) (fuel : Nat) (text : Text) :
    readChars (fuel + 1) (escapeChar char ++ text) =
      (readChars fuel text).map fun result => (char :: result.1, result.2) := by
  unfold escapeChar
  cases hfind : writtenEscapes.find? (·.2 = char) with
  | some pair =>
      have hall : ∀ pair ∈ writtenEscapes, escapes.lookup pair.1 = some pair.2 := by decide
      have hletter := hall pair (List.mem_of_find?_eq_some hfind)
      have hchar : pair.2 = char := by simpa using List.find?_some hfind
      rw [hchar] at hletter
      exact readChars_escape hletter fuel text
  | none =>
      have hnot : ∀ letter other, (letter, other) ∈ writtenEscapes → char ≠ other := by
        intro letter other hmem hchar
        have hne := List.find?_eq_none.mp hfind (letter, other) hmem
        exact absurd hchar.symm (by simpa using hne)
      dsimp only
      split
      · rename_i hplain
        exact readChars_plain (hnot '"' '"' (by decide)) (hnot '\\' '\\' (by decide)) hplain.1 fuel text
      · exact readChars_wide char fuel text

theorem length_escapeChar_pos (char : Char) : 0 < (escapeChar char).length := by
  unfold escapeChar escapeWide
  split
  · exact Nat.succ_pos _
  · split
    · exact Nat.succ_pos _
    · split
      · exact Nat.succ_pos _
      · exact Nat.succ_pos _

theorem readChars_escaped {fuel : Nat} (hfuel : text.length < fuel) (rest : Text) :
    readChars fuel (text.flatMap escapeChar ++ '"' :: rest) = some (text, rest) := by
  induction text generalizing fuel with
  | nil =>
      obtain ⟨fuel, rfl⟩ : ∃ fuel', fuel = fuel' + 1 := ⟨fuel - 1, by simp at hfuel; omega⟩
      exact readChars_quote fuel rest
  | cons char text ih =>
      obtain ⟨fuel, rfl⟩ : ∃ fuel', fuel = fuel' + 1 := ⟨fuel - 1, by simp at hfuel; omega⟩
      rw [List.flatMap_cons, List.append_assoc, readChars_escapeChar, ih (by simpa using hfuel)]
      rfl

/-- A string is read back, whatever it has. -/
theorem reads_quote (text : Text) : Reads readString (quote text) text := by
  intro rest
  have hlength : text.length ≤ (text.flatMap escapeChar).length := by
    induction text with
    | nil => exact Nat.le_refl _
    | cons char text ih =>
        have hchar := length_escapeChar_pos char
        simp only [List.flatMap_cons, List.length_append, List.length_cons]
        omega
  have htext : quote text ++ rest = '"' :: (text.flatMap escapeChar ++ '"' :: rest) := by
    simp [quote]
  rw [htext, readString]
  apply readChars_escaped
  rw [List.length_append, List.length_cons]
  omega

end Strings

section Values

variable {depth : Nat} {text rest pad : Text} {close : Char} {α γ : Type} {read : Reader Char α}
  {write : γ → Text} {value : γ → α} {items : List γ}

theorem outcome_null : Outcome (readValue (depth + 1)) "null".toList (some null) := fun _ _ => rfl

theorem outcome_bool (flag : Bool) :
    Outcome (readValue (depth + 1)) (if flag then "true".toList else "false".toList)
      (some (bool flag)) := by
  cases flag with
  | false => exact fun _ _ => rfl
  | true => exact fun _ _ => rfl

/-- Only zero begins with a zero. -/
theorem head_toDigits {n : Nat} (hn : n ≠ 0) : (Nat.toDigits 10 n).head? ≠ some '0' := by
  induction n using Nat.strongRecOn with
  | ind n ih =>
      by_cases hsmall : n < 10
      · rw [Nat.toDigits_of_lt_base hsmall]
        have hall : ∀ n < 10, n ≠ 0 → [Nat.digitChar n].head? ≠ some '0' := by decide
        exact hall n hsmall hn
      · rw [Nat.toDigits_of_base_le (by decide) (Nat.le_of_not_lt hsmall),
          List.head?_append_of_ne_nil _ Nat.toDigits_ne_nil]
        exact ih (n / 10) (by omega) (by omega)

theorem outcome_zero : Outcome (readValue (depth + 1)) ['0'] (some (int 0)) := by
  intro rest hrest
  have hminus : (('0' :: rest).takeWhile (· = '-')).take 1 = [] := rfl
  have hinteger : integerPart ('0' :: rest) = ['0'] := rfl
  have hread : readNumber ('0' :: rest) = some (int 0, rest) := by
    unfold readNumber
    simp only [hminus, List.length_nil, List.drop_zero, hinteger, Nat.zero_add, List.length_singleton,
      List.drop_succ_cons, fraction_of_terminated hrest, exponent_of_terminated hrest, if_true,
      and_self, List.cons_ne_nil, if_false]
    rfl
  exact hread

/-- A sign and digits without a leading zero. -/
theorem outcome_negative {digits : Text} (hne : digits ≠ [])
    (hdigits : ∀ char ∈ digits, char.isDigit = true) (hzero : digits.head? ≠ some '0')
    (hlength : digits.length ≤ PythonText.maxDigits) :
    Outcome (readValue (depth + 1)) ('-' :: digits) (some (int (-Nat.ofDigitChars 10 digits 0))) := by
  intro rest hrest
  obtain ⟨first, others, rfl⟩ := List.exists_cons_of_ne_nil hne
  have hfirst : first.isDigit = true := hdigits first List.mem_cons_self
  have hnot : ∀ char : Char, char.isDigit = false → first ≠ char := by
    rintro char hchar rfl
    rw [hfirst] at hchar
    cases hchar
  have hminus : (('-' :: first :: (others ++ rest)).takeWhile (· = '-')).take 1 = ['-'] := by
    simp [hnot '-' (by decide)]
  have hinteger : integerPart (first :: (others ++ rest)) = first :: others := by
    unfold integerPart
    split
    · rename_i heq
      exact absurd (congrArg some (List.cons.inj heq).1) hzero
    · exact takeWhile_digits hdigits hrest
  have hread : readNumber ('-' :: first :: (others ++ rest)) =
      some (int (-Nat.ofDigitChars 10 (first :: others) 0), rest) := by
    have hdrop : ('-' :: first :: (others ++ rest)).drop (1 + (first :: others).length) = rest := by
      rw [Nat.add_comm, List.drop_succ_cons]
      exact List.drop_left
    unfold readNumber
    simp only [hminus, List.length_singleton, List.drop_succ_cons, List.drop_zero, hinteger, hdrop,
      fraction_of_terminated hrest, exponent_of_terminated hrest, if_true, and_self,
      List.cons_ne_nil, if_false, hlength, List.length_nil, Int.neg_mul, Int.one_mul]
  have hconstant : (constants.find? fun constant =>
      constant.1.isPrefixOf ('-' :: first :: (others ++ rest))) = none := by
    have hinfinity : first ≠ 'I' := hnot 'I' (by decide)
    simp [constants, List.isPrefixOf, Ne.symm hinfinity]
  rw [readValue, List.cons_append, List.cons_append]
  dsimp only
  rw [List.head?_cons, if_neg (by decide), if_neg (by decide), if_neg (by decide), hconstant]
  exact hread

theorem outcome_integer {n : Int} (hdigits : (Nat.toDigits 10 n.natAbs).length ≤ PythonText.maxDigits) :
    Outcome (readValue (depth + 1)) (integer n) (some (int n)) := by
  cases n with
  | ofNat n =>
      by_cases hn : n = 0
      · subst hn
        exact outcome_zero
      · have hread := @outcome_int depth _ Nat.toDigits_ne_nil
          (fun _ hchar => isDigit_of_mem_toDigits_ten hchar) (head_toDigits hn)
        rw [if_pos (by simpa using hdigits), Nat.ofDigitChars_ten_toDigits] at hread
        exact hread
  | negSucc n =>
      have hread := @outcome_negative depth _ Nat.toDigits_ne_nil
        (fun _ hchar => isDigit_of_mem_toDigits_ten hchar) (head_toDigits n.succ_ne_zero) hdigits
      rw [Nat.ofDigitChars_ten_toDigits] at hread
      exact hread

/-- Blanks are skipped up to the next character that is not one. -/
theorem skipBlanks_append (hpad : ∀ char ∈ pad, isBlank char = true)
    (htext : ∀ char ∈ text.head?, isBlank char = false) :
    skipBlanks (pad ++ text) = some ((), text) := by
  have hskip := skipBlanks_of_not_blank htext
  unfold skipBlanks at hskip ⊢
  rw [List.dropWhile_append_of_pos hpad]
  exact hskip

theorem isNumberChar_of_isBlank {char : Char} (hchar : isBlank char = true) :
    isNumberChar char = false := by
  have hall : ∀ char ∈ [' ', '\t', '\n', '\r'], isNumberChar char = false :=
    List.all_iff_forall_prop.mp rfl
  apply hall
  simpa [isBlank, or_assoc] using hchar

/-- Items on lines of their own, from the first one to the closing bracket. -/
theorem readItems_laid (hclose : IsClosing close) {last : Text}
    (hpad : ∀ char ∈ pad, isBlank char = true) (hlast : ∀ char ∈ last, isBlank char = true)
    {item : γ} (hread : ∀ other ∈ item :: items, Outcome read (write other) (some (value other)))
    (hstarts : ∀ other ∈ item :: items, Starts close (write other)) {fuel : Nat}
    (hfuel : items.length < fuel) (rest : Text) :
    readItems read close fuel (write item ++
        ((items.flatMap fun item => ',' :: (pad ++ write item)) ++ (last ++ close :: rest))) =
      some ((item :: items).map value, rest) := by
  induction items generalizing item fuel with
  | nil =>
      obtain ⟨fuel, rfl⟩ : ∃ fuel', fuel = fuel' + 1 := ⟨fuel - 1, by omega⟩
      have hterminated : Terminated (last ++ close :: rest) := by
        cases last with
        | nil => exact terminated_cons hclose.2.1 rest
        | cons char last =>
            exact terminated_cons (isNumberChar_of_isBlank (hlast char List.mem_cons_self)) _
      have hitem := hread item List.mem_cons_self _ hterminated
      have hskip : skipBlanks (last ++ close :: rest) = some ((), close :: rest) := by
        apply skipBlanks_append hlast
        intro char hchar
        obtain rfl := Option.some.inj hchar
        exact hclose.1
      have hsymbol : symbol (close :: rest) = some (close, rest) := rfl
      rw [List.flatMap_nil, List.nil_append, readItems, bind_of_some hitem, bind_of_some hskip,
        bind_of_some hsymbol, if_neg hclose.2.2, if_pos rfl]
      rfl
  | cons next items ih =>
      obtain ⟨fuel, rfl⟩ : ∃ fuel', fuel = fuel' + 1 := ⟨fuel - 1, by omega⟩
      have hrest := ih (fun other hother => hread other (List.mem_cons_of_mem _ hother))
        (fun other hother => hstarts other (List.mem_cons_of_mem _ hother))
        (by simpa using hfuel)
      have hnext := hstarts next (List.mem_cons_of_mem _ List.mem_cons_self)
      have htext : ((next :: items).flatMap fun item => ',' :: (pad ++ write item)) ++
            (last ++ close :: rest) =
          ',' :: (pad ++ (write next ++ ((items.flatMap fun item => ',' :: (pad ++ write item)) ++
            (last ++ close :: rest)))) := by
        simp
      have hstop : isNumberChar ',' = false := by decide
      have hitem := fun text => hread item List.mem_cons_self (',' :: text) (terminated_cons hstop text)
      have hcomma : ∀ text : Text, skipBlanks (',' :: text) = some ((), ',' :: text) := fun _ => rfl
      have hsymbol : ∀ text : Text, symbol (',' :: text) = some (',', text) := fun _ => rfl
      rw [htext, readItems, bind_of_some (hitem _), bind_of_some (hcomma _), bind_of_some (hsymbol _),
        if_pos rfl, bind_of_some (skipBlanks_append hpad (hnext.head_append _).1),
        bind_of_some hrest]
      rfl

theorem length_le_flatMap (items : List γ) :
    items.length ≤ (items.flatMap fun item => ',' :: (pad ++ write item)).length := by
  induction items with
  | nil => exact Nat.le_refl _
  | cons item items ih =>
      simp only [List.flatMap_cons, List.length_append, List.length_cons]
      omega

theorem length_le_of_mem {item : γ} (hitem : item ∈ items) :
    (write item).length ≤ (items.flatMap fun item => ',' :: (pad ++ write item)).length := by
  induction items with
  | nil => cases hitem
  | cons first items ih =>
      simp only [List.flatMap_cons, List.length_append, List.length_cons]
      rcases List.mem_cons.mp hitem with rfl | hitem
      · omega
      · have hle := ih hitem
        omega

/-- A sequence on lines of its own, after its opening bracket. -/
theorem outcome_laid (hclose : IsClosing close) {last : Text}
    (hpad : ∀ char ∈ pad, isBlank char = true) (hlast : ∀ char ∈ last, isBlank char = true)
    {item : γ} (hread : ∀ other ∈ item :: items, Outcome read (write other) (some (value other)))
    (hstarts : ∀ other ∈ item :: items, Starts close (write other)) :
    Outcome (readSequence read close) (pad ++ (write item ++
        ((items.flatMap fun item => ',' :: (pad ++ write item)) ++ (last ++ [close]))))
      (some ((item :: items).map value)) := by
  intro rest _
  obtain ⟨hblank, hhead⟩ := (hstarts item List.mem_cons_self).head_append
    ((items.flatMap fun item => ',' :: (pad ++ write item)) ++ (last ++ close :: rest))
  have htext : pad ++ (write item ++ ((items.flatMap fun item => ',' :: (pad ++ write item)) ++
        (last ++ [close]))) ++ rest =
      pad ++ (write item ++ ((items.flatMap fun item => ',' :: (pad ++ write item)) ++
        (last ++ close :: rest))) := by
    simp
  have hlength := @length_le_flatMap pad γ write items
  rw [htext, readSequence, bind_of_some (skipBlanks_append hpad hblank), if_neg hhead]
  apply readItems_laid hclose hpad hlast hread hstarts
  simp only [List.length_append, List.length_cons]
  omega

theorem outcome_pair {key : Text} {value : Json} (hvalue : Outcome (readValue depth) text (some value))
    (hstarts : Starts '}' text) :
    Outcome (readMember (readValue depth)) (quote key ++ (": ".toList ++ text)) (some (key, value)) := by
  intro rest hrest
  have hcolon : skipBlanks (": ".toList ++ (text ++ rest)) = some ((), ": ".toList ++ (text ++ rest)) := rfl
  have hliteral : literal [':'] (": ".toList ++ (text ++ rest)) = some ((), ' ' :: (text ++ rest)) :=
    reads_literal [':'] (' ' :: (text ++ rest))
  have hspace : skipBlanks (' ' :: (text ++ rest)) = some ((), text ++ rest) := by
    have hpad : ∀ char ∈ [' '], isBlank char = true := List.all_iff_forall_prop.mp rfl
    exact skipBlanks_append hpad (hstarts.head_append rest).1
  rw [List.append_assoc, List.append_assoc, readMember, bind_of_some (reads_quote key _),
    bind_of_some hcolon, bind_of_some hliteral, bind_of_some hspace, bind_of_some (hvalue rest hrest)]
  rfl

end Values

section RoundTrip

variable {indent level depth : Nat} {value : Json} {pad : Text}

theorem writeItems_eq (items : List Json) : writeItems indent level items =
    items.flatMap fun item => ',' :: (newLine indent level ++ write indent level item) := by
  induction items with
  | nil => rfl
  | cons item items ih =>
      rw [writeItems, ih, List.flatMap_cons]
      simp

def writeMember (indent level : Nat) (member : Text × Json) : Text :=
  quote member.1 ++ (": ".toList ++ write indent level member.2)

theorem writeMembers_eq (members : List (Text × Json)) : writeMembers indent level members =
    members.flatMap fun member => ',' :: (newLine indent level ++ writeMember indent level member) := by
  induction members with
  | nil => rfl
  | cons member members ih =>
      obtain ⟨key, value⟩ := member
      rw [writeMembers, ih, List.flatMap_cons, writeMember]
      simp

theorem isBlank_newLine (indent level : Nat) : ∀ char ∈ newLine indent level, isBlank char = true := by
  intro char hchar
  rcases List.mem_cons.mp hchar with rfl | hspace
  · decide
  · rw [List.eq_of_mem_replicate hspace]
    decide

/-- What a text begins with, to be told from the end of a sequence. -/
def Begins (text : Text) : Prop := Starts ']' text ∧ Starts '}' text

theorem begins_cons {char : Char} (hblank : isBlank char = false) (hbracket : char ≠ ']')
    (hbrace : char ≠ '}') (text : Text) : Begins (char :: text) :=
  ⟨⟨char, text, rfl, hblank, hbracket⟩, ⟨char, text, rfl, hblank, hbrace⟩⟩

theorem begins_toDigits (n : Nat) : Begins (Nat.toDigits 10 n) := by
  obtain ⟨first, others, htext⟩ := List.exists_cons_of_ne_nil (@Nat.toDigits_ne_nil n 10)
  have hfirst : first.isDigit = true := by
    apply isDigit_of_mem_toDigits_ten
    rw [htext]
    exact List.mem_cons_self
  have hnot : ∀ char : Char, char.isDigit = false → first ≠ char := by
    rintro char hchar rfl
    rw [hfirst] at hchar
    cases hchar
  rw [htext]
  apply begins_cons _ (hnot ']' (by decide)) (hnot '}' (by decide))
  simp [isBlank, hnot ' ' (by decide), hnot '\t' (by decide), hnot '\n' (by decide),
    hnot '\r' (by decide)]

/-- No value begins like the end of a sequence. -/
theorem begins_write (h : IsWritable value) : Begins (write indent level value) := by
  cases h with
  | null => exact begins_cons (by decide) (by decide) (by decide) _
  | bool flag =>
      rw [write]
      cases flag with
      | false => exact begins_cons (by decide) (by decide) (by decide) _
      | true => exact begins_cons (by decide) (by decide) (by decide) _
  | @int n hdigits =>
      rw [write]
      cases n with
      | ofNat n => exact begins_toDigits n
      | negSucc n => exact begins_cons (by decide) (by decide) (by decide) _
  | string text => exact begins_cons (by decide) (by decide) (by decide) _
  | @array items hitems =>
      cases items with
      | nil => exact begins_cons (by decide) (by decide) (by decide) _
      | cons item items =>
          rw [write]
          exact begins_cons (by decide) (by decide) (by decide) _
  | @object members hmembers =>
      cases members with
      | nil => exact begins_cons (by decide) (by decide) (by decide) _
      | cons member members =>
          rw [write]
          exact begins_cons (by decide) (by decide) (by decide) _

theorem length_write_le_items {item : Json} {items : List Json} (hitem : item ∈ items) :
    (write indent level item).length ≤ (writeItems indent level items).length := by
  rw [writeItems_eq]
  exact length_le_of_mem hitem

theorem length_write_le_members {member : Text × Json} {members : List (Text × Json)}
    (hmember : member ∈ members) :
    (write indent level member.2).length ≤ (writeMembers indent level members).length := by
  have hmemberText : (write indent level member.2).length ≤
      (writeMember indent level member).length := by
    simp only [writeMember, List.length_append]
    omega
  rw [writeMembers_eq]
  exact le_trans hmemberText (length_le_of_mem hmember)

/-- An array that is not empty is laid out. -/
theorem write_array_cons (item : Json) (items : List Json) :
    write indent level (array (item :: items)) =
      '[' :: (newLine indent (level + 1) ++ (write indent (level + 1) item ++
        ((items.flatMap fun item =>
          ',' :: (newLine indent (level + 1) ++ write indent (level + 1) item)) ++
          (newLine indent level ++ [']'])))) := by
  rw [write, writeItems_eq]
  simp

theorem write_object_cons (member : Text × Json) (members : List (Text × Json)) :
    write indent level (object (member :: members)) =
      '\x7b' :: (newLine indent (level + 1) ++ (writeMember indent (level + 1) member ++
        ((members.flatMap fun member =>
          ',' :: (newLine indent (level + 1) ++ writeMember indent (level + 1) member)) ++
          (newLine indent level ++ ['\x7d'])))) := by
  rw [write, writeMembers_eq, writeMember]
  simp

/-- There are two brackets around each item. -/
theorem length_write_item {item : Json} {items : List Json} (hitem : item ∈ items) :
    (write indent (level + 1) item).length + 2 ≤ (write indent level (array items)).length := by
  cases items with
  | nil => cases hitem
  | cons first items =>
      rw [write]
      simp only [List.length_append, List.length_cons, List.length_nil]
      rcases List.mem_cons.mp hitem with rfl | hitem
      · omega
      · have hle := @length_write_le_items indent (level + 1) _ _ hitem
        omega

theorem length_write_member {member : Text × Json} {members : List (Text × Json)}
    (hmember : member ∈ members) :
    (write indent (level + 1) member.2).length + 2 ≤ (write indent level (object members)).length := by
  cases members with
  | nil => cases hmember
  | cons first members =>
      rw [write]
      simp only [List.length_append, List.length_cons, List.length_nil]
      rcases List.mem_cons.mp hmember with rfl | hmember
      · omega
      · have hle := @length_write_le_members indent (level + 1) _ _ hmember
        omega

theorem isClosing_bracket : IsClosing ']' := ⟨by decide, by decide, by decide⟩

theorem isClosing_brace : IsClosing '}' := ⟨by decide, by decide, by decide⟩

/-- What is written is read, with brackets enough around it. -/
theorem outcome_write (h : IsWritable value) :
    ∀ level depth, (write indent level value).length ≤ depth + 1 →
      Outcome (readValue (depth + 1)) (write indent level value) (some value) := by
  induction h with
  | null => exact fun _ _ _ => outcome_null
  | bool flag => exact fun _ _ _ => outcome_bool flag
  | int hdigits => exact fun _ _ _ => outcome_integer hdigits
  | string text =>
      intro level depth _
      have hread : Outcome readString (quote text) (some text) := fun rest _ => reads_quote text rest
      exact outcome_string hread
  | @array items hitems ih =>
      intro level depth hdepth
      cases items with
      | nil => exact fun _ _ => rfl
      | cons item items =>
          have hmember : ∀ other ∈ item :: items,
              Outcome (readValue depth) (write indent (level + 1) other) (some other) := by
            intro other hother
            have hlength := le_trans (@length_write_item indent level _ _ hother) hdepth
            obtain ⟨depth, rfl⟩ : ∃ depth', depth = depth' + 1 := ⟨depth - 1, by omega⟩
            exact ih other hother (level + 1) depth (by omega)
          rw [write_array_cons]
          have hlaid := outcome_laid isClosing_bracket (isBlank_newLine indent (level + 1))
            (isBlank_newLine indent level) hmember
            (fun other hother => (begins_write (hitems other hother)).1)
          rw [List.map_id'] at hlaid
          exact outcome_array hlaid
  | @object members hmembers ih =>
      intro level depth hdepth
      cases members with
      | nil => exact fun _ _ => rfl
      | cons member members =>
          have hmember : ∀ other ∈ member :: members,
              Outcome (readMember (readValue depth)) (writeMember indent (level + 1) other)
                (some other) := by
            intro other hother
            have hlength := le_trans (@length_write_member indent level _ _ hother) hdepth
            obtain ⟨depth, rfl⟩ : ∃ depth', depth = depth' + 1 := ⟨depth - 1, by omega⟩
            exact outcome_pair (ih other hother (level + 1) depth (by omega))
              (begins_write (hmembers other hother)).2
          have hstarts : ∀ other ∈ member :: members, Starts '}' (writeMember indent (level + 1) other) :=
            fun other _ => (begins_cons (by decide) (by decide) (by decide) _ : Begins ('"' :: _)).2
          rw [write_object_cons]
          have hlaid := outcome_laid isClosing_brace (isBlank_newLine indent (level + 1))
            (isBlank_newLine indent level) hmember hstarts
          rw [List.map_id'] at hlaid
          exact outcome_object hlaid

/-- What `dumps` wrote is loaded, also from a file that ends in blanks. -/
theorem loads_dumps (h : IsWritable value) (hpad : ∀ char ∈ pad, isBlank char = true) :
    loads (dumps indent value ++ pad) = some value := by
  obtain ⟨hblank, -⟩ := (begins_write h).1.head_append pad
  have hterminated : Terminated pad := by
    intro char hchar
    exact isNumberChar_of_isBlank (hpad char (List.mem_of_mem_head? hchar))
  have hlength : (write indent 0 value).length ≤ (dumps indent value ++ pad).length + 1 := by
    rw [List.length_append, dumps]
    omega
  have hread := outcome_write h 0 (dumps indent value ++ pad).length hlength pad hterminated
  have hend : skipBlanks pad = some ((), []) := by
    have hskip := @skipBlanks_append [] pad hpad (by simp)
    rwa [List.append_nil] at hskip
  unfold loads
  rw [dumps, skipBlanks_of_not_blank hblank, Option.bind_eq_bind, Option.bind_some]
  dsimp only
  rw [dumps] at hread
  rw [hread, Option.map_some]
  simp only [Option.bind_eq_bind, Option.bind_some, hend, if_true]

end RoundTrip

section Plain

variable {indent level : Nat} {value : Json} {text : Text}

/-- A newline, or a character of ASCII that is printed. -/
def IsPlain (text : Text) : Prop := ∀ char ∈ text, char = '\n' ∨ (32 ≤ char.toNat ∧ char.toNat < 127)

instance (text : Text) : Decidable (IsPlain text) := decidable_of_iff _ List.all_iff_forall_prop

theorem isPlain_append {text' : Text} (h : IsPlain text) (h' : IsPlain text') : IsPlain (text ++ text') :=
  List.forall_mem_append.mpr ⟨h, h'⟩

theorem isPlain_flatMap {γ : Type} {items : List γ} {write : γ → Text}
    (h : ∀ item ∈ items, IsPlain (write item)) : IsPlain (items.flatMap write) := by
  intro char hchar
  obtain ⟨item, hitem, hmem⟩ := List.mem_flatMap.mp hchar
  exact h item hitem char hmem

theorem isPlain_of_isDigit (h : ∀ char ∈ text, char.isDigit = true) : IsPlain text := by
  intro char hchar
  have hdigit := h char hchar
  simp only [Char.isDigit, Bool.and_eq_true, decide_eq_true_eq] at hdigit
  have hlow := UInt32.le_iff_toNat_le.mp hdigit.1
  have hhigh := UInt32.le_iff_toNat_le.mp hdigit.2
  exact .inr ⟨le_trans (by decide) hlow, lt_of_le_of_lt hhigh (by decide)⟩

theorem isPlain_escapeCode (code : Nat) : IsPlain (escapeCode code) := by
  have hdigit : ∀ digit < 16, 32 ≤ (Nat.digitChar digit).toNat ∧ (Nat.digitChar digit).toNat < 127 := by
    decide
  intro char hchar
  simp only [escapeCode, hexDigits, List.mem_cons, List.not_mem_nil, or_false] at hchar
  rcases hchar with rfl | rfl | rfl | rfl | rfl | rfl
  · exact .inr (by decide)
  · exact .inr (by decide)
  · exact .inr (hdigit _ (Nat.mod_lt _ (by decide)))
  · exact .inr (hdigit _ (Nat.mod_lt _ (by decide)))
  · exact .inr (hdigit _ (Nat.mod_lt _ (by decide)))
  · exact .inr (hdigit _ (Nat.mod_lt _ (by decide)))

theorem isPlain_escapeChar (char : Char) : IsPlain (escapeChar char) := by
  unfold escapeChar
  split
  · rename_i letter other hfind
    have hall : ∀ pair ∈ writtenEscapes, IsPlain ['\\', pair.1] := by decide
    exact hall _ (List.mem_of_find?_eq_some hfind)
  · split
    · rename_i hplain
      intro other hother
      rw [List.mem_singleton.mp hother]
      exact .inr hplain
    · unfold escapeWide
      split
      · exact isPlain_escapeCode _
      · exact isPlain_append (isPlain_escapeCode _) (isPlain_escapeCode _)

theorem isPlain_quote (text : Text) : IsPlain (quote text) := by
  have hmark : IsPlain ['"'] := by decide
  exact isPlain_append (isPlain_append hmark (isPlain_flatMap fun char _ => isPlain_escapeChar char)) hmark

theorem isPlain_newLine (indent level : Nat) : IsPlain (newLine indent level) := by
  intro char hchar
  rcases List.mem_cons.mp hchar with rfl | hspace
  · exact .inl rfl
  · rw [List.eq_of_mem_replicate hspace]
    exact .inr (by decide)

theorem isPlain_integer (n : Int) : IsPlain (integer n) := by
  have hdigits : ∀ n : Nat, IsPlain (Nat.toDigits 10 n) := fun n =>
    isPlain_of_isDigit fun _ hchar => isDigit_of_mem_toDigits_ten hchar
  cases n with
  | ofNat n => exact hdigits n
  | negSucc n =>
      have hminus : IsPlain ['-'] := by decide
      exact isPlain_append hminus (hdigits _)

theorem isPlain_laid {γ : Type} {items : List γ} {write : γ → Text} (hcomma : IsPlain [','])
    (h : ∀ item ∈ items, IsPlain (write item)) :
    IsPlain (items.flatMap fun item => ',' :: (newLine indent level ++ write item)) :=
  isPlain_flatMap fun item hitem =>
    isPlain_append hcomma (isPlain_append (isPlain_newLine indent level) (h item hitem))

/-- What is written is ASCII, on lines. -/
theorem isPlain_write (h : IsWritable value) : ∀ level, IsPlain (write indent level value) := by
  have hmarks : ∀ text ∈ ["null".toList, "true".toList, "false".toList, "[]".toList,
      "\x7b\x7d".toList, ['['], [']'], ['\x7b'], ['\x7d'], [','], ": ".toList], IsPlain text := by decide
  have hcomma : IsPlain [','] := hmarks _ (by decide)
  induction h with
  | null => exact fun _ => hmarks "null".toList (by decide)
  | bool flag =>
      intro level
      cases flag with
      | false => exact hmarks "false".toList (by decide)
      | true => exact hmarks "true".toList (by decide)
  | int hdigits => exact fun _ => isPlain_integer _
  | string text => exact fun _ => isPlain_quote text
  | @array items hitems ih =>
      intro level
      cases items with
      | nil => exact hmarks "[]".toList (by decide)
      | cons item items =>
          have hopen : IsPlain ['['] := hmarks _ (by decide)
          have hclose : IsPlain [']'] := hmarks _ (by decide)
          rw [write_array_cons]
          exact isPlain_append hopen (isPlain_append (isPlain_newLine _ _)
            (isPlain_append (ih item List.mem_cons_self _) (isPlain_append
              (isPlain_laid hcomma fun other hother => ih other (List.mem_cons_of_mem _ hother) _)
              (isPlain_append (isPlain_newLine _ _) hclose))))
  | @object members hmembers ih =>
      intro level
      cases members with
      | nil => exact hmarks "\x7b\x7d".toList (by decide)
      | cons member members =>
          have hopen : IsPlain ['\x7b'] := hmarks _ (by decide)
          have hclose : IsPlain ['\x7d'] := hmarks _ (by decide)
          have hcolon : IsPlain ": ".toList := hmarks _ (by decide)
          have hmember : ∀ other ∈ member :: members, IsPlain (writeMember indent (level + 1) other) :=
            fun other hother => isPlain_append (isPlain_quote _) (isPlain_append hcolon (ih other hother _))
          rw [write_object_cons]
          exact isPlain_append hopen (isPlain_append (isPlain_newLine _ _)
            (isPlain_append (hmember member List.mem_cons_self) (isPlain_append
              (isPlain_laid hcomma fun other hother => hmember other (List.mem_cons_of_mem _ hother))
              (isPlain_append (isPlain_newLine _ _) hclose))))

/-- Reading in text mode does not change it. -/
theorem IsPlain.not_mem_return (h : IsPlain text) : '\r' ∉ text := by
  intro hchar
  rcases h '\r' hchar with hnewline | ⟨hlow, -⟩
  · cases hnewline
  · exact absurd hlow (by decide)

end Plain

end Json

end AdaptivePi.Foundation
