import AdaptivePi.Foundation.PythonText
import AdaptivePi.Foundation.Reader

/-!
JSON as `json.loads` reads it: strict about control characters in strings, with
the constants `NaN` and `Infinity`, and with a limit on the digits of integers.
An unpaired surrogate, which is no character here, is read as U+FFFD. What a
reader makes of a text is stated together with its failures, so that a text made
of pieces is read as its pieces are, or not at all.
-/

namespace AdaptivePi.Foundation

/-- A value that `json.loads` returns. A floating-point number is given by its
literal, and an object by its members in the order of the text. -/
inductive Json where
  | null
  | bool (value : Bool)
  | int (value : Int)
  | float (literal : Text)
  | string (value : Text)
  | array (items : List Json)
  | object (members : List (Text × Json))

namespace Json

open Reader

def isBlank (char : Char) : Bool := char = ' ' || char = '\t' || char = '\n' || char = '\r'

def skipBlanks : Reader Char Unit := fun text => some ((), text.dropWhile isBlank)

def fail {α : Type} : Reader Char α := fun _ => none

def symbol : Reader Char Char
  | [] => none
  | char :: rest => some (char, rest)

def escapes : List (Char × Char) :=
  [('"', '"'), ('\\', '\\'), ('/', '/'), ('b', '\x08'), ('f', '\x0c'), ('n', '\n'), ('r', '\r'),
    ('t', '\t')]

def hexValue (char : Char) : Option Nat :=
  if char.isDigit then some (char.toNat - 48)
  else if 'a' ≤ char ∧ char ≤ 'f' then some (char.toNat - 87)
  else if 'A' ≤ char ∧ char ≤ 'F' then some (char.toNat - 55)
  else none

def readHex : Reader Char Nat
  | first :: second :: third :: fourth :: rest => do
      let digits ← [first, second, third, fourth].mapM hexValue
      some (digits.foldl (fun code digit => 16 * code + digit) 0, rest)
  | _ => none

def isHighSurrogate (code : Nat) : Bool := 0xd800 ≤ code && code ≤ 0xdbff

def isLowSurrogate (code : Nat) : Bool := 0xdc00 ≤ code && code ≤ 0xdfff

/-- The second half of a pair, if it follows. -/
def readPaired (high : Nat) : Reader Char Char
  | '\\' :: 'u' :: text => do
      let (low, rest) ← readHex text
      if isLowSurrogate low then
        some (Char.ofNat (0x10000 + (high - 0xd800) * 0x400 + (low - 0xdc00)), rest)
      else some ('\ufffd', '\\' :: 'u' :: text)
  | text => some ('\ufffd', text)

def readEscape : Reader Char Char := do
  let letter ← symbol
  match escapes.lookup letter with
  | some char => pure char
  | none =>
      if letter = 'u' then do
        let code ← readHex
        if isHighSurrogate code then readPaired code
        else pure (if isLowSurrogate code then '\ufffd' else Char.ofNat code)
      else fail

def readChars : Nat → Reader Char Text
  | 0 => fail
  | fuel + 1 => do
      let char ← symbol
      if char = '"' then pure []
      else if char = '\\' then do
        let escaped ← readEscape
        let chars ← readChars fuel
        pure (escaped :: chars)
      else if char.toNat < 32 then fail
      else do
        let chars ← readChars fuel
        pure (char :: chars)

def readString : Reader Char Text
  | '"' :: text => readChars text.length text
  | _ => none

/-- `0|[1-9][0-9]*` -/
def integerPart : Text → Text
  | '0' :: _ => ['0']
  | text => text.takeWhile Char.isDigit

/-- `(\.[0-9]+)?` -/
def fraction : Text → Text
  | '.' :: text => if text.takeWhile Char.isDigit = [] then [] else '.' :: text.takeWhile Char.isDigit
  | _ => []

def sign : Text → Text
  | char :: _ => if char = '-' ∨ char = '+' then [char] else []
  | [] => []

/-- `([eE][-+]?[0-9]+)?` -/
def exponent : Text → Text
  | char :: text =>
      if char = 'e' ∨ char = 'E' then
        let digits := (text.drop (sign text).length).takeWhile Char.isDigit
        if digits = [] then [] else char :: (sign text ++ digits)
      else []
  | [] => []

def readNumber : Reader Char Json := fun text =>
  let minus := text.takeWhile (· = '-') |>.take 1
  let digits := integerPart (text.drop minus.length)
  if digits = [] then none
  else
    let rest := text.drop (minus.length + digits.length)
    let decimals := fraction rest
    let power := exponent (rest.drop decimals.length)
    if decimals = [] ∧ power = [] then
      if digits.length ≤ PythonText.maxDigits then
        some (int ((if minus = [] then 1 else -1) * Nat.ofDigitChars 10 digits 0), rest)
      else none
    else
      some (float (minus ++ digits ++ decimals ++ power),
        rest.drop (decimals.length + power.length))

def constants : List (Text × Json) :=
  [("null".toList, null), ("true".toList, bool true), ("false".toList, bool false),
    ("NaN".toList, float "NaN".toList), ("Infinity".toList, float "Infinity".toList),
    ("-Infinity".toList, float "-Infinity".toList)]

def readItems {α : Type} (read : Reader Char α) (close : Char) : Nat → Reader Char (List α)
  | 0 => fail
  | fuel + 1 => do
      let item ← read
      skipBlanks
      let next ← symbol
      if next = ',' then do
        skipBlanks
        let items ← readItems read close fuel
        pure (item :: items)
      else if next = close then pure [item]
      else fail

def readSequence {α : Type} (read : Reader Char α) (close : Char) : Reader Char (List α) := do
  skipBlanks
  fun text =>
    if text.head? = some close then some ([], text.tail) else readItems read close text.length text

def readMember (read : Reader Char Json) : Reader Char (Text × Json) := do
  let key ← readString
  skipBlanks
  literal [':']
  skipBlanks
  let value ← read
  pure (key, value)

/-- A value with at most so many brackets around another. -/
def readValue : Nat → Reader Char Json
  | 0 => fail
  | depth + 1 => fun text =>
      if text.head? = some '"' then (string <$> readString) text
      else if text.head? = some '[' then
        (array <$> readSequence (readValue depth) ']') text.tail
      else if text.head? = some '{' then
        (object <$> readSequence (readMember (readValue depth)) '}') text.tail
      else
        match constants.find? fun constant => constant.1.isPrefixOf text with
        | some (name, value) => some (value, text.drop name.length)
        | none => readNumber text

/-- `json.loads`, with `none` for a `ValueError`. -/
def loads (text : Text) : Option Json := do
  let ((), text) ← skipBlanks text
  let (value, rest) ← readValue (text.length + 1) text
  let ((), rest) ← skipBlanks rest
  if rest = [] then some value else none

def isNumberChar (char : Char) : Bool := char.isDigit || char = '.' || char = 'e' || char = 'E'

/-- No number goes on here. -/
def Terminated (rest : Text) : Prop := ∀ char ∈ rest.head?, isNumberChar char = false

/-- What a reader makes of a text, whatever follows: a value, or a failure. -/
def Outcome {α : Type} (read : Reader Char α) (text : Text) (result : Option α) : Prop :=
  ∀ rest, Terminated rest → read (text ++ rest) = result.map fun value => (value, rest)

def separated : List Text → Text
  | [] => []
  | text :: texts => text ++ texts.flatMap (',' :: ·)

/-- The text starts like an item of a sequence that `close` ends. -/
def Starts (close : Char) (text : Text) : Prop :=
  ∃ char rest, text = char :: rest ∧ isBlank char = false ∧ char ≠ close

section

variable {α β : Type} {read : Reader Char α} {next : α → Reader Char β} {text text' rest : Text}
  {result : Option α} {close : Char}

theorem terminated_cons {char : Char} (hchar : isNumberChar char = false) (rest : Text) :
    Terminated (char :: rest) := by
  intro other hother
  obtain rfl := Option.some.inj hother
  exact hchar

theorem map_apply (f : α → β) (text : Text) :
    (f <$> read) text = (read text).map fun result => (f result.1, result.2) := by
  change (read text).bind (fun result => some (f result.1, result.2)) = _
  cases read text with
  | none => rfl
  | some result => rfl

theorem Outcome.map (f : α → β) (h : Outcome read text result) :
    Outcome (f <$> read) text (result.map f) := by
  intro rest hrest
  rw [map_apply, h rest hrest]
  cases result with
  | none => rfl
  | some value => rfl

theorem skipBlanks_of_not_blank (htext : ∀ char ∈ text.head?, isBlank char = false) :
    skipBlanks text = some ((), text) := by
  unfold skipBlanks
  cases text with
  | nil => rfl
  | cons char rest => rw [List.dropWhile_cons, if_neg (by simp [htext char rfl])]

section Strings

theorem readChars_quote (fuel : Nat) (rest : Text) :
    readChars (fuel + 1) ('"' :: rest) = some ([], rest) := rfl

/-- A character that is read as it is. -/
theorem readChars_plain {char : Char} (hquote : char ≠ '"') (hbackslash : char ≠ '\\')
    (hplain : 32 ≤ char.toNat) (fuel : Nat) (text : Text) :
    readChars (fuel + 1) (char :: text) =
      (readChars fuel text).map fun result => (char :: result.1, result.2) := by
  have hsymbol : symbol (char :: text) = some (char, text) := rfl
  rw [readChars, bind_of_some hsymbol, if_neg hquote, if_neg hbackslash, if_neg (by omega)]
  exact map_apply (char :: ·) text

/-- A control character is an error. -/
theorem readChars_control {char : Char} (hcontrol : char.toNat < 32) (fuel : Nat) (text : Text) :
    readChars (fuel + 1) (char :: text) = none := by
  have hsymbol : symbol (char :: text) = some (char, text) := rfl
  have hquote : char ≠ '"' := by
    rintro rfl
    exact absurd hcontrol (by decide)
  have hbackslash : char ≠ '\\' := by
    rintro rfl
    exact absurd hcontrol (by decide)
  rw [readChars, bind_of_some hsymbol, if_neg hquote, if_neg hbackslash, if_pos hcontrol]
  rfl

theorem readChars_escape {letter char : Char} (hletter : escapes.lookup letter = some char)
    (fuel : Nat) (text : Text) :
    readChars (fuel + 1) ('\\' :: letter :: text) =
      (readChars fuel text).map fun result => (char :: result.1, result.2) := by
  have hsymbol : symbol ('\\' :: letter :: text) = some ('\\', letter :: text) := rfl
  have hescape : readEscape (letter :: text) = some (char, text) := by
    have hfirst : symbol (letter :: text) = some (letter, text) := rfl
    rw [readEscape, bind_of_some hfirst, hletter]
    rfl
  rw [readChars, bind_of_some hsymbol, if_neg (by decide), if_pos rfl, bind_of_some hescape]
  exact map_apply (char :: ·) text

end Strings

section Numbers

theorem takeWhile_digits {digits : Text} (hdigits : ∀ char ∈ digits, char.isDigit = true)
    (hrest : Terminated rest) : (digits ++ rest).takeWhile Char.isDigit = digits := by
  rw [List.takeWhile_append_of_pos hdigits]
  cases rest with
  | nil => simp
  | cons char rest =>
      have hchar := hrest char rfl
      unfold isNumberChar at hchar
      have hnotDigit : char.isDigit = false := by
        cases hdigit : char.isDigit with
        | false => rfl
        | true => simp [hdigit] at hchar
      simp [hnotDigit]

theorem fraction_of_terminated (hrest : Terminated rest) : fraction rest = [] := by
  unfold fraction
  split
  · rename_i text
    exact absurd (hrest '.' rfl) (by decide)
  · rfl

theorem exponent_of_terminated (hrest : Terminated rest) : exponent rest = [] := by
  unfold exponent
  split
  · rename_i char text
    have hchar := hrest char rfl
    rw [if_neg]
    rintro (rfl | rfl)
    · exact absurd hchar (by decide)
    · exact absurd hchar (by decide)
  · rfl

/-- Digits without a leading zero are read if there are not too many. -/
theorem outcome_readNumber {digits : Text} (hne : digits ≠ [])
    (hdigits : ∀ char ∈ digits, char.isDigit = true) (hzero : digits.head? ≠ some '0') :
    Outcome readNumber digits
      (if digits.length ≤ PythonText.maxDigits then some (int (Nat.ofDigitChars 10 digits 0))
        else none) := by
  intro rest hrest
  obtain ⟨first, others, rfl⟩ := List.exists_cons_of_ne_nil hne
  have hfirst : first.isDigit = true := hdigits first List.mem_cons_self
  have hminus : (((first :: others) ++ rest).takeWhile (· = '-')).take 1 = [] := by
    have hnot : first ≠ '-' := by
      rintro rfl
      exact absurd hfirst (by decide)
    simp [hnot]
  have hinteger : integerPart ((first :: others) ++ rest) = first :: others := by
    unfold integerPart
    split
    · rename_i heq
      rw [List.cons_append] at heq
      exact absurd (congrArg some (List.cons.inj heq).1) hzero
    · exact takeWhile_digits hdigits hrest
  unfold readNumber
  simp only [hminus, List.length_nil, List.drop_zero, hinteger, Nat.zero_add, List.drop_left,
    fraction_of_terminated hrest, exponent_of_terminated hrest, if_true, and_self, reduceCtorEq,
    if_false, Int.one_mul]
  split_ifs <;> rfl

end Numbers

section Sequences

variable {γ : Type} {write : γ → Text} {results : γ → Option α} {items : List γ} {fuel : Nat}

theorem separated_cons_cons (text text' : Text) (texts : List Text) :
    separated (text :: text' :: texts) = text ++ ',' :: separated (text' :: texts) := by
  simp [separated]

theorem length_le_separated {texts : List Text} (htexts : ∀ text ∈ texts, text ≠ []) :
    texts.length ≤ (separated texts).length := by
  cases texts with
  | nil => exact Nat.le_refl _
  | cons text texts =>
      have hfirst := List.length_pos_iff.mpr (htexts text List.mem_cons_self)
      have hrest : texts.length ≤ (texts.flatMap (',' :: ·)).length := by
        clear htexts hfirst
        induction texts with
        | nil => exact Nat.le_refl _
        | cons other texts ih =>
            simp only [List.flatMap_cons, List.length_append, List.length_cons]
            omega
      simp only [separated, List.length_append, List.length_cons]
      omega

theorem Starts.ne_nil (h : Starts close text) : text ≠ [] := by
  obtain ⟨char, rest, rfl, -⟩ := h
  exact List.cons_ne_nil char rest

theorem Starts.head_append (h : Starts close text) (rest : Text) :
    (∀ char ∈ (text ++ rest).head?, isBlank char = false) ∧ (text ++ rest).head? ≠ some close := by
  obtain ⟨char, others, rfl, hblank, hclose⟩ := h
  constructor
  · intro other hother
    obtain rfl := Option.some.inj hother
    exact hblank
  · intro hhead
    exact hclose (Option.some.inj hhead)

/-- The characters that end a sequence. -/
def IsClosing (close : Char) : Prop :=
  isBlank close = false ∧ isNumberChar close = false ∧ close ≠ ','

theorem separated_starts (hne : items ≠ []) (hstarts : ∀ item ∈ items, Starts close (write item)) :
    Starts close (separated (items.map write)) := by
  obtain ⟨item, others, rfl⟩ := List.exists_cons_of_ne_nil hne
  obtain ⟨char, rest, htext, hblank, hclose⟩ := hstarts item List.mem_cons_self
  refine ⟨char, rest ++ (others.map write).flatMap (',' :: ·), ?_, hblank, hclose⟩
  rw [List.map_cons, separated, htext, List.cons_append]

theorem skipBlanks_closing (hclose : IsClosing close) (rest : Text) :
    skipBlanks (close :: rest) = some ((), close :: rest) := by
  apply skipBlanks_of_not_blank
  intro char hchar
  obtain rfl := Option.some.inj hchar
  exact hclose.1

theorem readItems_last (hclose : IsClosing close) (hread : Outcome read text result) (fuel : Nat)
    (rest : Text) :
    readItems read close (fuel + 1) (text ++ close :: rest) =
      result.map fun value => ([value], rest) := by
  have hfirst := hread (close :: rest) (terminated_cons hclose.2.1 rest)
  rw [readItems]
  cases result with
  | none =>
      rw [bind_of_none hfirst]
      rfl
  | some value =>
      have hsymbol : symbol (close :: rest) = some (close, rest) := rfl
      rw [bind_of_some hfirst, bind_of_some (skipBlanks_closing hclose rest), bind_of_some hsymbol,
        if_neg hclose.2.2, if_pos rfl]
      rfl

theorem readItems_comma (hread : Outcome read text result)
    (hblank : ∀ char ∈ rest.head?, isBlank char = false) (fuel : Nat) :
    readItems read close (fuel + 1) (text ++ ',' :: rest) =
      result.bind fun value =>
        (readItems read close fuel rest).map fun items => (value :: items.1, items.2) := by
  have hfirst := hread (',' :: rest) (terminated_cons (by decide) rest)
  rw [readItems]
  cases result with
  | none =>
      rw [bind_of_none hfirst]
      rfl
  | some value =>
      have hcomma : skipBlanks (',' :: rest) = some ((), ',' :: rest) := rfl
      have hsymbol : symbol (',' :: rest) = some (',', rest) := rfl
      rw [bind_of_some hfirst, bind_of_some hcomma, bind_of_some hsymbol, if_pos rfl,
        bind_of_some (skipBlanks_of_not_blank hblank)]
      exact map_apply (value :: ·) rest

/-- Items are read one after the other; one that fails spoils the sequence. -/
theorem readItems_separated (hclose : IsClosing close) (hne : items ≠ [])
    (hstarts : ∀ item ∈ items, Starts close (write item))
    (hread : ∀ item ∈ items, Outcome read (write item) (results item))
    (hfuel : items.length ≤ fuel) (rest : Text) :
    readItems read close fuel (separated (items.map write) ++ close :: rest) =
      (items.mapM results).map fun values => (values, rest) := by
  induction items generalizing fuel with
  | nil => exact absurd rfl hne
  | cons item items ih =>
      obtain ⟨fuel, rfl⟩ : ∃ fuel', fuel = fuel' + 1 :=
        ⟨fuel - 1, by rw [List.length_cons] at hfuel; omega⟩
      have hitem := hread item List.mem_cons_self
      rw [List.mapM_cons]
      cases items with
      | nil =>
          have htext : separated ([item].map write) = write item := by simp [separated]
          rw [htext, readItems_last hclose hitem]
          cases results item with
          | none => rfl
          | some value => rfl
      | cons other items =>
          have hother := List.cons_ne_nil other items
          have hstarts' : ∀ item ∈ other :: items, Starts close (write item) := fun item hmem =>
            hstarts item (List.mem_cons_of_mem _ hmem)
          have hrest := ih hother hstarts' (fun item hmem => hread item (List.mem_cons_of_mem _ hmem))
            (by simpa using hfuel)
          have hnext := ((separated_starts hother hstarts').head_append (close :: rest)).1
          rw [List.map_cons, List.map_cons, separated_cons_cons, List.append_assoc, List.cons_append,
            ← List.map_cons, readItems_comma hitem hnext, hrest]
          cases results item with
          | none => rfl
          | some value =>
              cases (other :: items).mapM results with
              | none => rfl
              | some values => rfl

/-- A sequence after its opening bracket. -/
theorem outcome_readSequence (hclose : IsClosing close)
    (hstarts : ∀ item ∈ items, Starts close (write item))
    (hread : ∀ item ∈ items, Outcome read (write item) (results item)) :
    Outcome (readSequence read close) (separated (items.map write) ++ [close])
      (items.mapM results) := by
  intro rest hrest
  rw [List.append_assoc, List.singleton_append]
  by_cases hempty : items = []
  · subst hempty
    rw [List.map_nil, separated, List.nil_append, readSequence,
      bind_of_some (skipBlanks_closing hclose rest), List.head?_cons, if_pos rfl]
    rfl
  · obtain ⟨hblank, hhead⟩ := (separated_starts hempty hstarts).head_append (close :: rest)
    have htexts : ∀ text ∈ items.map write, text ≠ [] := by
      intro text htext
      obtain ⟨item, hitem, rfl⟩ := List.mem_map.mp htext
      exact (hstarts item hitem).ne_nil
    have hlength := length_le_separated htexts
    rw [List.length_map] at hlength
    rw [readSequence, bind_of_some (skipBlanks_of_not_blank hblank), if_neg hhead]
    exact readItems_separated hclose hempty hstarts hread
      (by rw [List.length_append]; omega) rest

end Sequences

/-- A sequence is read when all of its items are. -/
theorem mapM_ite {γ δ : Type} (P : γ → Prop) [DecidablePred P] (f : γ → δ) (items : List γ) :
    (items.mapM fun item => if P item then some (f item) else none) =
      if ∀ item ∈ items, P item then some (items.map f) else none := by
  induction items with
  | nil => simp
  | cons item items ih =>
      rw [List.mapM_cons, ih]
      by_cases hitem : P item
      · by_cases hitems : ∀ item ∈ items, P item
        · have hall : ∀ other ∈ item :: items, P other := List.forall_mem_cons.mpr ⟨hitem, hitems⟩
          rw [if_pos hitem, if_pos hitems, if_pos hall]
          rfl
        · have hall : ¬∀ other ∈ item :: items, P other := fun h =>
            hitems (List.forall_mem_cons.mp h).2
          rw [if_pos hitem, if_neg hitems, if_neg hall]
          rfl
      · have hall : ¬∀ other ∈ item :: items, P other := fun h =>
          hitem (List.forall_mem_cons.mp h).1
        rw [if_neg hitem, if_neg hall]
        rfl

section Values

variable {key : Text} {readJson : Reader Char Json} {value : Option Json} {depth : Nat}

/-- A member is read when its value is. -/
theorem outcome_readMember (hkey : Reads readString text key)
    (hvalue : Outcome readJson text' value) (hblank : ∀ char ∈ text'.head?, isBlank char = false)
    (hne : text' ≠ []) :
    Outcome (readMember readJson) (text ++ ':' :: text') (value.map fun value => (key, value)) := by
  intro rest hrest
  have hcolon : skipBlanks (':' :: (text' ++ rest)) = some ((), ':' :: (text' ++ rest)) := rfl
  have hliteral : literal [':'] (':' :: (text' ++ rest)) = some ((), text' ++ rest) :=
    reads_literal [':'] _
  have hstart : skipBlanks (text' ++ rest) = some ((), text' ++ rest) := by
    obtain ⟨first, others, rfl⟩ := List.exists_cons_of_ne_nil hne
    exact skipBlanks_of_not_blank hblank
  rw [List.append_assoc, List.cons_append, readMember, bind_of_some (hkey _),
    bind_of_some hcolon, bind_of_some hliteral, bind_of_some hstart]
  have hread := hvalue rest hrest
  cases value with
  | none => exact bind_of_none hread
  | some value => exact bind_of_some hread

theorem outcome_string {chars : Option Text} (h : Outcome readString ('"' :: text) chars) :
    Outcome (readValue (depth + 1)) ('"' :: text) (chars.map string) := by
  intro rest hrest
  rw [readValue, List.cons_append]
  dsimp only
  rw [List.head?_cons, if_pos rfl]
  exact h.map string rest hrest

/-- An array is read as its items are. -/
theorem outcome_array {items : Option (List Json)}
    (h : Outcome (readSequence (readValue depth) ']') text items) :
    Outcome (readValue (depth + 1)) ('[' :: text) (items.map array) := by
  intro rest hrest
  rw [readValue, List.cons_append]
  dsimp only
  rw [List.head?_cons, if_neg (by decide), if_pos rfl]
  exact h.map array rest hrest

/-- An object is read as its members are. -/
theorem outcome_object {members : Option (List (Text × Json))}
    (h : Outcome (readSequence (readMember (readValue depth)) '}') text members) :
    Outcome (readValue (depth + 1)) ('{' :: text) (members.map object) := by
  intro rest hrest
  rw [readValue, List.cons_append]
  dsimp only
  rw [List.head?_cons, if_neg (by decide), if_neg (by decide),
    if_pos rfl]
  exact h.map object rest hrest

private theorem no_constant {first : Char} (hfirst : first.isDigit = true) (rest : Text) :
    (constants.find? fun constant => constant.1.isPrefixOf (first :: rest)) = none := by
  have hheads : ∀ constant ∈ constants, ∃ char others,
      constant.1 = char :: others ∧ char.isDigit = false := by
    unfold constants
    simp only [List.mem_cons, List.not_mem_nil, or_false, forall_eq_or_imp, forall_eq]
    refine ⟨?_, ?_, ?_, ?_, ?_, ?_⟩ <;> exact ⟨_, _, rfl, by decide⟩
  rw [List.find?_eq_none]
  intro constant hmem hstart
  obtain ⟨char, others, hconstant, hnot⟩ := hheads constant hmem
  rw [hconstant, List.isPrefixOf_cons_cons, Bool.and_eq_true, beq_iff_eq] at hstart
  rw [hstart.1, hfirst] at hnot
  cases hnot

/-- A number without a leading zero, unless it has too many digits. -/
theorem outcome_int {digits : Text} (hne : digits ≠ [])
    (hdigits : ∀ char ∈ digits, char.isDigit = true) (hzero : digits.head? ≠ some '0') :
    Outcome (readValue (depth + 1)) digits
      (if digits.length ≤ PythonText.maxDigits then some (int (Nat.ofDigitChars 10 digits 0))
        else none) := by
  intro rest hrest
  obtain ⟨first, others, rfl⟩ := List.exists_cons_of_ne_nil hne
  have hfirst : first.isDigit = true := hdigits first List.mem_cons_self
  have hother : ∀ char : Char, char.isDigit = false → some first ≠ some char := by
    intro char hchar heq
    rw [← Option.some.inj heq, hfirst] at hchar
    cases hchar
  rw [readValue, List.cons_append]
  dsimp only
  rw [List.head?_cons, if_neg (hother _ (by decide)),
    if_neg (hother _ (by decide)), if_neg (hother _ (by decide)), no_constant hfirst]
  exact outcome_readNumber hne hdigits hzero rest hrest

/-- A text that is read as a value, with a newline behind it. -/
theorem loads_of_outcome (hread : ∀ depth, text.length ≤ depth → Outcome (readValue depth) text value)
    (hblank : ∀ char ∈ text.head?, isBlank char = false) (hne : text ≠ []) :
    loads (text ++ ['\n']) = value := by
  have hstart : skipBlanks (text ++ ['\n']) = some ((), text ++ ['\n']) := by
    obtain ⟨first, others, rfl⟩ := List.exists_cons_of_ne_nil hne
    exact skipBlanks_of_not_blank hblank
  have hvalue := hread ((text ++ ['\n']).length + 1)
    (by rw [List.length_append]; omega) ['\n'] (terminated_cons (by decide) [])
  unfold loads
  rw [hstart, Option.bind_eq_bind, Option.bind_some]
  dsimp only
  rw [hvalue]
  cases value with
  | none => rfl
  | some value => rfl

end Values

end

end Json

end AdaptivePi.Foundation
