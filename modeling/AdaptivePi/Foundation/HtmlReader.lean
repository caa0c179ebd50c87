import AdaptivePi.Foundation.Html
import AdaptivePi.Foundation.PythonText
import AdaptivePi.Foundation.Tokenizer

/-!
Reading HTML. Newlines are normalised, the tokenizer goes through the states that a
writer of documents needs, NUL characters and the newline that begins a `pre` are
dropped, and an element is made of what is between two tags of a name. What is not
read: elements that HTML closes or moves by itself, so that a document has to have
its elements where HTML leaves them.
-/

namespace AdaptivePi.Foundation

namespace Html

open PythonText (universalNewlines)

section Tokens

inductive Token where
  | doctype
  | char (symbol : Char)
  | start (name : Text) (attributes : Attributes)
  | stop (name : Text)
  deriving DecidableEq

/-- The states of the tokenizer, with what is read of a tag or a reference. -/
inductive State where
  | data
  | reference (pending : Text)
  | tagOpen
  | markup (pending : Text)
  | tagName (name : Text)
  | beforeKey (name : Text) (attributes : Attributes)
  | key (name : Text) (attributes : Attributes) (key : Text)
  | beforeValue (name : Text) (attributes : Attributes) (key : Text)
  | value (name : Text) (attributes : Attributes) (key value : Text)
  | valueReference (name : Text) (attributes : Attributes) (key value pending : Text)
  | afterValue (name : Text) (attributes : Attributes)
  | stopName (name : Text)
  | raw (name : Text)
  | rawTagOpen (name : Text)
  | rawStopName (name found : Text)

def contentState (name : Text) : State :=
  if kindOf name = .raw then .raw name else .data

/-- The next state and the tokens for a character, unless it is something that the
reader does not know. -/
def step : State → Char → Option (State × List Token)
  | .data, symbol =>
      if symbol = '<' then some (.tagOpen, [])
      else if symbol = '&' then some (.reference [], [])
      else some (.data, [.char symbol])
  | .reference pending, symbol =>
      if symbol = ';' then (references.lookup pending).map fun symbol => (.data, [.char symbol])
      else some (.reference (pending ++ [symbol]), [])
  | .tagOpen, symbol =>
      if symbol = '/' then some (.stopName [], [])
      else if symbol = '!' then some (.markup [], [])
      else if symbol.isLower then some (.tagName [symbol], [])
      else none
  | .markup pending, symbol =>
      if symbol = '>' then
        if pending = "doctype html".toList then some (.data, [.doctype]) else none
      else some (.markup (pending ++ [symbol]), [])
  | .tagName name, symbol =>
      if symbol = '>' then some (contentState name, [.start name []])
      else if symbol = ' ' then some (.beforeKey name [], [])
      else if isNameChar symbol then some (.tagName (name ++ [symbol]), [])
      else none
  | .beforeKey name attributes, symbol =>
      if isNameChar symbol then some (.key name attributes [symbol], []) else none
  | .key name attributes key, symbol =>
      if symbol = '=' then
        if (attributes.map Prod.fst).contains key then none
        else some (.beforeValue name attributes key, [])
      else if isNameChar symbol then some (.key name attributes (key ++ [symbol]), [])
      else none
  | .beforeValue name attributes key, symbol =>
      if symbol = '"' then some (.value name attributes key [], []) else none
  | .value name attributes key value, symbol =>
      if symbol = '"' then some (.afterValue name (attributes ++ [(key, value)]), [])
      else if symbol = '&' then some (.valueReference name attributes key value [], [])
      else some (.value name attributes key (value ++ [symbol]), [])
  | .valueReference name attributes key value pending, symbol =>
      if symbol = ';' then
        (references.lookup pending).map fun symbol =>
          (.value name attributes key (value ++ [symbol]), [])
      else some (.valueReference name attributes key value (pending ++ [symbol]), [])
  | .afterValue name attributes, symbol =>
      if symbol = '>' then some (contentState name, [.start name attributes])
      else if symbol = ' ' then some (.beforeKey name attributes, [])
      else none
  | .stopName name, symbol =>
      if symbol = '>' then some (.data, [.stop name])
      else if isNameChar symbol && (name ≠ [] || symbol.isLower) then
        some (.stopName (name ++ [symbol]), [])
      else none
  | .raw name, symbol =>
      if symbol = '<' then some (.rawTagOpen name, [])
      else if symbol = '&' then none
      else some (.raw name, [.char symbol])
  | .rawTagOpen name, symbol => if symbol = '/' then some (.rawStopName name [], []) else none
  | .rawStopName name found, symbol =>
      if symbol = '>' then if found = name then some (.data, [.stop name]) else none
      else some (.rawStopName name (found ++ [symbol]), [])

def reader : Tokenizer State Char Token where
  step := step
  finish := fun state => if state matches .data then some [] else none

def tokens : Html → List Token
  | .nil => []
  | .char symbol rest => .char symbol :: rest.tokens
  | .element tag content rest =>
      .start tag.name tag.attributes :: content.tokens ++ .stop tag.name :: rest.tokens
  | .void tag rest => .start tag.name tag.attributes :: rest.tokens
  | .raw tag content rest =>
      .start tag.name tag.attributes :: content.text.map .char ++ .stop tag.name :: rest.tokens

end Tokens

section Reading

open Tokenizer (Reads)

variable {name : Text} {attributes : Attributes} {kind : Kind}

theorem mem_references {pair : Text × Char} (hmem : pair ∈ references) :
    references.lookup pair.1 = some pair.2 ∧ ';' ∉ pair.1 := by
  have hall : ∀ pair ∈ references, references.lookup pair.1 = some pair.2 ∧ ';' ∉ pair.1 := by decide
  exact hall pair hmem

/-- How a character is written: by a reference, or as itself if it is not special. -/
theorem escapeChar_cases (symbol : Char) :
    (∃ name, escapeChar symbol = '&' :: (name ++ [';']) ∧ (name, symbol) ∈ references) ∨
    (escapeChar symbol = [symbol] ∧ symbol ≠ '<' ∧ symbol ≠ '&' ∧ symbol ≠ '"') := by
  unfold escapeChar
  cases hfound : references.find? (·.2 = symbol) with
  | some pair =>
      obtain ⟨name, found⟩ := pair
      have hsymbol : found = symbol := by simpa using List.find?_some hfound
      exact .inl ⟨name, rfl, hsymbol ▸ List.mem_of_find?_eq_some hfound⟩
  | none =>
      refine .inr ⟨rfl, ?_, ?_, ?_⟩
      all_goals
        rintro rfl
        cases hfound

/-- A reference is read as its character. -/
theorem reads_reference {pending : Text} {symbol : Char}
    (hlookup : references.lookup pending = some symbol) (hpending : ';' ∉ pending) :
    reader.Reads .data ('&' :: (pending ++ [';'])) [.char symbol] .data := by
  have hname : reader.Reads (.reference []) pending [] (.reference pending) := by
    apply Reads.accumulate State.reference []
    intro seen other hother
    exact if_neg (ne_of_mem_of_not_mem hother hpending)
  apply Reads.cons rfl
  apply Reads.snoc hname
  change (references.lookup pending).map _ = _
  rw [hlookup]
  rfl

/-- Whatever is escaped is read back. -/
theorem reads_escapeChar (symbol : Char) :
    reader.Reads .data (escapeChar symbol) [.char symbol] .data := by
  rcases escapeChar_cases symbol with ⟨pending, heq, hmem⟩ | ⟨heq, hless, hand, -⟩
  · obtain ⟨hlookup, hpending⟩ := mem_references hmem
    rw [heq]
    exact reads_reference hlookup hpending
  · rw [heq]
    apply Reads.single
    exact (if_neg hless).trans (if_neg hand)

theorem reads_valueReference {key value pending : Text} {symbol : Char}
    (hlookup : references.lookup pending = some symbol) (hpending : ';' ∉ pending) :
    reader.Reads (.value name attributes key value) ('&' :: (pending ++ [';'])) []
      (.value name attributes key (value ++ [symbol])) := by
  have hname : reader.Reads (.valueReference name attributes key value []) pending []
      (.valueReference name attributes key value pending) := by
    apply Reads.accumulate (State.valueReference name attributes key value) []
    intro seen other hother
    exact if_neg (ne_of_mem_of_not_mem hother hpending)
  apply Reads.cons rfl
  apply Reads.snoc hname
  change (references.lookup pending).map _ = _
  rw [hlookup]
  rfl

/-- The value of an attribute is read as it has been written. -/
theorem reads_value (key value text : Text) :
    reader.Reads (.value name attributes key value) (escape text) []
      (.value name attributes key (value ++ text)) := by
  induction text generalizing value with
  | nil =>
      rw [List.append_nil]
      exact Reads.refl
  | cons symbol text ih =>
      have hsymbol : reader.Reads (.value name attributes key value) (escapeChar symbol) []
          (.value name attributes key (value ++ [symbol])) := by
        rcases escapeChar_cases symbol with ⟨pending, heq, hmem⟩ | ⟨heq, -, hand, hquote⟩
        · obtain ⟨hlookup, hpending⟩ := mem_references hmem
          rw [heq]
          exact reads_valueReference hlookup hpending
        · rw [heq]
          apply Reads.single
          exact (if_neg hquote).trans (if_neg hand)
      have hrest := ih (value ++ [symbol])
      rw [List.append_assoc, List.singleton_append] at hrest
      exact hsymbol.append hrest

theorem isNameChar_spec {symbol : Char} (hsymbol : isNameChar symbol = true) :
    symbol ≠ '>' ∧ symbol ≠ ' ' ∧ symbol ≠ '=' := by
  refine ⟨?_, ?_, ?_⟩
  all_goals
    rintro rfl
    cases hsymbol

theorem isName_spec (hname : isName name = true) :
    ∃ first rest, name = first :: rest ∧ first.isLower = true ∧
      ∀ symbol ∈ name, isNameChar symbol = true := by
  unfold isName at hname
  rw [Bool.and_eq_true, List.all_eq_true] at hname
  cases name with
  | nil => cases hname.1
  | cons first rest => exact ⟨first, rest, rfl, hname.1, hname.2⟩

/-- After a name or a value, there may be another attribute. -/
theorem reads_attribute {state : State} {pair : Text × Text}
    (hstate : reader.step state ' ' = some (.beforeKey name attributes, []))
    (hkey : isName pair.1 = true) (hnew : (attributes.map Prod.fst).contains pair.1 = false) :
    reader.Reads state (writeAttribute pair) [] (.afterValue name (attributes ++ [pair])) := by
  obtain ⟨key, value⟩ := pair
  obtain ⟨first, rest, rfl, -, hchars⟩ := isName_spec hkey
  have hrest : reader.Reads (.key name attributes [first]) rest [] (.key name attributes (first :: rest)) := by
    apply Reads.accumulate (State.key name attributes) [first]
    intro seen symbol hsymbol
    have hchar := hchars symbol (List.mem_cons_of_mem _ hsymbol)
    exact (if_neg (isNameChar_spec hchar).2.2).trans (if_pos hchar)
  have hvalue := @reads_value name attributes (first :: rest) [] value
  have hequals : reader.step (.key name attributes (first :: rest)) '=' =
      some (.beforeValue name attributes (first :: rest), []) := by
    change (if (attributes.map Prod.fst).contains (first :: rest) = true then none else _) = _
    rw [hnew]
    rfl
  have hquote : reader.step (.beforeValue name attributes (first :: rest)) '"' =
      some (.value name attributes (first :: rest) [], []) := rfl
  have hclose : reader.step (.value name attributes (first :: rest) value) '"' =
      some (.afterValue name (attributes ++ [(first :: rest, value)]), []) := rfl
  have hopened := Reads.cons hequals (Reads.cons hquote (hvalue.snoc hclose))
  have hfirst : reader.step (.beforeKey name attributes) first = some (.key name attributes [first], []) :=
    if_pos (hchars first List.mem_cons_self)
  have hall := Reads.cons hstate (Reads.cons hfirst (hrest.append hopened))
  simpa [writeAttribute] using hall

theorem isDistinct_append_cons {keys rest : List Text} {key : Text}
    (h : isDistinct (keys ++ key :: rest) = true) : keys.contains key = false := by
  induction keys with
  | nil => rfl
  | cons first keys ih =>
      rw [List.cons_append, isDistinct, Bool.and_eq_true, Bool.not_eq_true'] at h
      have hkey : key ≠ first := by
        rintro rfl
        simp at h
      rw [List.contains_cons, ih h.2, Bool.or_false]
      simpa using hkey

/-- The attributes of a start tag, after those that are read already. -/
theorem reads_attributes {state : State} {seen rest : Attributes}
    (hspace : reader.step state ' ' = some (.beforeKey name seen, []))
    (hend : reader.step state '>' = some (contentState name, [.start name seen]))
    (hkeys : ((seen ++ rest).map Prod.fst).all isName = true)
    (hdistinct : isDistinct ((seen ++ rest).map Prod.fst) = true) :
    reader.Reads state (rest.flatMap writeAttribute ++ ['>']) [.start name (seen ++ rest)]
      (contentState name) := by
  induction rest generalizing state seen with
  | nil =>
      rw [List.append_nil]
      exact Reads.single hend
  | cons pair rest ih =>
      have hkey : isName pair.1 = true := by
        rw [List.map_append, List.all_append, Bool.and_eq_true, List.map_cons, List.all_cons,
          Bool.and_eq_true] at hkeys
        exact hkeys.2.1
      have hnew : (seen.map Prod.fst).contains pair.1 = false := by
        rw [List.map_append, List.map_cons] at hdistinct
        exact isDistinct_append_cons hdistinct
      have hsplit : seen ++ pair :: rest = (seen ++ [pair]) ++ rest := by simp
      rw [List.flatMap_cons, List.append_assoc, hsplit]
      rw [hsplit] at hkeys hdistinct
      exact (reads_attribute hspace hkey hnew).append
        (@ih (.afterValue name (seen ++ [pair])) _ rfl rfl hkeys hdistinct)

/-- A start tag is read with its attributes. -/
theorem reads_start (tag : Tag kind) :
    reader.Reads .data (writeStart tag.name tag.attributes) [.start tag.name tag.attributes]
      (contentState tag.name) := by
  obtain ⟨hname, -, hkeys, hdistinct⟩ := tag.spec
  obtain ⟨first, rest, hfirst, hlower, hchars⟩ := isName_spec hname
  have hopen : reader.step .tagOpen first = some (.tagName [first], []) := by
    refine (if_neg ?_).trans ((if_neg ?_).trans (if_pos hlower))
    all_goals
      rintro rfl
      cases hlower
  have hrest : reader.Reads (.tagName [first]) rest [] (.tagName tag.name) := by
    rw [hfirst] at hchars ⊢
    apply Reads.accumulate State.tagName [first]
    intro seen symbol hsymbol
    have hchar := hchars symbol (List.mem_cons_of_mem _ hsymbol)
    obtain ⟨hgreater, hspace, -⟩ := isNameChar_spec hchar
    exact (if_neg hgreater).trans ((if_neg hspace).trans (if_pos hchar))
  have hattributes := @reads_attributes tag.name (.tagName tag.name) [] tag.attributes rfl rfl hkeys
    hdistinct
  have hless : reader.step .data '<' = some (.tagOpen, []) := rfl
  have hall := Reads.cons hless (Reads.cons hopen (hrest.append hattributes))
  have hwrite : writeStart tag.name tag.attributes =
      '<' :: first :: (rest ++ (tag.attributes.flatMap writeAttribute ++ ['>'])) := by
    unfold writeStart
    conv_lhs => rw [hfirst]
    simp
  rw [hwrite]
  exact hall

theorem reads_stop (hname : isName name = true) :
    reader.Reads .data (writeStop name) [.stop name] .data := by
  obtain ⟨first, rest, rfl, hlower, hchars⟩ := isName_spec hname
  have hfirst : reader.step (.stopName []) first = some (.stopName [first], []) := by
    have hchar := hchars first List.mem_cons_self
    refine (if_neg (isNameChar_spec hchar).1).trans (if_pos ?_)
    rw [hchar, hlower]
    rfl
  have hrest : reader.Reads (.stopName [first]) rest [] (.stopName (first :: rest)) := by
    apply Reads.accumulate (fun seen => State.stopName (first :: seen)) []
    intro seen symbol hsymbol
    have hchar := hchars symbol (List.mem_cons_of_mem _ hsymbol)
    refine (if_neg (isNameChar_spec hchar).1).trans (if_pos ?_)
    rw [hchar]
    rfl
  have hless : reader.step .data '<' = some (.tagOpen, []) := rfl
  have hslash : reader.step .tagOpen '/' = some (.stopName [], []) := rfl
  have hgreater : reader.step (.stopName (first :: rest)) '>' = some (.data, [.stop (first :: rest)]) := rfl
  exact Reads.cons hless (Reads.cons hslash (Reads.cons hfirst (hrest.snoc hgreater)))

theorem reads_raw (hname : isName name = true) (hkind : kindOf name = .raw) (content : RawText) :
    reader.Reads (contentState name) (content.text ++ writeStop name) (content.text.map .char ++ [.stop name])
      .data := by
  have hcontent : ∀ text : Text, text.all isRawChar = true →
      reader.Reads (.raw name) text (text.map .char) (.raw name) := by
    intro text htext
    induction text with
    | nil => exact Reads.refl
    | cons symbol text ih =>
        rw [List.all_cons, Bool.and_eq_true] at htext
        have hraw := htext.1
        simp only [isRawChar, Bool.and_eq_true, decide_eq_true_eq] at hraw
        obtain ⟨hsymbol, -⟩ := hraw
        have hfirst : reader.step (.raw name) symbol = some (.raw name, [.char symbol]) :=
          (if_neg hsymbol.1).trans (if_neg hsymbol.2)
        exact (Reads.single hfirst).append (ih htext.2)
  have hstop : reader.Reads (.raw name) (writeStop name) [.stop name] .data := by
    have hless : reader.step (.raw name) '<' = some (.rawTagOpen name, []) := rfl
    have hslash : reader.step (.rawTagOpen name) '/' = some (.rawStopName name [], []) := rfl
    have hfound : reader.Reads (.rawStopName name []) name [] (.rawStopName name name) := by
      apply Reads.accumulate (State.rawStopName name) []
      intro seen symbol hsymbol
      obtain ⟨-, -, -, -, hchars⟩ := isName_spec hname
      exact if_neg (isNameChar_spec (hchars symbol hsymbol)).1
    have hgreater : reader.step (.rawStopName name name) '>' = some (.data, [.stop name]) := by
      change (if name = name then _ else _) = _
      rw [if_pos rfl]
    exact Reads.cons hless (Reads.cons hslash (hfound.snoc hgreater))
  unfold contentState
  rw [if_pos hkind]
  exact (hcontent content.text content.valid).append hstop

/-- The tokens of a forest are read from the text that is written for it. -/
theorem reads_write (forest : Html) : reader.Reads .data forest.write forest.tokens .data := by
  induction forest with
  | nil => exact Reads.refl
  | char symbol rest ih => exact (reads_escapeChar symbol).append ih
  | element tag content rest ihcontent ih =>
      obtain ⟨hname, hkind, -, -⟩ := tag.spec
      have hstart := reads_start tag
      have hstate : contentState tag.name = .data := by
        unfold contentState
        rw [hkind, if_neg (by decide)]
      rw [hstate] at hstart
      have hall := ((hstart.append ihcontent).append (reads_stop hname)).append ih
      simpa [write, tokens] using hall
  | void tag rest ih =>
      obtain ⟨-, hkind, -, -⟩ := tag.spec
      have hstart := reads_start tag
      have hstate : contentState tag.name = .data := by
        unfold contentState
        rw [hkind, if_neg (by decide)]
      rw [hstate] at hstart
      exact hstart.append ih
  | raw tag content rest ih =>
      obtain ⟨hname, hkind, -, -⟩ := tag.spec
      have hall := ((reads_start tag).append (reads_raw hname hkind content)).append ih
      simpa [write, tokens] using hall

end Reading

section Newlines

variable {afterReturn : Bool} {symbol : Char} {rest : Text} {kind : Kind}

/-- Newlines are normalised; after a carriage return a newline is part of it. -/
def newlinesFrom : Bool → Text → Text
  | _, [] => []
  | afterReturn, symbol :: rest =>
      if afterReturn && symbol = '\n' then newlinesFrom false rest
      else (if symbol = '\r' then '\n' else symbol) :: newlinesFrom (symbol = '\r') rest

theorem newlinesFrom_of_head (hrest : rest.head? ≠ some '\n') :
    newlinesFrom afterReturn rest = newlinesFrom false rest := by
  cases rest with
  | nil => rfl
  | cons symbol rest =>
      have hsymbol : symbol ≠ '\n' := fun heq => hrest (congrArg some heq)
      simp [newlinesFrom, hsymbol]

theorem newlinesFrom_false (text : Text) : newlinesFrom false text = universalNewlines text := by
  induction text using PythonText.universalNewlines.induct with
  | case1 => rfl
  | case2 rest ih => exact congrArg ('\n' :: ·) ih
  | case3 symbol rest hnot ih =>
      have hrest : newlinesFrom (symbol = '\r') rest = newlinesFrom false rest := by
        by_cases hreturn : symbol = '\r'
        · apply newlinesFrom_of_head
          intro hhead
          obtain ⟨tail, rfl⟩ := List.head?_eq_some_iff.mp hhead
          exact hnot tail hreturn rfl
        · rw [decide_eq_false hreturn]
      have hcons : universalNewlines (symbol :: rest) =
          (if symbol = '\r' then '\n' else symbol) :: universalNewlines rest := by
        rw [universalNewlines]
        exact hnot
      rw [hcons, ← ih, ← hrest]
      rfl

def isUnbroken (text : Text) : Bool := text.all fun symbol => symbol ≠ '\r' && symbol ≠ '\n'

theorem newlinesFrom_cons (hreturn : symbol ≠ '\r') (hnewline : symbol ≠ '\n') :
    newlinesFrom afterReturn (symbol :: rest) = symbol :: newlinesFrom false rest := by
  simp [newlinesFrom, hreturn, hnewline]

/-- A text without newlines stays, and what follows begins anew. -/
theorem newlinesFrom_append {text : Text} (hne : text ≠ []) (h : isUnbroken text = true) :
    newlinesFrom afterReturn (text ++ rest) = text ++ newlinesFrom false rest := by
  induction text generalizing afterReturn with
  | nil => exact absurd rfl hne
  | cons symbol text ih =>
      obtain ⟨⟨hreturn, hnewline⟩, hrest⟩ : (symbol ≠ '\r' ∧ symbol ≠ '\n') ∧ isUnbroken text = true := by
        simpa [isUnbroken] using h
      rw [List.cons_append, newlinesFrom_cons hreturn hnewline]
      cases text with
      | nil => rfl
      | cons second text =>
          rw [ih (List.cons_ne_nil _ _) hrest]
          rfl

/-- Normalising the text is normalising its characters, since references have no ends of lines. -/
theorem newlinesFrom_escapeChar (symbol : Char) (rest : Text) :
    newlinesFrom afterReturn (escapeChar symbol ++ rest) =
      if afterReturn && symbol = '\n' then newlinesFrom false rest
      else escapeChar (if symbol = '\r' then '\n' else symbol) ++
        newlinesFrom (symbol = '\r') rest := by
  rcases escapeChar_cases symbol with ⟨name, heq, hmem⟩ | ⟨heq, -⟩
  · have hreferences : ∀ pair ∈ references, isUnbroken ('&' :: (pair.1 ++ [';'])) = true ∧
        pair.2 ≠ '\r' ∧ pair.2 ≠ '\n' := by decide
    obtain ⟨hunbroken, hreturn, hnewline⟩ := hreferences _ hmem
    simp only [hnewline, hreturn, decide_false, Bool.and_false, Bool.false_eq_true, if_false, heq]
    exact newlinesFrom_append (List.cons_ne_nil _ _) hunbroken
  · have hnewline : escapeChar '\n' = ['\n'] := rfl
    rw [heq, List.singleton_append, newlinesFrom]
    by_cases hreturn : symbol = '\r'
    · simp [hreturn, hnewline]
    · simp [hreturn, heq]

/-- The value of an attribute, up to its quote. -/
theorem newlinesFrom_escape (text rest : Text) :
    newlinesFrom afterReturn (escape text ++ '"' :: rest) =
      escape (newlinesFrom afterReturn text) ++ '"' :: newlinesFrom false rest := by
  induction text generalizing afterReturn with
  | nil => exact newlinesFrom_cons (by decide) (by decide)
  | cons symbol text ih =>
      rw [escape, List.flatMap_cons, List.append_assoc, newlinesFrom_escapeChar, newlinesFrom]
      split
      · exact ih
      · rw [escape, List.flatMap_cons, List.append_assoc]
        exact congrArg (_ ++ ·) ih

theorem isUnbroken_append (left right : Text) :
    isUnbroken (left ++ right) = (isUnbroken left && isUnbroken right) :=
  List.all_append

theorem isUnbroken_of_isName {name : Text} (hname : isName name = true) : isUnbroken name = true := by
  unfold isName at hname
  unfold isUnbroken
  rw [Bool.and_eq_true, List.all_eq_true] at hname
  rw [List.all_eq_true]
  intro symbol hsymbol
  have hchar := hname.2 symbol hsymbol
  rw [Bool.and_eq_true, decide_eq_true_eq, decide_eq_true_eq]
  constructor
  all_goals
    rintro rfl
    cases hchar

theorem newlinesFrom_writeAttribute {pair : Text × Text} (hkey : isName pair.1 = true) :
    newlinesFrom afterReturn (writeAttribute pair ++ rest) =
      writeAttribute (pair.1, universalNewlines pair.2) ++ newlinesFrom false rest := by
  have hunbroken : isUnbroken (" ".toList ++ pair.1 ++ "=\"".toList) = true := by
    rw [isUnbroken_append, isUnbroken_append, isUnbroken_of_isName hkey]
    rfl
  have hwrite : ∀ value rest : Text, writeAttribute (pair.1, value) ++ rest =
      (" ".toList ++ pair.1 ++ "=\"".toList) ++ (escape value ++ '"' :: rest) := by
    intro value rest
    simp [writeAttribute]
  rw [hwrite pair.2, newlinesFrom_append (by simp) hunbroken, newlinesFrom_escape,
    newlinesFrom_false, ← hwrite]

theorem newlinesFrom_attributes {attributes : Attributes}
    (hkeys : (attributes.map Prod.fst).all isName = true) :
    newlinesFrom false (attributes.flatMap writeAttribute ++ rest) =
      (attributes.map fun pair => (pair.1, universalNewlines pair.2)).flatMap writeAttribute ++
        newlinesFrom false rest := by
  induction attributes with
  | nil => rfl
  | cons pair attributes ih =>
      rw [List.map_cons, List.all_cons, Bool.and_eq_true] at hkeys
      rw [List.flatMap_cons, List.append_assoc, newlinesFrom_writeAttribute hkeys.1, ih hkeys.2,
        List.map_cons, List.flatMap_cons, List.append_assoc]

/-- In a tag, only the values change. -/
theorem newlinesFrom_writeStart (tag : Tag kind) :
    newlinesFrom afterReturn (writeStart tag.name tag.attributes ++ rest) =
      writeStart tag.name (tag.map universalNewlines).attributes ++ newlinesFrom false rest := by
  obtain ⟨hname, -, hkeys, -⟩ := tag.spec
  have hunbroken : isUnbroken ("<".toList ++ tag.name) = true := by
    rw [isUnbroken_append, isUnbroken_of_isName hname]
    rfl
  have hwrite : ∀ attributes : Attributes, ∀ rest : Text, writeStart tag.name attributes ++ rest =
      ("<".toList ++ tag.name) ++ (attributes.flatMap writeAttribute ++ '>' :: rest) := by
    intro attributes rest
    simp [writeStart]
  rw [hwrite, newlinesFrom_append (by simp) hunbroken, newlinesFrom_attributes hkeys,
    newlinesFrom_cons (by decide) (by decide), hwrite]
  rfl

theorem newlinesFrom_writeStop {name : Text} (hname : isName name = true) :
    newlinesFrom afterReturn (writeStop name ++ rest) = writeStop name ++ newlinesFrom false rest := by
  have hunbroken : isUnbroken ("</".toList ++ name ++ ">".toList) = true := by
    rw [isUnbroken_append, isUnbroken_append, isUnbroken_of_isName hname]
    rfl
  exact newlinesFrom_append (List.cons_ne_nil _ _) hunbroken

/-- A document, with its newlines normalised. -/
def withNewlines : Bool → Html → Html
  | _, .nil => .nil
  | afterReturn, .char symbol rest =>
      if afterReturn && symbol = '\n' then rest.withNewlines false
      else .char (if symbol = '\r' then '\n' else symbol) (rest.withNewlines (symbol = '\r'))
  | _, .element tag content rest =>
      .element (tag.map universalNewlines) (content.withNewlines false) (rest.withNewlines false)
  | _, .void tag rest => .void (tag.map universalNewlines) (rest.withNewlines false)
  | _, .raw tag content rest => .raw (tag.map universalNewlines) content (rest.withNewlines false)

theorem newlinesFrom_rawText (content : RawText) :
    newlinesFrom false (content.text ++ rest) = content.text ++ newlinesFrom false rest := by
  have hcontent : ∀ text : Text, text.all isRawChar = true →
      newlinesFrom false (text ++ rest) = text ++ newlinesFrom false rest := by
    intro text htext
    induction text with
    | nil => rfl
    | cons symbol text ih =>
        rw [List.all_cons, Bool.and_eq_true] at htext
        have hreturn : symbol ≠ '\r' := by
          rintro rfl
          cases htext.1
        rw [List.cons_append, List.cons_append, ← ih htext.2]
        simp [newlinesFrom, hreturn]
  exact hcontent content.text content.valid

/-- Newlines in the text of a document are those of the document. -/
theorem newlinesFrom_write (afterReturn : Bool) (forest : Html) (rest : Text)
    (hrest : rest.head? ≠ some '\n') :
    newlinesFrom afterReturn (forest.write ++ rest) =
      (forest.withNewlines afterReturn).write ++ newlinesFrom false rest := by
  induction forest generalizing afterReturn rest with
  | nil => exact newlinesFrom_of_head hrest
  | char symbol forest ih =>
      rw [write, List.append_assoc, newlinesFrom_escapeChar, withNewlines]
      split
      · exact ih false rest hrest
      · rw [ih _ rest hrest, write, List.append_assoc]
  | element tag content forest ihcontent ih =>
      obtain ⟨hname, -⟩ := tag.spec
      have hstop : (writeStop tag.name ++ (forest.write ++ rest)).head? ≠ some '\n' := by
        unfold writeStop
        simp
      rw [write, withNewlines, write]
      simp only [List.append_assoc]
      rw [newlinesFrom_writeStart, ihcontent false _ hstop, newlinesFrom_writeStop hname,
        ih false rest hrest]
      rfl
  | void tag forest ih =>
      rw [write, withNewlines, write, List.append_assoc, newlinesFrom_writeStart, ih false rest hrest,
        List.append_assoc]
      rfl
  | raw tag content forest ih =>
      obtain ⟨hname, -⟩ := tag.spec
      rw [write, withNewlines, write]
      simp only [List.append_assoc]
      rw [newlinesFrom_writeStart, newlinesFrom_rawText, newlinesFrom_writeStop hname,
        ih false rest hrest]
      rfl

end Newlines

section Ignoring

variable {kind : Kind}

/-- In the value of an attribute a NUL is replaced. -/
def replaceNul (text : Text) : Text := text.map fun symbol => if symbol = '\x00' then '\ufffd' else symbol

def dropsNewline (name : Text) : Bool := name = "pre".toList

/-- In a text a NUL is dropped, and so is the newline that begins a `pre`. -/
def isIgnored (afterPre : Bool) (symbol : Char) : Bool :=
  symbol = '\x00' || afterPre && symbol = '\n'

def keptTokens : Bool → List Token → List Token
  | _, [] => []
  | afterPre, .char symbol :: rest =>
      if isIgnored afterPre symbol then keptTokens false rest
      else .char symbol :: keptTokens false rest
  | _, .start name attributes :: rest =>
      .start name (attributes.map fun pair => (pair.1, replaceNul pair.2)) ::
        keptTokens (dropsNewline name) rest
  | _, token :: rest => token :: keptTokens false rest

/-- A document, with what is ignored dropped. -/
def withoutIgnored : Bool → Html → Html
  | _, .nil => .nil
  | afterPre, .char symbol rest =>
      if isIgnored afterPre symbol then rest.withoutIgnored false
      else .char symbol (rest.withoutIgnored false)
  | _, .element tag content rest =>
      .element (tag.map replaceNul) (content.withoutIgnored (dropsNewline tag.name))
        (rest.withoutIgnored false)
  | _, .void tag rest => .void (tag.map replaceNul) (rest.withoutIgnored false)
  | _, .raw tag content rest => .raw (tag.map replaceNul) content (rest.withoutIgnored false)

@[simp] theorem keptTokens_stop (afterPre : Bool) (name : Text) (rest : List Token) :
    keptTokens afterPre (.stop name :: rest) = .stop name :: keptTokens false rest := by
  simp [keptTokens]

theorem dropsNewline_of_ne_normal (tag : Tag kind) (hkind : kind ≠ .normal) :
    dropsNewline tag.name = false := by
  obtain ⟨-, hkindOf, -⟩ := tag.spec
  apply decide_eq_false
  intro hname
  rw [hname] at hkindOf
  exact hkind hkindOf.symm

theorem keptTokens_rawText (content : RawText) (rest : List Token) :
    keptTokens false (content.text.map .char ++ rest) =
      content.text.map .char ++ keptTokens false rest := by
  have hcontent : ∀ text : Text, text.all isRawChar = true →
      keptTokens false (text.map .char ++ rest) = text.map .char ++ keptTokens false rest := by
    intro text htext
    induction text with
    | nil => rfl
    | cons symbol text ih =>
        rw [List.all_cons, Bool.and_eq_true] at htext
        have hnul : symbol ≠ '\x00' := by
          rintro rfl
          cases htext.1
        have hkept : isIgnored false symbol = false := by simp [isIgnored, hnul]
        rw [List.map_cons, List.cons_append, keptTokens, hkept, ih htext.2]
        rfl
  exact hcontent content.text content.valid

/-- The tokens that are kept of a document are those of the document without what is
ignored. -/
theorem keptTokens_tokens (afterPre : Bool) (forest : Html) (rest : List Token)
    (hrest : keptTokens afterPre rest = keptTokens false rest) :
    keptTokens afterPre (forest.tokens ++ rest) =
      (forest.withoutIgnored afterPre).tokens ++ keptTokens false rest := by
  induction forest generalizing afterPre rest with
  | nil => exact hrest
  | char symbol forest ih =>
      rw [tokens, List.cons_append, keptTokens, withoutIgnored, ih false rest rfl]
      split
      · rfl
      · rw [tokens, List.cons_append]
  | element tag content forest ihcontent ih =>
      rw [tokens, withoutIgnored, tokens]
      simp only [List.cons_append, List.append_assoc]
      rw [keptTokens, ihcontent _ _ (by rw [keptTokens_stop, keptTokens_stop]), keptTokens_stop,
        ih false rest rfl]
      rfl
  | void tag forest ih =>
      have hdrops := dropsNewline_of_ne_normal tag (by decide)
      rw [tokens, withoutIgnored, tokens, List.cons_append, keptTokens, hdrops, ih false rest rfl]
      rfl
  | raw tag content forest ih =>
      have hdrops := dropsNewline_of_ne_normal tag (by decide)
      rw [tokens, withoutIgnored, tokens]
      simp only [List.cons_append, List.append_assoc]
      rw [keptTokens, hdrops, keptTokens_rawText, keptTokens_stop, ih false rest rfl]
      rfl

end Ignoring

section Parsing

open Tokenizer (Reads)

/-- An element that is not closed yet, and what is before it. -/
structure Frame where
  name : Text
  attributes : Attributes
  before : Html

def Tag.of (kind : Kind) (name : Text) (attributes : Attributes) : Option (Tag kind) :=
  if h : isTag kind name (attributes.map Prod.fst) = true then some ⟨name, attributes, h⟩ else none

def RawText.of (text : Text) : Option RawText :=
  if h : text.all isRawChar = true then some ⟨text, h⟩ else none

/-- The characters of a forest that has nothing else. -/
def textOf : Html → Option Text
  | .nil => some []
  | .char symbol rest => rest.textOf.map (symbol :: ·)
  | _ => none

/-- What is before an element, and the element. -/
def Frame.close (frame : Frame) (content : Html) : Option Html :=
  if kindOf frame.name = .raw then do
    let tag ← Tag.of .raw frame.name frame.attributes
    let text ← content.textOf
    let raw ← RawText.of text
    pure (frame.before ++ .raw tag raw .nil)
  else do
    let tag ← Tag.of .normal frame.name frame.attributes
    pure (frame.before ++ .element tag content .nil)

def build : List Frame → Html → List Token → Option Html
  | [], current, [] => some current
  | _ :: _, _, [] => none
  | frames, current, .char symbol :: rest => build frames (current ++ .char symbol .nil) rest
  | frames, current, .start name attributes :: rest =>
      if kindOf name = .void then do
        let tag ← Tag.of .void name attributes
        build frames (current ++ .void tag .nil) rest
      else build (⟨name, attributes, current⟩ :: frames) .nil rest
  | frame :: frames, current, .stop name :: rest =>
      if frame.name = name then do
        let closed ← frame.close current
        build frames closed rest
      else none
  | [], _, .stop _ :: _ => none
  | _, _, .doctype :: _ => none

def declaration : Text := "<!doctype html>".toList

def parse (text : Text) : Option Html := do
  match ← reader.run .data (universalNewlines text) with
  | .doctype :: rest => build [] .nil (keptTokens false rest)
  | _ => none

def asRead (document : Html) : Html := (document.withNewlines false).withoutIgnored false

@[simp] theorem Tag.of_self {kind : Kind} (tag : Tag kind) :
    Tag.of kind tag.name tag.attributes = some tag :=
  dif_pos tag.valid

@[simp] theorem RawText.of_self (content : RawText) : RawText.of content.text = some content :=
  dif_pos content.valid

@[simp] theorem textOf_ofText (text : Text) : (ofText text).textOf = some text := by
  induction text with
  | nil => rfl
  | cons symbol text ih => rw [ofText, textOf, ih, Option.map_some]

theorem build_chars (frames : List Frame) (current : Html) (text : Text) (rest : List Token) :
    build frames current (text.map .char ++ rest) = build frames (current ++ ofText text) rest := by
  induction text generalizing current with
  | nil => rw [ofText, append_nil, List.map_nil, List.nil_append]
  | cons symbol text ih =>
      rw [List.map_cons, List.cons_append, build, ih, append_assoc, char_append, nil_append, ofText]

/-- The tokens of a forest are put together to it, wherever they are. -/
theorem build_tokens (frames : List Frame) (current forest : Html) (rest : List Token) :
    build frames current (forest.tokens ++ rest) = build frames (current ++ forest) rest := by
  induction forest generalizing frames current rest with
  | nil => rw [tokens, List.nil_append, append_nil]
  | char symbol forest ih =>
      rw [tokens, List.cons_append, build, ih, append_assoc, char_append, nil_append]
  | element tag content forest ihcontent ih =>
      obtain ⟨-, hkind, -, -⟩ := tag.spec
      have hclose : (⟨tag.name, tag.attributes, current⟩ : Frame).close content =
          some (current ++ .element tag content .nil) := by
        unfold Frame.close
        rw [if_neg (by rw [hkind]; decide), Tag.of_self]
        rfl
      rw [tokens, List.cons_append, List.cons_append, List.append_assoc, List.cons_append, build,
        if_neg (by rw [hkind]; decide), ihcontent, nil_append, build, if_pos rfl, hclose]
      change build frames (current ++ .element tag content .nil) (forest.tokens ++ rest) = _
      rw [ih, append_assoc, element_append, nil_append]
  | void tag forest ih =>
      obtain ⟨-, hkind, -, -⟩ := tag.spec
      rw [tokens, List.cons_append, build, if_pos hkind, Tag.of_self]
      change build frames (current ++ .void tag .nil) (forest.tokens ++ rest) = _
      rw [ih, append_assoc, void_append, nil_append]
  | raw tag content forest ih =>
      obtain ⟨-, hkind, -, -⟩ := tag.spec
      have hclose : (⟨tag.name, tag.attributes, current⟩ : Frame).close (ofText content.text) =
          some (current ++ .raw tag content .nil) := by
        unfold Frame.close
        rw [if_pos hkind, Tag.of_self, textOf_ofText]
        change (RawText.of content.text).bind _ = _
        rw [RawText.of_self]
        rfl
      rw [tokens, List.cons_append, List.cons_append, List.append_assoc, List.cons_append, build,
        if_neg (by rw [hkind]; decide), build_chars, nil_append, build, if_pos rfl, hclose]
      change build frames (current ++ .raw tag content .nil) (forest.tokens ++ rest) = _
      rw [ih, append_assoc, raw_append, nil_append]

theorem reads_declaration : reader.Reads .data declaration [.doctype] .data := by
  have hless : reader.step .data '<' = some (.tagOpen, []) := rfl
  have hmark : reader.step .tagOpen '!' = some (.markup [], []) := rfl
  have hname : reader.Reads (.markup []) "doctype html".toList [] (.markup "doctype html".toList) := by
    apply Reads.accumulate State.markup []
    intro seen symbol hsymbol
    refine if_neg ?_
    rintro rfl
    exact absurd hsymbol (by decide)
  have hgreater : reader.step (.markup "doctype html".toList) '>' = some (.data, [.doctype]) := rfl
  exact Reads.cons hless (Reads.cons hmark (hname.snoc hgreater))

/-- Whatever the texts of a document are, the document is read with its elements, and
with its texts but for newlines that are normalised and what is ignored. -/
theorem parse_write (document : Html) :
    parse (declaration ++ document.write) = some document.asRead := by
  have htext : universalNewlines (declaration ++ document.write) =
      declaration ++ (document.withNewlines false).write := by
    have hdocument := newlinesFrom_write false document [] (by simp)
    rw [List.append_nil, newlinesFrom, List.append_nil] at hdocument
    have hne : declaration ≠ [] := by decide
    have hunbroken : isUnbroken declaration = true := by decide
    rw [← newlinesFrom_false, newlinesFrom_append hne hunbroken, hdocument]
  have hread := (reads_declaration.append (reads_write (document.withNewlines false))).run_eq rfl
  have hkept := keptTokens_tokens false (document.withNewlines false) [] rfl
  have hbuild := build_tokens [] .nil document.asRead []
  rw [List.append_nil] at hread hkept hbuild
  rw [nil_append] at hbuild
  unfold parse
  rw [htext, hread]
  change build [] .nil (keptTokens false (document.withNewlines false).tokens) = _
  rw [hkept, keptTokens, List.append_nil]
  exact hbuild

end Parsing

section Unchanged

variable {kind : Kind} {key : String}

/-- All that is read of a text is the text. -/
def isKeptText (text : Text) : Bool := text.all isKeptChar

/-- Nothing is normalised or ignored. -/
def isKept : Bool → Html → Bool
  | _, .nil => true
  | afterPre, .char symbol rest =>
      isKeptChar symbol && !(afterPre && symbol = '\n') && rest.isKept false
  | _, .element tag content rest =>
      tag.attributes.all (isKeptText ·.2) && content.isKept (dropsNewline tag.name) && rest.isKept false
  | _, .void tag rest => tag.attributes.all (isKeptText ·.2) && rest.isKept false
  | _, .raw tag _ rest => tag.attributes.all (isKeptText ·.2) && rest.isKept false

theorem isKeptChar_spec {symbol : Char} (h : isKeptChar symbol = true) :
    symbol ≠ '\r' ∧ symbol ≠ '\x00' := by
  simpa [isKeptChar] using h

theorem universalNewlines_of_isKeptText {text : Text} (h : isKeptText text = true) :
    universalNewlines text = text := by
  apply PythonText.universalNewlines_eq_self
  intro hmem
  exact (isKeptChar_spec (List.all_eq_true.mp h _ hmem)).1 rfl

theorem replaceNul_of_isKeptText {text : Text} (h : isKeptText text = true) :
    replaceNul text = text := by
  unfold replaceNul
  conv_rhs => rw [← List.map_id text]
  apply List.map_congr_left
  intro symbol hsymbol
  exact if_neg (isKeptChar_spec (List.all_eq_true.mp h _ hsymbol)).2

theorem Tag.map_eq_self {f : Text → Text} {tag : Tag kind}
    (h : tag.attributes.all (isKeptText ·.2) = true)
    (hf : ∀ {text}, isKeptText text = true → f text = text) : tag.map f = tag := by
  have hattributes : tag.attributes.map (fun pair => (pair.1, f pair.2)) = tag.attributes := by
    conv_rhs => rw [← List.map_id tag.attributes]
    apply List.map_congr_left
    intro pair hpair
    rw [hf (List.all_eq_true.mp h pair hpair)]
    rfl
  unfold Tag.map
  simp only [hattributes]

theorem withNewlines_eq_self {afterPre : Bool} {forest : Html} (h : forest.isKept afterPre = true) :
    forest.withNewlines false = forest := by
  induction forest generalizing afterPre with
  | nil => rfl
  | char symbol forest ih =>
      simp only [isKept, Bool.and_eq_true] at h
      have hreturn := (isKeptChar_spec h.1.1).1
      rw [withNewlines, if_neg hreturn, decide_eq_false hreturn, ih h.2]
      rfl
  | element tag content forest ihcontent ih =>
      simp only [isKept, Bool.and_eq_true] at h
      rw [withNewlines, Tag.map_eq_self h.1.1 universalNewlines_of_isKeptText, ihcontent h.1.2, ih h.2]
  | void tag forest ih =>
      simp only [isKept, Bool.and_eq_true] at h
      rw [withNewlines, Tag.map_eq_self h.1 universalNewlines_of_isKeptText, ih h.2]
  | raw tag content forest ih =>
      simp only [isKept, Bool.and_eq_true] at h
      rw [withNewlines, Tag.map_eq_self h.1 universalNewlines_of_isKeptText, ih h.2]

/-- Nothing is dropped of a document that is kept. -/
theorem withoutIgnored_eq_self {afterPre : Bool} {forest : Html} (h : forest.isKept afterPre = true) :
    forest.withoutIgnored afterPre = forest := by
  induction forest generalizing afterPre with
  | nil => rfl
  | char symbol forest ih =>
      simp only [isKept, Bool.and_eq_true, Bool.not_eq_true'] at h
      have hnul := (isKeptChar_spec h.1.1).2
      have hkept : isIgnored afterPre symbol = false := by
        unfold isIgnored
        rw [h.1.2, decide_eq_false hnul]
        rfl
      rw [withoutIgnored, hkept, ih h.2]
      rfl
  | element tag content forest ihcontent ih =>
      simp only [isKept, Bool.and_eq_true] at h
      rw [withoutIgnored, Tag.map_eq_self h.1.1 replaceNul_of_isKeptText, ihcontent h.1.2, ih h.2]
  | void tag forest ih =>
      simp only [isKept, Bool.and_eq_true] at h
      rw [withoutIgnored, Tag.map_eq_self h.1 replaceNul_of_isKeptText, ih h.2]
  | raw tag content forest ih =>
      simp only [isKept, Bool.and_eq_true] at h
      rw [withoutIgnored, Tag.map_eq_self h.1 replaceNul_of_isKeptText, ih h.2]

/-- A document without carriage returns, NULs and newlines that begin a `pre` is read
as it is. -/
theorem asRead_eq_self {document : Html} (h : document.isKept false = true) :
    document.asRead = document := by
  unfold asRead
  rw [withNewlines_eq_self h, withoutIgnored_eq_self h]

theorem ofKey_map (f : Text → Text) (attributes : Attributes) :
    values.ofKey key (attributes.map fun pair => (pair.1, f pair.2)) =
      (values.ofKey key attributes).map f := by
  unfold values.ofKey
  rw [List.filter_map, List.map_map, List.map_map]
  rfl

/-- Values are normalised in their places. -/
theorem values_withNewlines (afterReturn : Bool) (forest : Html) :
    (forest.withNewlines afterReturn).values key = (forest.values key).map universalNewlines := by
  induction forest generalizing afterReturn with
  | nil => rfl
  | char symbol forest ih =>
      rw [withNewlines, values]
      split
      · exact ih false
      · exact ih _
  | element tag content forest ihcontent ih =>
      rw [withNewlines, values, values, ihcontent, ih, List.map_append, List.map_append, ← ofKey_map]
      rfl
  | void tag forest ih =>
      rw [withNewlines, values, values, ih, List.map_append, ← ofKey_map]
      rfl
  | raw tag content forest ih =>
      rw [withNewlines, values, values, ih, List.map_append, ← ofKey_map]
      rfl

/-- What is ignored has no attributes. -/
theorem values_withoutIgnored (afterPre : Bool) (forest : Html) :
    (forest.withoutIgnored afterPre).values key = (forest.values key).map replaceNul := by
  induction forest generalizing afterPre with
  | nil => rfl
  | char symbol forest ih =>
      rw [withoutIgnored, values]
      split
      · exact ih false
      · exact ih false
  | element tag content forest ihcontent ih =>
      rw [withoutIgnored, values, values, ihcontent, ih, List.map_append, List.map_append, ← ofKey_map]
      rfl
  | void tag forest ih =>
      rw [withoutIgnored, values, values, ih, List.map_append, ← ofKey_map]
      rfl
  | raw tag content forest ih =>
      rw [withoutIgnored, values, values, ih, List.map_append, ← ofKey_map]
      rfl

/-- Values without carriage returns and NULs are read as they are. -/
theorem values_asRead {document : Html} (h : ∀ value ∈ document.values key, isKeptText value = true) :
    document.asRead.values key = document.values key := by
  unfold asRead
  rw [values_withoutIgnored, values_withNewlines, List.map_map]
  conv_rhs => rw [← List.map_id (document.values key)]
  apply List.map_congr_left
  intro value hvalue
  have hkept := h value hvalue
  rw [Function.comp_apply, universalNewlines_of_isKeptText hkept, replaceNul_of_isKeptText hkept]
  rfl

end Unchanged

end Html

end AdaptivePi.Foundation
