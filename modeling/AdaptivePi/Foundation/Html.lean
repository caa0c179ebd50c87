import AdaptivePi.Foundation.Lines

/-!
HTML documents. A document is a forest of elements and characters, and what is
void, what has raw text for its content and what is a name is part of its type.
-/

namespace AdaptivePi.Foundation

namespace Html

def references : List (Text × Char) :=
  [("amp".toList, '&'), ("lt".toList, '<'), ("gt".toList, '>'), ("quot".toList, '"'),
    ("#x27".toList, '\'')]

def escapeChar (char : Char) : Text :=
  match references.find? (·.2 = char) with
  | some (name, _) => '&' :: name ++ [';']
  | none => [char]

/-- `html.escape(text, quote=True)` -/
def escape (text : Text) : Text := text.flatMap escapeChar

def isPlain (char : Char) : Bool := !(references.map Prod.snd).contains char

@[simp] theorem escape_append (left right : Text) : escape (left ++ right) = escape left ++ escape right :=
  List.flatMap_append

theorem escapeChar_of_isPlain {char : Char} (hplain : isPlain char = true) :
    escapeChar char = [char] := by
  have hnone : references.find? (·.2 = char) = none := by
    rw [List.find?_eq_none]
    intro pair hpair heq
    have hmem : char ∈ references.map Prod.snd := by
      rw [← of_decide_eq_true heq]
      exact List.mem_map_of_mem hpair
    rw [isPlain, List.contains_iff_mem.mpr hmem] at hplain
    cases hplain
  rw [escapeChar, hnone]

theorem escape_of_isPlain {text : Text} (hplain : text.all isPlain = true) : escape text = text := by
  induction text with
  | nil => rfl
  | cons char text ih =>
      rw [List.all_cons, Bool.and_eq_true] at hplain
      rw [escape, List.flatMap_cons, escapeChar_of_isPlain hplain.1]
      exact congrArg (char :: ·) (ih hplain.2)

inductive Kind where
  | normal
  /-- There is no content and no end tag. -/
  | void
  /-- No tags are read in the content. -/
  | raw
  deriving DecidableEq

def voidNames : List Text :=
  ["area", "base", "br", "col", "embed", "hr", "img", "input", "link", "meta", "source", "track",
    "wbr"].map String.toList

def rawNames : List Text :=
  ["title", "style", "xmp", "iframe", "noembed", "noframes", "script"].map String.toList

/-- The content of these is read in a way of its own. -/
def otherNames : List Text := ["textarea", "listing", "plaintext"].map String.toList

def kindOf (name : Text) : Kind :=
  if voidNames.contains name then .void else if rawNames.contains name then .raw else .normal

def isNameChar (char : Char) : Bool := char.isLower || char.isDigit || char = '-'

def isName (name : Text) : Bool := name.head?.any Char.isLower && name.all isNameChar

def isDistinct : List Text → Bool
  | [] => true
  | key :: keys => !keys.contains key && isDistinct keys

def isTag (kind : Kind) (name : Text) (keys : List Text) : Bool :=
  isName name && !otherNames.contains name && kindOf name = kind && keys.all isName && isDistinct keys

abbrev Attributes := List (Text × Text)

/-- What a start tag says. -/
structure Tag (kind : Kind) where
  name : Text
  attributes : Attributes
  valid : isTag kind name (attributes.map Prod.fst) = true

/-- No carriage return and no NUL, which are not read as they are. -/
def isKeptChar (char : Char) : Bool := char ≠ '\r' && char ≠ '\x00'

def isRawChar (char : Char) : Bool := char ≠ '<' && char ≠ '&' && isKeptChar char

def Tag.map (f : Text → Text) {kind : Kind} (tag : Tag kind) : Tag kind where
  name := tag.name
  attributes := tag.attributes.map fun pair => (pair.1, f pair.2)
  valid := by
    rw [List.map_map]
    exact tag.valid

/-- What the checks of a tag say. -/
theorem Tag.spec {kind : Kind} (tag : Tag kind) :
    isName tag.name = true ∧ kindOf tag.name = kind ∧
      (tag.attributes.map Prod.fst).all isName = true ∧
      isDistinct (tag.attributes.map Prod.fst) = true := by
  have hvalid := tag.valid
  simp only [isTag, Bool.and_eq_true, decide_eq_true_eq] at hvalid
  obtain ⟨⟨⟨⟨hname, -⟩, hkind⟩, hkeys⟩, hdistinct⟩ := hvalid
  exact ⟨hname, hkind, hkeys, hdistinct⟩

/-- Text that is read as it is in any element. -/
structure RawText where
  text : Text
  valid : text.all isRawChar = true

end Html

/-- A forest of elements and characters. -/
inductive Html where
  | nil
  | char (symbol : Char) (rest : Html)
  | element (tag : Html.Tag .normal) (content rest : Html)
  | void (tag : Html.Tag .void) (rest : Html)
  | raw (tag : Html.Tag .raw) (content : Html.RawText) (rest : Html)

namespace Html

section Forests

def append : Html → Html → Html
  | .nil, right => right
  | .char symbol rest, right => .char symbol (rest.append right)
  | .element tag content rest, right => .element tag content (rest.append right)
  | .void tag rest, right => .void tag (rest.append right)
  | .raw tag content rest, right => .raw tag content (rest.append right)

instance : Append Html := ⟨append⟩

variable {symbol : Char} {left middle right rest : Html}

@[simp] theorem nil_append : Html.nil ++ right = right := rfl

@[simp] theorem char_append : Html.char symbol rest ++ right = .char symbol (rest ++ right) := rfl

@[simp] theorem element_append {tag : Tag .normal} {content : Html} :
    Html.element tag content rest ++ right = .element tag content (rest ++ right) := rfl

@[simp] theorem void_append {tag : Tag .void} :
    Html.void tag rest ++ right = .void tag (rest ++ right) := rfl

@[simp] theorem raw_append {tag : Tag .raw} {content : RawText} :
    Html.raw tag content rest ++ right = .raw tag content (rest ++ right) := rfl

@[simp] theorem append_nil : left ++ Html.nil = left := by
  induction left with
  | nil => rfl
  | char symbol rest ih => rw [char_append, ih]
  | element tag content rest _ ih => rw [element_append, ih]
  | void tag rest ih => rw [void_append, ih]
  | raw tag content rest ih => rw [raw_append, ih]

theorem append_assoc : left ++ middle ++ right = left ++ (middle ++ right) := by
  induction left with
  | nil => rfl
  | char symbol rest ih => rw [char_append, char_append, ih, char_append]
  | element tag content rest _ ih => rw [element_append, element_append, ih, element_append]
  | void tag rest ih => rw [void_append, void_append, ih, void_append]
  | raw tag content rest ih => rw [raw_append, raw_append, ih, raw_append]

def ofText : Text → Html
  | [] => .nil
  | symbol :: text => .char symbol (ofText text)

def join : List Html → Html
  | [] => .nil
  | first :: rest => first ++ join rest

def pairs (attributes : List (String × Text)) : Attributes :=
  attributes.map fun pair => (pair.1.toList, pair.2)

def node (name : String) (attributes : List (String × Text)) (content : Html)
    (valid : isTag .normal name.toList ((pairs attributes).map Prod.fst) = true := by
      simp only [Html.pairs, List.map]; rfl) : Html :=
  .element ⟨name.toList, pairs attributes, valid⟩ content .nil

def leaf (name : String) (attributes : List (String × Text))
    (valid : isTag .void name.toList ((pairs attributes).map Prod.fst) = true := by
      simp only [Html.pairs, List.map]; rfl) : Html :=
  .void ⟨name.toList, pairs attributes, valid⟩ .nil

def rawNode (name : String) (attributes : List (String × Text)) (content : RawText)
    (valid : isTag .raw name.toList ((pairs attributes).map Prod.fst) = true := by
      simp only [Html.pairs, List.map]; rfl) : Html :=
  .raw ⟨name.toList, pairs attributes, valid⟩ content .nil

end Forests

section Writing

def writeAttribute (pair : Text × Text) : Text :=
  ' ' :: pair.1 ++ '=' :: '"' :: escape pair.2 ++ ['"']

def writeStart (name : Text) (attributes : Attributes) : Text :=
  '<' :: name ++ attributes.flatMap writeAttribute ++ ['>']

def writeStop (name : Text) : Text := '<' :: '/' :: name ++ ['>']

def write : Html → Text
  | .nil => []
  | .char symbol rest => escapeChar symbol ++ rest.write
  | .element tag content rest =>
      writeStart tag.name tag.attributes ++ content.write ++ writeStop tag.name ++ rest.write
  | .void tag rest => writeStart tag.name tag.attributes ++ rest.write
  | .raw tag content rest =>
      writeStart tag.name tag.attributes ++ content.text ++ writeStop tag.name ++ rest.write

@[simp] theorem write_append (left right : Html) : (left ++ right).write = left.write ++ right.write := by
  induction left with
  | nil => rfl
  | char symbol rest ih => rw [char_append, write, write, ih, List.append_assoc]
  | element tag content rest _ ih =>
      rw [element_append, write, write, ih]
      simp only [List.append_assoc]
  | void tag rest ih => rw [void_append, write, write, ih, List.append_assoc]
  | raw tag content rest ih =>
      rw [raw_append, write, write, ih]
      simp only [List.append_assoc]

@[simp] theorem write_ofText (text : Text) : (ofText text).write = escape text := by
  induction text with
  | nil => rfl
  | cons symbol text ih => rw [ofText, write, ih, escape, escape, List.flatMap_cons]

@[simp] theorem write_nil : Html.nil.write = [] := rfl

@[simp] theorem write_node (name : String) (attributes : List (String × Text)) (content : Html)
    (valid : isTag .normal name.toList ((pairs attributes).map Prod.fst) = true) :
    (node name attributes content valid).write =
      writeStart name.toList (pairs attributes) ++ (content.write ++ writeStop name.toList) := by
  rw [node, write, write_nil, List.append_nil, List.append_assoc]

@[simp] theorem write_leaf (name : String) (attributes : List (String × Text))
    (valid : isTag .void name.toList ((pairs attributes).map Prod.fst) = true) :
    (leaf name attributes valid).write = writeStart name.toList (pairs attributes) := by
  rw [leaf, write, write_nil, List.append_nil]

@[simp] theorem write_rawNode (name : String) (attributes : List (String × Text)) (content : RawText)
    (valid : isTag .raw name.toList ((pairs attributes).map Prod.fst) = true) :
    (rawNode name attributes content valid).write =
      writeStart name.toList (pairs attributes) ++ (content.text ++ writeStop name.toList) := by
  rw [rawNode, write, write_nil, List.append_nil, List.append_assoc]

@[simp] theorem write_join (forests : List Html) :
    (join forests).write = forests.flatMap write := by
  induction forests with
  | nil => rfl
  | cons first rest ih => rw [join, write_append, ih, List.flatMap_cons]

end Writing

section Values

/-- The values of an attribute in all tags, from the first to the last. -/
def values (key : String) : Html → List Text
  | .nil => []
  | .char _ rest => rest.values key
  | .element tag content rest => ofKey key tag.attributes ++ content.values key ++ rest.values key
  | .void tag rest => ofKey key tag.attributes ++ rest.values key
  | .raw tag _ rest => ofKey key tag.attributes ++ rest.values key
where
  ofKey (key : String) (attributes : Attributes) : List Text :=
    (attributes.filter (·.1 = key.toList)).map Prod.snd

variable {key : String}

@[simp] theorem values_nil : Html.nil.values key = [] := rfl

@[simp] theorem values_append (left right : Html) :
    (left ++ right).values key = left.values key ++ right.values key := by
  induction left with
  | nil => rfl
  | char symbol rest ih => rw [char_append, values, values, ih]
  | element tag content rest _ ih =>
      rw [element_append, values, values, ih]
      simp only [List.append_assoc]
  | void tag rest ih => rw [void_append, values, values, ih, List.append_assoc]
  | raw tag content rest ih => rw [raw_append, values, values, ih, List.append_assoc]

@[simp] theorem values_ofText (text : Text) : (ofText text).values key = [] := by
  induction text with
  | nil => rfl
  | cons symbol text ih => rw [ofText, values, ih]

@[simp] theorem values_join (forests : List Html) :
    (join forests).values key = forests.flatMap (values key) := by
  induction forests with
  | nil => rfl
  | cons first rest ih => rw [join, values_append, ih, List.flatMap_cons]

theorem ofKey_pairs (attributes : List (String × Text)) :
    values.ofKey key (pairs attributes) = (attributes.filter (·.1 = key)).map Prod.snd := by
  unfold values.ofKey pairs
  rw [List.filter_map, List.map_map]
  congr 1
  apply List.filter_congr
  intro pair _
  exact decide_eq_decide.mpr String.toList_inj

@[simp] theorem values_node (name : String) (attributes : List (String × Text)) (content : Html)
    (valid : isTag .normal name.toList ((pairs attributes).map Prod.fst) = true) :
    (node name attributes content valid).values key =
      (attributes.filter (·.1 = key)).map Prod.snd ++ content.values key := by
  rw [node, values, ofKey_pairs, values_nil, List.append_nil]

@[simp] theorem values_leaf (name : String) (attributes : List (String × Text))
    (valid : isTag .void name.toList ((pairs attributes).map Prod.fst) = true) :
    (leaf name attributes valid).values key = (attributes.filter (·.1 = key)).map Prod.snd := by
  rw [leaf, values, ofKey_pairs, values_nil, List.append_nil]

@[simp] theorem values_rawNode (name : String) (attributes : List (String × Text)) (content : RawText)
    (valid : isTag .raw name.toList ((pairs attributes).map Prod.fst) = true) :
    (rawNode name attributes content valid).values key =
      (attributes.filter (·.1 = key)).map Prod.snd := by
  rw [rawNode, values, ofKey_pairs, values_nil, List.append_nil]

end Values

end Html

end AdaptivePi.Foundation
