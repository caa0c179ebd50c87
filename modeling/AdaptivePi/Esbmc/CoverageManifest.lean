import AdaptivePi.Esbmc.CommandTransport
import AdaptivePi.Foundation.Json

/-!
The coverage manifest, which `adaptive_pi_esbmc_coverage_manifest` writes as JSON
and the report tool reads. Strings are encoded by replacing one character after
the other. The encoding leaves most control characters as they are, and a strict
JSON reader rejects them.
-/

namespace AdaptivePi.Esbmc

open Foundation Json Reader SemicolonList

def replaceAll (char : Char) (replacement text : Text) : Text :=
  text.flatMap fun other => if other = char then replacement else [other]

def jsonString (value : Text) : Text :=
  let value := replaceAll '\\' "\\\\".toList value
  let value := replaceAll '"' "\\\"".toList value
  let value := replaceAll '\n' "\\n".toList value
  let value := replaceAll '\r' "\\r".toList value
  let value := replaceAll '\t' "\\t".toList value
  '"' :: (value ++ ['"'])

structure CoverageProof where
  name : Text
  timeout : Text
  directory : Text
  command : List Text
  name_valid : isProofName name = true
  timeout_valid : isPositive timeout = true

def isVerbatim (char : Char) : Bool := 32 ≤ char.toNat && char ≠ '"' && char ≠ '\\'

/-- The values that are exported. The option for exceptions is written as it is. -/
structure CoverageManifest where
  root : Text
  executable : Text
  exceptions : Text
  proofs : List CoverageProof
  exceptions_plain : ∀ char ∈ exceptions, isVerbatim char = true

def appendArgument (state : Text × Text) (argument : Text) : Text × Text :=
  let (json, separator) := state
  (json ++ (separator ++ jsonString argument), ",".toList)

def appendProof (state : Text × Text) (proof : CoverageProof) : Text × Text :=
  let (json, separator) := state
  let directory := jsonString proof.directory
  let json := json ++ (separator ++ ("\x7b\"name\":\"".toList ++ (proof.name ++
    ("\",\"timeout\":".toList ++ (proof.timeout ++ (",\"directory\":".toList ++ (directory ++
      ",\"command\":[".toList)))))))
  let (json, _) := proof.command.foldl appendArgument (json, [])
  (json ++ "]\x7d".toList, ",".toList)

def coverageManifest (manifest : CoverageManifest) : Text :=
  let root := jsonString manifest.root
  let executable := jsonString manifest.executable
  let json := "\x7b\"root\":".toList ++ (root ++ (",\"executable\":".toList ++ (executable ++
    (",\"exceptions\":\"".toList ++ (manifest.exceptions ++ "\",\"proofs\":[".toList)))))
  let (json, _) := manifest.proofs.foldl appendProof (json, [])
  json ++ "]\x7d\n".toList

/-- `json.loads(manifest_path.read_text())` -/
def loadManifest (text : Text) : Option Json := loads (PythonText.universalNewlines text)

def CoverageProof.json (proof : CoverageProof) : Json :=
  .object [("name".toList, .string proof.name),
    ("timeout".toList, .int (Nat.ofDigitChars 10 proof.timeout 0)),
    ("directory".toList, .string proof.directory),
    ("command".toList, .array (proof.command.map .string))]

def CoverageManifest.json (manifest : CoverageManifest) : Json :=
  .object [("root".toList, .string manifest.root), ("executable".toList, .string manifest.executable),
    ("exceptions".toList, .string manifest.exceptions),
    ("proofs".toList, .array (manifest.proofs.map CoverageProof.json))]

/-- The characters for which the encoding is right. -/
def isExportable (char : Char) : Bool :=
  32 ≤ char.toNat || char = '\n' || char = '\r' || char = '\t'

def Exportable (value : Text) : Prop := ∀ char ∈ value, isExportable char = true

instance (value : Text) : Decidable (Exportable value) :=
  inferInstanceAs (Decidable (∀ char ∈ value, _))

def CoverageProof.Readable (proof : CoverageProof) : Prop :=
  proof.timeout.length ≤ PythonText.maxDigits ∧ Exportable proof.directory ∧
    ∀ argument ∈ proof.command, Exportable argument

instance (proof : CoverageProof) : Decidable proof.Readable :=
  inferInstanceAs (Decidable (_ ∧ _ ∧ ∀ argument ∈ proof.command, _))

def CoverageManifest.Readable (manifest : CoverageManifest) : Prop :=
  Exportable manifest.root ∧ Exportable manifest.executable ∧
    ∀ proof ∈ manifest.proofs, proof.Readable

instance (manifest : CoverageManifest) : Decidable manifest.Readable :=
  inferInstanceAs (Decidable (_ ∧ _ ∧ ∀ proof ∈ manifest.proofs, _))

section Strings

/-- What the replacements make of one character. -/
def encodeChar (char : Char) : Text :=
  if char = '\\' then ['\\', '\\']
  else if char = '"' then ['\\', '"']
  else if char = '\n' then ['\\', 'n']
  else if char = '\r' then ['\\', 'r']
  else if char = '\t' then ['\\', 't']
  else [char]

/-- No replacement touches what an earlier one has written. -/
theorem jsonString_eq (value : Text) :
    jsonString value = '"' :: (value.flatMap encodeChar ++ ['"']) := by
  have hbackslash : "\\\\".toList = ['\\', '\\'] := rfl
  have hquote : "\\\"".toList = ['\\', '"'] := rfl
  have hnewline : "\\n".toList = ['\\', 'n'] := rfl
  have hreturn : "\\r".toList = ['\\', 'r'] := rfl
  have htab : "\\t".toList = ['\\', 't'] := rfl
  unfold jsonString replaceAll
  rw [hbackslash, hquote, hnewline, hreturn, htab]
  simp only [List.flatMap_assoc]
  congr 2
  apply List.flatMap_congr
  intro char _
  unfold encodeChar
  by_cases h1 : char = '\\'
  · subst h1; rfl
  by_cases h2 : char = '"'
  · subst h2; rfl
  by_cases h3 : char = '\n'
  · subst h3; rfl
  by_cases h4 : char = '\r'
  · subst h4; rfl
  by_cases h5 : char = '\t'
  · subst h5; rfl
  simp [h1, h2, h3, h4, h5]

private theorem readChars_encodeChar (char : Char) (fuel : Nat) (text : Text) :
    readChars (fuel + 1) (encodeChar char ++ text) =
      if isExportable char then
        (readChars fuel text).map fun result => (char :: result.1, result.2)
      else none := by
  unfold encodeChar
  by_cases h1 : char = '\\'
  · subst h1
    exact readChars_escape rfl fuel text
  by_cases h2 : char = '"'
  · subst h2
    exact readChars_escape rfl fuel text
  by_cases h3 : char = '\n'
  · subst h3
    exact readChars_escape rfl fuel text
  by_cases h4 : char = '\r'
  · subst h4
    exact readChars_escape rfl fuel text
  by_cases h5 : char = '\t'
  · subst h5
    exact readChars_escape rfl fuel text
  simp only [h1, h2, h3, h4, h5, if_false, List.singleton_append, isExportable, decide_false,
    Bool.or_false, decide_eq_true_eq]
  by_cases hplain : 32 ≤ char.toNat
  · rw [if_pos hplain]
    exact readChars_plain h2 h1 hplain fuel text
  · rw [if_neg hplain]
    exact readChars_control (by omega) fuel text

/-- A string is read back if all its characters are right. -/
private theorem readChars_encoded (value rest : Text) {fuel : Nat} (hfuel : value.length < fuel) :
    readChars fuel (value.flatMap encodeChar ++ '"' :: rest) =
      (if Exportable value then some value else none).map fun value => (value, rest) := by
  obtain ⟨fuel, rfl⟩ : ∃ fuel', fuel = fuel' + 1 := ⟨fuel - 1, by omega⟩
  induction value generalizing fuel with
  | nil =>
      have hnil : Exportable [] := fun char hchar => absurd hchar List.not_mem_nil
      rw [if_pos hnil]
      exact readChars_quote fuel rest
  | cons char value ih =>
      rw [List.length_cons] at hfuel
      obtain ⟨fuel, rfl⟩ : ∃ fuel', fuel = fuel' + 1 := ⟨fuel - 1, by omega⟩
      have hcons : Exportable (char :: value) ↔ isExportable char = true ∧ Exportable value :=
        List.forall_mem_cons
      rw [List.flatMap_cons, List.append_assoc, readChars_encodeChar, ih fuel (by omega)]
      by_cases hchar : isExportable char = true
      · by_cases hvalue : Exportable value
        · simp [hcons, hchar, hvalue]
        · simp [hcons, hchar, hvalue]
      · simp [hcons, hchar]

private theorem length_le_encoded (value : Text) :
    value.length ≤ (value.flatMap encodeChar).length := by
  induction value with
  | nil => exact Nat.le_refl _
  | cons char value ih =>
      have hchar : 1 ≤ (encodeChar char).length := by
        unfold encodeChar
        split_ifs <;> simp
      rw [List.flatMap_cons, List.length_append, List.length_cons]
      omega

/-- An encoded string is read back, or not at all. -/
theorem readString_jsonString (value rest : Text) :
    readString (jsonString value ++ rest) =
      (if Exportable value then some value else none).map fun value => (value, rest) := by
  have htext : jsonString value ++ rest = '"' :: (value.flatMap encodeChar ++ '"' :: rest) := by
    simp [jsonString_eq]
  have hlength := length_le_encoded value
  rw [htext]
  refine readChars_encoded value rest ?_
  rw [List.length_append, List.length_cons]
  omega

/-- A value is read back exactly if it can be exported. -/
theorem outcome_jsonString (value : Text) :
    Outcome readString (jsonString value) (if Exportable value then some value else none) :=
  fun rest _ => readString_jsonString value rest

theorem jsonString_of_verbatim {value : Text} (hvalue : ∀ char ∈ value, isVerbatim char = true) :
    jsonString value = '"' :: (value ++ ['"']) ∧ Exportable value := by
  constructor
  · have hencode : ∀ char ∈ value, encodeChar char = [char] := by
      intro char hchar
      have hplain := hvalue char hchar
      unfold isVerbatim at hplain
      have hcontrol : ∀ other : Char, other.toNat < 32 → char ≠ other := by
        rintro other hother rfl
        simp only [Bool.and_eq_true, decide_eq_true_eq] at hplain
        omega
      simp only [Bool.and_eq_true, decide_eq_true_eq] at hplain
      unfold encodeChar
      rw [if_neg hplain.2, if_neg hplain.1.2, if_neg (hcontrol _ (by decide)),
        if_neg (hcontrol _ (by decide)), if_neg (hcontrol _ (by decide))]
    rw [jsonString_eq, List.flatMap_congr hencode]
    simp
  · intro char hchar
    have hplain := hvalue char hchar
    simp only [isVerbatim, Bool.and_eq_true, decide_eq_true_eq] at hplain
    simp [isExportable, hplain.1.1]

theorem reads_key {key : Text} (hkey : ∀ char ∈ key, isVerbatim char = true) :
    Reads readString (jsonString key) key := by
  intro rest
  rw [readString_jsonString, if_pos (jsonString_of_verbatim hkey).2]
  rfl

end Strings

section Texts

def memberText (key text : Text) : Text := jsonString key ++ ':' :: text

def commandText (command : List Text) : Text :=
  '[' :: (separated (command.map jsonString) ++ [']'])

def proofText (proof : CoverageProof) : Text :=
  '{' :: (separated [memberText "name".toList (jsonString proof.name),
    memberText "timeout".toList proof.timeout,
    memberText "directory".toList (jsonString proof.directory),
    memberText "command".toList (commandText proof.command)] ++ ['}'])

def manifestText (manifest : CoverageManifest) : Text :=
  '{' :: (separated [memberText "root".toList (jsonString manifest.root),
    memberText "executable".toList (jsonString manifest.executable),
    memberText "exceptions".toList (jsonString manifest.exceptions),
    memberText "proofs".toList
      ('[' :: (separated (manifest.proofs.map proofText) ++ [']']))] ++ ['}'])

/-- The separator is empty before the first text that the loop appends. -/
theorem foldl_separated {α : Type} {step : Text × Text → α → Text × Text} {write : α → Text}
    (hstep : ∀ json separator item,
      step (json, separator) item = (json ++ (separator ++ write item), ",".toList))
    (items : List α) (json : Text) :
    (items.foldl step (json, [])).1 = json ++ separated (items.map write) := by
  have hcomma : ",".toList = [','] := rfl
  have hrest : ∀ (items : List α) (json : Text), (items.foldl step (json, [','])).1 =
      json ++ (items.map write).flatMap (',' :: ·) := by
    intro items
    induction items with
    | nil => simp
    | cons item items ih =>
        intro json
        rw [List.foldl_cons, hstep, hcomma, ih]
        simp
  cases items with
  | nil => simp [separated]
  | cons item items =>
      rw [List.foldl_cons, hstep, hcomma, hrest]
      simp [separated]

theorem isVerbatim_of_isNameChar {char : Char} (hchar : isNameChar char = true) :
    isVerbatim char = true := by
  have hquote : char ≠ '"' := by
    rintro rfl
    exact absurd hchar (by decide)
  have hbackslash : char ≠ '\\' := by
    rintro rfl
    exact absurd hchar (by decide)
  have hcontrol : 32 ≤ char.toNat := by
    by_contra hlt
    have hnone : ∀ n < 32, isNameChar (Char.ofNat n) = false := by decide
    have hfalse := hnone char.toNat (by omega)
    rw [Char.ofNat_toNat, hchar] at hfalse
    cases hfalse
  simp [isVerbatim, hquote, hbackslash, hcontrol]

theorem verbatim_name (proof : CoverageProof) : ∀ char ∈ proof.name, isVerbatim char = true := by
  intro char hchar
  have hvalid := (Bool.and_eq_true_iff.mp proof.name_valid).2
  exact isVerbatim_of_isNameChar (List.all_eq_true.mp hvalid char hchar)

private theorem appendProof_eq (json separator : Text) (proof : CoverageProof) :
    appendProof (json, separator) proof =
      (json ++ (separator ++ proofText proof), ",".toList) := by
  have hname : "\x7b\"name\":\"".toList = '{' :: (jsonString "name".toList ++ [':', '"']) := by decide
  have htimeout : "\",\"timeout\":".toList = '"' :: ',' :: (jsonString "timeout".toList ++ [':']) := by
    decide
  have hdirectory : ",\"directory\":".toList = ',' :: (jsonString "directory".toList ++ [':']) := by
    decide
  have hcommand : ",\"command\":[".toList = ',' :: (jsonString "command".toList ++ [':', '[']) := by
    decide
  have hend : "]\x7d".toList = [']', '}'] := rfl
  have harguments := @foldl_separated _ appendArgument jsonString (fun _ _ _ => rfl) proof.command
  unfold appendProof
  dsimp only
  rw [harguments, hname, htimeout, hdirectory, hcommand, hend]
  unfold proofText memberText commandText
  rw [(jsonString_of_verbatim (verbatim_name proof)).1]
  simp only [separated, List.flatMap_cons, List.flatMap_nil, List.append_assoc, List.cons_append,
    List.nil_append, List.append_nil]

/-- The loop over the proofs writes an array. -/
theorem coverageManifest_eq (manifest : CoverageManifest) :
    coverageManifest manifest = manifestText manifest ++ ['\n'] := by
  have hroot : "\x7b\"root\":".toList = '{' :: (jsonString "root".toList ++ [':']) := by decide
  have hexecutable : ",\"executable\":".toList =
      ',' :: (jsonString "executable".toList ++ [':']) := by decide
  have hexceptions : ",\"exceptions\":\"".toList =
      ',' :: (jsonString "exceptions".toList ++ [':', '"']) := by decide
  have hproofs : "\",\"proofs\":[".toList = '"' :: ',' :: (jsonString "proofs".toList ++ [':', '[']) := by
    decide
  have hend : "]\x7d\n".toList = [']', '}', '\n'] := rfl
  have hloop := foldl_separated appendProof_eq manifest.proofs
  unfold coverageManifest
  dsimp only
  rw [hloop, hroot, hexecutable, hexceptions, hproofs, hend]
  unfold manifestText memberText
  rw [(jsonString_of_verbatim manifest.exceptions_plain).1]
  simp only [separated, List.flatMap_cons, List.flatMap_nil, List.append_assoc, List.cons_append,
    List.nil_append, List.append_nil]

end Texts

section Outcomes

variable {depth : Nat}

abbrev Member := Text × Text × Option Json

theorem jsonString_starts {close : Char} (hclose : close ≠ '"') (value : Text) :
    Starts close (jsonString value) :=
  ⟨'"', _, jsonString_eq value, by decide, hclose.symm⟩

/-- An object is read exactly if all its members are. -/
theorem outcome_members {members : List Member}
    (hkeys : ∀ member ∈ members, ∀ char ∈ member.1, isVerbatim char = true)
    (hstarts : ∀ member ∈ members, Starts '}' member.2.1)
    (hvalues : ∀ member ∈ members, Outcome (readValue depth) member.2.1 member.2.2) :
    Outcome (readValue (depth + 1))
      ('{' :: (separated (members.map fun member => memberText member.1 member.2.1) ++ ['}']))
      ((members.mapM fun member : Member => member.2.2.map fun value => (member.1, value)).map object) := by
  apply outcome_object
  apply outcome_readSequence ⟨by decide, by decide, by decide⟩
  · intro member _
    obtain ⟨char, rest, htext, hblank, hclose⟩ := @jsonString_starts '}' (by decide) member.1
    refine ⟨char, rest ++ ':' :: member.2.1, ?_, hblank, hclose⟩
    unfold memberText
    rw [htext, List.cons_append]
  · intro member hmember
    have hstart := (hstarts member hmember).head_append []
    rw [List.append_nil] at hstart
    exact outcome_readMember (reads_key (hkeys member hmember)) (hvalues member hmember) hstart.1
      (hstarts member hmember).ne_nil

/-- Members that are read or not: the object is read when all of them are. -/
theorem outcome_members_if {members : List (Text × Text × Bool × Json)}
    (hkeys : ∀ member ∈ members, ∀ char ∈ member.1, isVerbatim char = true)
    (hstarts : ∀ member ∈ members, Starts '}' member.2.1)
    (hvalues : ∀ member ∈ members, Outcome (readValue depth) member.2.1
      (if member.2.2.1 = true then some member.2.2.2 else none)) :
    Outcome (readValue (depth + 1))
      ('{' :: (separated (members.map fun member => memberText member.1 member.2.1) ++ ['}']))
      (if ∀ member ∈ members, member.2.2.1 = true then
        some (object (members.map fun member => (member.1, member.2.2.2))) else none) := by
  have hmembers := @outcome_members depth (members.map fun member =>
      (member.1, member.2.1, if member.2.2.1 = true then some member.2.2.2 else none))
    (List.forall_mem_map.mpr hkeys) (List.forall_mem_map.mpr hstarts)
    (List.forall_mem_map.mpr hvalues)
  rw [List.mapM_map, List.map_map] at hmembers
  have hresults : ∀ member : Text × Text × Bool × Json,
      ((if member.2.2.1 = true then some member.2.2.2 else none).map fun value =>
        (member.1, value)) = if member.2.2.1 = true then some (member.1, member.2.2.2) else none := by
    intro member
    exact apply_ite (Option.map fun value => (member.1, value)) _ _ _
  simp only [Function.comp_def, hresults] at hmembers
  rw [mapM_ite, apply_ite (Option.map object)] at hmembers
  exact hmembers

theorem outcome_string_value (value : Text) :
    Outcome (readValue (depth + 1)) (jsonString value)
      (if Exportable value then some (.string value) else none) := by
  have h := outcome_jsonString value
  rw [jsonString_eq] at h ⊢
  have hstring : Outcome (readValue (depth + 1)) _ _ := outcome_string h
  rw [apply_ite (Option.map Json.string)] at hstring
  exact hstring

theorem outcome_command (command : List Text) :
    Outcome (readValue (depth + 2)) (commandText command)
      (if ∀ argument ∈ command, Exportable argument then some (.array (command.map .string))
        else none) := by
  have hitems : Outcome (readSequence (readValue (depth + 1)) ']')
      (separated (command.map jsonString) ++ [']'])
      (command.mapM fun argument => if Exportable argument then some (.string argument) else none) :=
    outcome_readSequence ⟨by decide, by decide, by decide⟩
      (fun argument _ => jsonString_starts (by decide) argument)
      (fun argument _ => outcome_string_value argument)
  rw [mapM_ite] at hitems
  have harray := outcome_array hitems
  rw [apply_ite (Option.map Json.array)] at harray
  exact harray

private theorem timeout_digits (proof : CoverageProof) :
    proof.timeout ≠ [] ∧ (∀ char ∈ proof.timeout, char.isDigit = true) ∧
      proof.timeout.head? ≠ some '0' := by
  have hvalid := proof.timeout_valid
  cases htimeout : proof.timeout with
  | nil =>
      rw [htimeout] at hvalid
      cases hvalid
  | cons first rest =>
      rw [htimeout] at hvalid
      simp only [isPositive, Bool.and_eq_true, decide_eq_true_eq] at hvalid
      obtain ⟨⟨hfirst, hzero⟩, hrest⟩ := hvalid
      refine ⟨List.cons_ne_nil _ _, ?_, fun heq => hzero (Option.some.inj heq)⟩
      intro char hchar
      rcases List.mem_cons.mp hchar with rfl | hmem
      · exact hfirst
      · exact List.all_eq_true.mp hrest char hmem

theorem outcome_proof (proof : CoverageProof) :
    Outcome (readValue (depth + 3)) (proofText proof)
      (if proof.Readable then some proof.json else none) := by
  obtain ⟨hne, hdigits, hzero⟩ := timeout_digits proof
  have hname : Outcome (readValue (depth + 2)) (jsonString proof.name)
      (if true = true then some (.string proof.name) else none) := by
    have hstring := @outcome_string_value (depth + 1) proof.name
    rwa [if_pos (jsonString_of_verbatim (verbatim_name proof)).2] at hstring
  have htimeout : Starts '}' proof.timeout := by
    obtain ⟨first, rest, htext⟩ := List.exists_cons_of_ne_nil hne
    have hfirst := hdigits first (by simp [htext])
    refine ⟨first, rest, htext, ?_, ?_⟩
    · have hnot : ∀ char : Char, char.isDigit = false → first ≠ char := by
        rintro char hchar rfl
        rw [hfirst] at hchar
        cases hchar
      simp [isBlank, hnot ' ' (by decide), hnot '\t' (by decide), hnot '\n' (by decide),
        hnot '\r' (by decide)]
    · rintro rfl
      exact absurd hfirst (by decide)
  have hmembers := @outcome_members_if (depth + 2)
    [("name".toList, jsonString proof.name, true, .string proof.name),
      ("timeout".toList, proof.timeout, proof.timeout.length ≤ PythonText.maxDigits,
        .int (Nat.ofDigitChars 10 proof.timeout 0)),
      ("directory".toList, jsonString proof.directory, Exportable proof.directory,
        .string proof.directory),
      ("command".toList, commandText proof.command,
        ∀ argument ∈ proof.command, Exportable argument, .array (proof.command.map .string))]
    (by
      simp only [List.mem_cons, List.not_mem_nil, or_false, forall_eq_or_imp, forall_eq]
      refine ⟨?_, ?_, ?_, ?_⟩ <;> exact List.all_eq_true.mp (by decide))
    (by
      simp only [List.mem_cons, List.not_mem_nil, or_false, forall_eq_or_imp, forall_eq]
      exact ⟨jsonString_starts (by decide) _, htimeout, jsonString_starts (by decide) _, '[', _, rfl,
        by decide, by decide⟩)
    (by
      simp only [List.mem_cons, List.not_mem_nil, or_false, forall_eq_or_imp, forall_eq,
        decide_eq_true_eq]
      exact ⟨hname, outcome_int hne hdigits hzero, outcome_string_value _, outcome_command _⟩)
  simp only [List.mem_cons, List.not_mem_nil, or_false, forall_eq_or_imp, forall_eq,
    decide_eq_true_eq, true_and] at hmembers
  exact hmembers

/-- The manifest is read as its object, exactly if everything in it can be exported. -/
theorem outcome_manifest (manifest : CoverageManifest) :
    Outcome (readValue (depth + 5)) (manifestText manifest)
      (if manifest.Readable then some manifest.json else none) := by
  have hexceptions : Outcome (readValue (depth + 4)) (jsonString manifest.exceptions)
      (if true = true then some (.string manifest.exceptions) else none) := by
    have hstring := @outcome_string_value (depth + 3) manifest.exceptions
    rwa [if_pos (jsonString_of_verbatim manifest.exceptions_plain).2] at hstring
  have hitems : Outcome (readSequence (readValue (depth + 3)) ']')
      (separated (manifest.proofs.map proofText) ++ [']'])
      (manifest.proofs.mapM fun proof => if proof.Readable then some proof.json else none) :=
    outcome_readSequence ⟨by decide, by decide, by decide⟩
      (fun proof _ => ⟨'{', _, rfl, by decide, by decide⟩) (fun proof _ => outcome_proof proof)
  rw [mapM_ite] at hitems
  have hproofs := outcome_array hitems
  rw [apply_ite (Option.map Json.array)] at hproofs
  have hmembers := @outcome_members_if (depth + 4)
    [("root".toList, jsonString manifest.root, Exportable manifest.root, .string manifest.root),
      ("executable".toList, jsonString manifest.executable, Exportable manifest.executable,
        .string manifest.executable),
      ("exceptions".toList, jsonString manifest.exceptions, true, .string manifest.exceptions),
      ("proofs".toList, '[' :: (separated (manifest.proofs.map proofText) ++ [']']),
        ∀ proof ∈ manifest.proofs, proof.Readable,
        .array (manifest.proofs.map CoverageProof.json))]
    (by
      simp only [List.mem_cons, List.not_mem_nil, or_false, forall_eq_or_imp, forall_eq]
      refine ⟨?_, ?_, ?_, ?_⟩ <;> exact List.all_eq_true.mp (by decide))
    (by
      simp only [List.mem_cons, List.not_mem_nil, or_false, forall_eq_or_imp, forall_eq]
      exact ⟨jsonString_starts (by decide) _, jsonString_starts (by decide) _,
        jsonString_starts (by decide) _, '[', _, rfl, by decide, by decide⟩)
    (by
      simp only [List.mem_cons, List.not_mem_nil, or_false, forall_eq_or_imp, forall_eq,
        decide_eq_true_eq]
      exact ⟨outcome_string_value _, outcome_string_value _, hexceptions, hproofs⟩)
  simp only [List.mem_cons, List.not_mem_nil, or_false, forall_eq_or_imp, forall_eq,
    decide_eq_true_eq, true_and] at hmembers
  exact hmembers

end Outcomes

section Carriage

theorem return_not_mem_jsonString (value : Text) : '\r' ∉ jsonString value := by
  have hchar : ∀ char, '\r' ∉ encodeChar char := by
    intro char
    unfold encodeChar
    split_ifs with h1 h2 h3 h4 h5
    · decide
    · decide
    · decide
    · decide
    · decide
    · exact fun hmem => h4 (List.mem_singleton.mp hmem).symm
  have hvalue : '\r' ∉ value.flatMap encodeChar := by
    intro hmem
    obtain ⟨char, -, hmem⟩ := List.mem_flatMap.mp hmem
    exact hchar char hmem
  simp [jsonString_eq, hvalue]

theorem return_not_mem_separated {texts : List Text} (htexts : ∀ text ∈ texts, '\r' ∉ text) :
    '\r' ∉ separated texts := by
  cases texts with
  | nil => exact List.not_mem_nil
  | cons text texts =>
      intro hmem
      rcases List.mem_append.mp hmem with hfirst | hrest
      · exact htexts text List.mem_cons_self hfirst
      · obtain ⟨other, hother, hmem⟩ := List.mem_flatMap.mp hrest
        rcases List.mem_cons.mp hmem with heq | hmem
        · cases heq
        · exact htexts other (List.mem_cons_of_mem _ hother) hmem

private theorem return_not_mem_member {key text : Text} (htext : '\r' ∉ text) :
    '\r' ∉ memberText key text := by
  simp [memberText, return_not_mem_jsonString, htext]

private theorem return_not_mem_bracketed {first last : Char} {texts : List Text}
    (hfirst : first ≠ '\r') (hlast : last ≠ '\r') (htexts : ∀ text ∈ texts, '\r' ∉ text) :
    '\r' ∉ first :: (separated texts ++ [last]) := by
  simp [return_not_mem_separated htexts, hfirst.symm, hlast.symm]

theorem return_not_mem_proofText (proof : CoverageProof) : '\r' ∉ proofText proof := by
  have htimeout : '\r' ∉ proof.timeout := fun hmem =>
    absurd ((timeout_digits proof).2.1 _ hmem) (by decide)
  have hcommand : '\r' ∉ commandText proof.command := by
    apply return_not_mem_bracketed (by decide) (by decide)
    intro text htext
    obtain ⟨argument, -, rfl⟩ := List.mem_map.mp htext
    exact return_not_mem_jsonString argument
  apply return_not_mem_bracketed (by decide) (by decide)
  simp only [List.mem_cons, List.not_mem_nil, or_false, forall_eq_or_imp, forall_eq]
  exact ⟨return_not_mem_member (return_not_mem_jsonString _), return_not_mem_member htimeout,
    return_not_mem_member (return_not_mem_jsonString _), return_not_mem_member hcommand⟩

/-- Text mode leaves the manifest as it has been written. -/
theorem return_not_mem_coverageManifest (manifest : CoverageManifest) :
    '\r' ∉ coverageManifest manifest := by
  have hproofs : '\r' ∉ '[' :: (separated (manifest.proofs.map proofText) ++ [']']) := by
    apply return_not_mem_bracketed (by decide) (by decide)
    intro text htext
    obtain ⟨proof, -, rfl⟩ := List.mem_map.mp htext
    exact return_not_mem_proofText proof
  have htext : '\r' ∉ manifestText manifest := by
    apply return_not_mem_bracketed (by decide) (by decide)
    simp only [List.mem_cons, List.not_mem_nil, or_false, forall_eq_or_imp, forall_eq]
    exact ⟨return_not_mem_member (return_not_mem_jsonString _),
      return_not_mem_member (return_not_mem_jsonString _),
      return_not_mem_member (return_not_mem_jsonString _), return_not_mem_member hproofs⟩
  simp [coverageManifest_eq, htext]

end Carriage

/-- The manifest is read back as it was, or the whole of it is rejected. -/
theorem loadManifest_coverageManifest (manifest : CoverageManifest) :
    loadManifest (coverageManifest manifest) =
      if manifest.Readable then some manifest.json else none := by
  unfold loadManifest
  rw [PythonText.universalNewlines_eq_self (return_not_mem_coverageManifest manifest),
    coverageManifest_eq]
  apply loads_of_outcome
  · intro depth hdepth
    have hlength : 5 ≤ (manifestText manifest).length := by
      simp [manifestText, separated, memberText]
      omega
    obtain ⟨others, rfl⟩ : ∃ others, depth = others + 5 := ⟨depth - 5, by omega⟩
    exact outcome_manifest manifest
  · rintro char ⟨⟩
    rfl
  · exact List.cons_ne_nil _ _

/-- The manifest is read back as it was exactly if no string has a control
character that the encoding leaves and no timeout has too many digits. Otherwise
no proof of the manifest is read. -/
theorem coverage_manifest_round_trip (manifest : CoverageManifest) :
    (loadManifest (coverageManifest manifest) = some manifest.json ↔ manifest.Readable) ∧
      (loadManifest (coverageManifest manifest) = none ↔ ¬manifest.Readable) := by
  rw [loadManifest_coverageManifest]
  by_cases hreadable : manifest.Readable
  · simp [hreadable]
  · simp [hreadable]

section Example

def Configuration.coverageProof (configuration : Configuration) (registration : Registration)
    {registered entries : List Entry}
    (haccepted : configuration.addEsbmcProof registered registration = .ok entries) :
    CoverageProof where
  name := registration.name
  timeout := registration.timeout
  directory := registration.directory.val
  command := forEach (configuration.command registration)
  name_valid := (Configuration.addEsbmcProof_eq_ok haccepted).2.1
  timeout_valid := Configuration.isPositive_timeout haccepted

/-- CMake accepts a form feed in a definition. -/
theorem form_feed_accepted :
    exampleConfiguration.addEsbmcProof [] (exampleRegistration ["X=\x0c".toList]) =
      .ok [exampleConfiguration.entry (exampleRegistration ["X=\x0c".toList])] := by
  decide +kernel

def formFeedProof : CoverageProof := exampleConfiguration.coverageProof _ form_feed_accepted

def formFeedManifest : CoverageManifest where
  root := "/p".toList
  executable := exampleConfiguration.executable.val
  exceptions := "OFF".toList
  proofs := [formFeedProof]
  exceptions_plain := List.all_eq_true.mp (by decide)

/-- A definition with a form feed is accepted, and makes the manifest unreadable. -/
theorem form_feed_rejected : "-DX=\x0c".toList ∈ formFeedProof.command ∧
    loadManifest (coverageManifest formFeedManifest) = none := by
  have hmem : "-DX=\x0c".toList ∈ formFeedProof.command := by decide +kernel
  refine ⟨hmem, ?_⟩
  rw [loadManifest_coverageManifest, if_neg]
  intro hreadable
  have hproof := hreadable.2.2 _ (List.mem_singleton_self _)
  have hexportable : Exportable "-DX=\x0c".toList := hproof.2.2 _ hmem
  exact absurd (hexportable '\x0c' (by decide)) (by decide)

end Example

end AdaptivePi.Esbmc
