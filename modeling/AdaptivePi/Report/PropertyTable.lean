import AdaptivePi.Report.PropertyEvidence

/-!
The table of properties that the checker prints, and what `parse_properties`
reads from it. A line is read as a location whenever it has `, function ` with
something after it, and the last place at which a result may go on is taken for
the end of its identifier. So identifiers and descriptions that contain such
texts are not read back; all others are.
-/

namespace AdaptivePi.Report

open Foundation Foundation.Pattern Foundation.PythonText

/-- A text of one line. -/
abbrev OneLine := {text : Text // text ≠ [] ∧ '\n' ∉ text}

inductive RowVerdict where
  | passed
  | failed
  | unknown
  | unreachable

namespace RowVerdict

def text : RowVerdict → Text
  | .passed => "PASSED".toList
  | .failed => "FAILED".toList
  | .unknown => "UNKNOWN".toList
  | .unreachable => "UNREACHABLE".toList

def status : RowVerdict → Status
  | .passed => .covered
  | .failed => .uncovered
  | .unknown => .unknown
  | .unreachable => .unknown

end RowVerdict

structure TableRow where
  verdict : RowVerdict
  identifier : OneLine
  number : Nat
  description : OneLine

/-- The results of a function. A header without rows is one line for
`splitlines`, too. -/
structure TableGroup where
  file : OneLine
  function : OneLine
  rows : List TableRow
  header_oneLine : rows = [] → ∀ char ∈ file.val ++ function.val, isBoundary char = false

def separator : Text := ", function ".toList

def TableGroup.header (group : TableGroup) : Text :=
  group.file.val ++ (separator ++ group.function.val)

def TableRow.print (row : TableRow) : Text :=
  "  ".toList ++ (row.verdict.text ++ (" ".toList ++ ("[".toList ++ (row.identifier.val ++
    ("]".toList ++ (" ".toList ++ ("line".toList ++ (" ".toList ++ (Nat.toDigits 10 row.number ++
      (" ".toList ++ row.description.val))))))))))

def TableGroup.lines (group : TableGroup) : List Text := group.header :: group.rows.map TableRow.print

def printTable (table : List TableGroup) : Text := unlines (table.flatMap TableGroup.lines)

def TableRow.property (group : TableGroup) (row : TableRow) : Property :=
  ⟨group.file.val, row.number, group.function.val,
    row.identifier.val ++ ": ".toList ++ row.description.val, row.verdict.status⟩

def tableProperties (table : List TableGroup) : List Property :=
  table.flatMap fun group => group.rows.map (·.property group)

variable {unicode : Unicode}

section Location

private theorem isDot_of_mem {text : Text} (htext : '\n' ∉ text) :
    ∀ char ∈ text, isDot char = true := by
  intro char hchar
  simpa [isDot] using ne_of_mem_of_not_mem hchar htext

/-- The last group takes what is left, which is not empty. -/
private theorem fullmatch_rest {text : Text} (htext : '\n' ∉ text) {groups : List Text} :
    matchAt true [group (.many 1 isDot)] text = some groups ↔ text ≠ [] ∧ groups = [text] := by
  rw [group, matchAt_many_eq_some]
  constructor
  · rintro ⟨taken, rest, groups', rfl, ⟨hlength, -⟩, hrest, rfl, -⟩
    cases rest with
    | nil =>
        obtain rfl := (Option.some.inj hrest).symm
        exact ⟨by rw [List.append_nil]; exact List.ne_nil_of_length_pos hlength, by simp⟩
    | cons char rest => cases hrest
  · rintro ⟨hne, rfl⟩
    refine ⟨text, [], [], by simp, ⟨List.length_pos_iff.mpr hne, isDot_of_mem htext⟩, rfl, rfl, ?_⟩
    intro taken' rest' heq hlonger
    have hlength := congrArg List.length heq
    rw [List.length_append] at hlength
    omega

private theorem fullmatch_separator {text : Text} (htext : '\n' ∉ text) {groups : List Text} :
    matchAt true [plain (.literal separator), group (.many 1 isDot)] text = some groups ↔
      ∃ function, text = separator ++ function ∧ function ≠ [] ∧ groups = [function] := by
  constructor
  · intro h
    obtain ⟨function, rfl, hrest⟩ := exists_of_matchAt_literal h
    obtain ⟨hne, hgroups⟩ :=
      (fullmatch_rest fun hmem => htext (List.mem_append_right _ hmem)).mp hrest
    exact ⟨function, rfl, hne, hgroups⟩
  · rintro ⟨function, rfl, hne, rfl⟩
    rw [matchAt_literal, fullmatch_rest fun hmem => htext (List.mem_append_right _ hmem)]
    exact ⟨hne, rfl⟩

/-- Two occurrences of the separator do not overlap. -/
private theorem separator_shift {more left right : Text} (hmore : more ≠ [])
    (h : more ++ (separator ++ left) = separator ++ right) :
    ∃ between, more = separator ++ between ∧ right = between ++ (separator ++ left) := by
  rcases List.append_eq_append_iff.mp h with ⟨tail, hseparator, hright⟩ | ⟨between, hbetween, hright⟩
  · cases more with
    | nil => exact absurd rfl hmore
    | cons char more =>
        cases tail with
        | nil =>
            rw [List.append_nil] at hseparator
            exact ⟨[], by rw [hseparator, List.append_nil], by simpa using hright.symm⟩
        | cons first tail =>
            -- The second occurrence would start inside the first, but has a comma there.
            obtain ⟨-, htail⟩ := List.cons.inj hseparator
            obtain ⟨rfl, -⟩ := List.cons.inj hright
            have hcomma : ',' ∈ " function ".toList := by
              rw [show " function ".toList = more ++ ',' :: tail from htail]
              simp
            exact absurd hcomma (by decide)
  · exact ⟨between, hbetween, hright⟩

private theorem separator_ne_nil : separator ≠ [] := by decide

/-- A location is split at the last separator. -/
private theorem fullmatch_location {line : Text} (hline : '\n' ∉ line) {groups : List Text} :
    fullmatch locationPattern line = some groups ↔
      ∃ file function, groups = [file, function] ∧ line = file ++ (separator ++ function) ∧
        file ≠ [] ∧ function ≠ [] ∧ ¬separator <:+: function.dropLast := by
  change matchAt true (⟨.many 1 isDot, true⟩ :: [plain (.literal separator), group (.many 1 isDot)])
    line = some groups ↔ _
  rw [matchAt_many_eq_some]
  constructor
  · rintro ⟨file, rest, groups', rfl, ⟨hfile, -⟩, hrest, rfl, hlonger⟩
    obtain ⟨function, rfl, hfunction, rfl⟩ :=
      (fullmatch_separator fun hmem => hline (List.mem_append_right _ hmem)).mp hrest
    refine ⟨file, function, rfl, rfl, List.ne_nil_of_length_pos hfile, hfunction, ?_⟩
    intro hinside
    obtain ⟨before, after, hafter, rfl⟩ := (infix_dropLast_iff separator_ne_nil).mp hinside
    have hsplit : file ++ (separator ++ (before ++ (separator ++ after))) =
        (file ++ (separator ++ before)) ++ (separator ++ after) := by
      simp only [List.append_assoc]
    rw [hsplit] at hline
    have hlength : file.length < (file ++ (separator ++ before)).length := by
      have hpos := List.length_pos_iff.mpr separator_ne_nil
      rw [List.length_append, List.length_append]
      omega
    have hnone := hlonger _ _ hsplit hlength fun char hchar =>
      isDot_of_mem hline char (List.mem_append_left _ hchar)
    rw [(fullmatch_separator fun hmem => hline (List.mem_append_right _ hmem)).mpr
      ⟨after, rfl, hafter, rfl⟩] at hnone
    cases hnone
  · rintro ⟨file, function, rfl, rfl, hfile, hfunction, hinside⟩
    refine ⟨file, separator ++ function, [function], rfl,
      ⟨List.length_pos_iff.mpr hfile, fun char hchar =>
        isDot_of_mem hline char (List.mem_append_left _ hchar)⟩,
      (fullmatch_separator fun hmem => hline (List.mem_append_right _ hmem)).mpr
        ⟨function, rfl, hfunction, rfl⟩, rfl, ?_⟩
    intro taken' rest' heq hlength _
    cases hmatch : matchAt true [plain (.literal separator), group (.many 1 isDot)] rest' with
    | none => rfl
    | some groups =>
        have hrest' : '\n' ∉ rest' := fun hmem => hline (by rw [heq]; exact List.mem_append_right _ hmem)
        obtain ⟨after, rfl, hafter, -⟩ := (fullmatch_separator hrest').mp hmatch
        rcases List.append_eq_append_iff.mp heq with ⟨more, rfl, hmore⟩ | ⟨left, rfl, -⟩
        · have hne : more ≠ [] := by
            rintro rfl
            simp at hlength
          obtain ⟨between, -, rfl⟩ := separator_shift hne hmore.symm
          exact absurd ((infix_dropLast_iff separator_ne_nil).mpr ⟨between, after, hafter, rfl⟩) hinside
        · rw [List.length_append] at hlength
          omega

theorem location_eq_some {line file function : Text} (hline : '\n' ∉ line) :
    location line = some (file, function) ↔ line = file ++ (separator ++ function) ∧
      file ≠ [] ∧ function ≠ [] ∧ ¬separator <:+: function.dropLast := by
  have hiff := @fullmatch_location line hline [file, function]
  unfold location
  constructor
  · intro h
    split at h
    · rename_i hmatch
      obtain ⟨rfl, rfl⟩ := Prod.mk.inj (Option.some.inj h)
      obtain ⟨_, _, hgroups, hparts⟩ := hiff.mp hmatch
      simp only [List.cons.injEq, and_true] at hgroups
      obtain ⟨rfl, rfl⟩ := hgroups
      exact hparts
    · cases h
  · intro h
    rw [hiff.mpr ⟨file, function, rfl, h⟩]

/-- A line is a location if the separator stands somewhere between its first
and its last character. -/
theorem isSome_location {line : Text} (hline : '\n' ∉ line) :
    (location line).isSome = true ↔ ∃ file function, line = file ++ (separator ++ function) ∧
      file ≠ [] ∧ function ≠ [] := by
  have hshape : (location line).isSome = true ↔ (fullmatch locationPattern line).isSome = true := by
    unfold location
    cases hmatch : fullmatch locationPattern line with
    | none => rfl
    | some groups =>
        obtain ⟨file, function, rfl, -⟩ := (fullmatch_location hline).mp hmatch
        rfl
  rw [hshape]
  unfold fullmatch locationPattern
  rw [isSome_matchAt_cons]
  constructor
  · rintro ⟨file, rest, rfl, ⟨hfile, -⟩, hrest⟩
    obtain ⟨groups, hgroups⟩ := Option.isSome_iff_exists.mp hrest
    obtain ⟨function, rfl, hfunction, -⟩ :=
      (fullmatch_separator fun hmem => hline (List.mem_append_right _ hmem)).mp hgroups
    exact ⟨file, function, rfl, List.ne_nil_of_length_pos hfile, hfunction⟩
  · rintro ⟨file, function, rfl, hfile, hfunction⟩
    refine ⟨file, separator ++ function, rfl, ⟨List.length_pos_iff.mpr hfile, fun char hchar =>
      isDot_of_mem hline char (List.mem_append_left _ hchar)⟩, ?_⟩
    exact Option.isSome_of_mem ((fullmatch_separator fun hmem =>
      hline (List.mem_append_right _ hmem)).mpr ⟨function, rfl, hfunction, rfl⟩)

end Location

section Rows

variable (unicode) in
/-- The result pattern after the identifier. -/
def resultTail : List Piece :=
  [plain (.literal "]".toList), plain (.many 1 isSpace), plain (.literal "line".toList),
    plain (.many 1 isSpace), group (.many 1 unicode.isDecimal), plain (.many 1 isSpace),
    group (.many 1 isDot)]

/-- At least one character, all of a class. -/
def Run (accepts : Char → Bool) (text : Text) : Prop :=
  text ≠ [] ∧ ∀ char ∈ text, accepts char = true

variable (unicode) in
/-- A text such as `] line 7 x`, after which a result would go on. -/
def IsTail (text : Text) : Prop :=
  ∃ first second digits third rest, text = "]".toList ++ (first ++ ("line".toList ++ (second ++
      (digits ++ (third ++ rest))))) ∧ Run isSpace first ∧ Run isSpace second ∧
    Run unicode.isDecimal digits ∧ Run isSpace third ∧ rest ≠ []

/-- Blanks at the start of a description are taken for those before it. -/
def KeepsStart (description : Text) : Prop :=
  description.length = 1 ∨ ∀ char ∈ description.head?, isSpace char = false

def TableRow.rest (row : TableRow) : Text :=
  "]".toList ++ (" ".toList ++ ("line".toList ++ (" ".toList ++ (Nat.toDigits 10 row.number ++
    (" ".toList ++ row.description.val)))))

private theorem takes_run {accepts : Char → Bool} {text rest : Text} :
    (Part.many 1 accepts).Takes text rest ↔ Run accepts text := by
  simp [Part.Takes, Run, Nat.one_le_iff_ne_zero]

private theorem isSome_resultTail {text : Text} (htext : '\n' ∉ text) :
    (matchAt true (resultTail unicode) text).isSome = true ↔ IsTail unicode text := by
  unfold resultTail
  constructor
  · intro h
    obtain ⟨_, _, rfl, rfl, hbracket⟩ := isSome_matchAt_cons.mp h
    obtain ⟨first, _, rfl, hfirst, hfirst'⟩ := isSome_matchAt_cons.mp hbracket
    obtain ⟨_, _, rfl, rfl, hline⟩ := isSome_matchAt_cons.mp hfirst'
    obtain ⟨second, _, rfl, hsecond, hsecond'⟩ := isSome_matchAt_cons.mp hline
    obtain ⟨digits, _, rfl, hdigits, hdigits'⟩ := isSome_matchAt_cons.mp hsecond'
    obtain ⟨third, _, rfl, hthird, hthird'⟩ := isSome_matchAt_cons.mp hdigits'
    obtain ⟨rest, _, rfl, hrest, -⟩ := isSome_matchAt_cons.mp hthird'
    exact ⟨first, second, digits, third, rest ++ _, rfl, takes_run.mp hfirst,
      takes_run.mp hsecond, takes_run.mp hdigits, takes_run.mp hthird,
      fun hnil => (takes_run.mp hrest).1 (List.append_eq_nil_iff.mp hnil).1⟩
  · rintro ⟨first, second, digits, third, rest, rfl, hfirst, hsecond, hdigits, hthird, hrest⟩
    have hdots : ∀ char ∈ rest, isDot char = true := by
      intro char hchar
      exact isDot_of_mem htext char (by simp [hchar])
    refine isSome_matchAt_cons.mpr ⟨_, _, rfl, rfl, ?_⟩
    refine isSome_matchAt_cons.mpr ⟨first, _, rfl, takes_run.mpr hfirst, ?_⟩
    refine isSome_matchAt_cons.mpr ⟨_, _, rfl, rfl, ?_⟩
    refine isSome_matchAt_cons.mpr ⟨second, _, rfl, takes_run.mpr hsecond, ?_⟩
    refine isSome_matchAt_cons.mpr ⟨digits, _, rfl, takes_run.mpr hdigits, ?_⟩
    refine isSome_matchAt_cons.mpr ⟨third, _, rfl, takes_run.mpr hthird, ?_⟩
    exact isSome_matchAt_cons.mpr ⟨rest, [], by simp, takes_run.mpr ⟨hrest, hdots⟩, rfl⟩

/-- The description is what follows the longest run of blanks. -/
private theorem match_description {description : Text} (hne : description ≠ [])
    (hline : '\n' ∉ description) :
    (∃ rest, matchAt true [plain (.many 1 isSpace), group (.many 1 isDot)]
        (" ".toList ++ description) = some [rest]) ∧
      (matchAt true [plain (.many 1 isSpace), group (.many 1 isDot)]
        (" ".toList ++ description) = some [description] ↔ KeepsStart description) := by
  have hblank : '\n' ∉ " ".toList ++ description := by
    simpa using hline
  have hgreedy : ∀ groups, matchAt true [plain (.many 1 isSpace), group (.many 1 isDot)]
      (" ".toList ++ description) = some groups ↔ ∃ taken rest, " ".toList ++ description = taken ++ rest ∧
        (1 ≤ taken.length ∧ ∀ char ∈ taken, isSpace char = true) ∧ rest ≠ [] ∧ groups = [rest] ∧
        ∀ taken' rest', " ".toList ++ description = taken' ++ rest' → taken.length < taken'.length →
          (∀ char ∈ taken', isSpace char = true) → rest' = [] := by
    intro groups
    have hrest : ∀ taken rest, " ".toList ++ description = taken ++ rest → '\n' ∉ rest := by
      intro taken rest heq hmem
      exact hblank (by rw [heq]; exact List.mem_append_right _ hmem)
    rw [plain, matchAt_many_eq_some]
    constructor
    · rintro ⟨taken, rest, groups', heq, htaken, hmatch, rfl, hlonger⟩
      obtain ⟨hne, rfl⟩ := (fullmatch_rest (hrest taken rest heq)).mp hmatch
      refine ⟨taken, rest, heq, htaken, hne, rfl, ?_⟩
      intro taken' rest' heq' hlength htaken'
      by_contra hne'
      have hnone := hlonger taken' rest' heq' hlength htaken'
      rw [(fullmatch_rest (hrest taken' rest' heq')).mpr ⟨hne', rfl⟩] at hnone
      cases hnone
    · rintro ⟨taken, rest, heq, htaken, hne, rfl, hlonger⟩
      refine ⟨taken, rest, [rest], heq, htaken,
        (fullmatch_rest (hrest taken rest heq)).mpr ⟨hne, rfl⟩, rfl, ?_⟩
      intro taken' rest' heq' hlength htaken'
      rw [hlonger taken' rest' heq' hlength htaken']
      rfl
  refine ⟨?_, ?_⟩
  · have hmatch : (matchAt true [plain (.many 1 isSpace), group (.many 1 isDot)]
        (" ".toList ++ description)).isSome = true := by
      refine isSome_matchAt_cons.mpr ⟨" ".toList, description, rfl, ⟨by decide, ?_⟩, ?_⟩
      · exact List.all_eq_true.mp (by decide)
      · exact Option.isSome_of_mem ((fullmatch_rest hline).mpr ⟨hne, rfl⟩)
    obtain ⟨groups, hgroups⟩ := Option.isSome_iff_exists.mp hmatch
    obtain ⟨_, rest, -, -, -, rfl, -⟩ := (hgreedy groups).mp hgroups
    exact ⟨rest, hgroups⟩
  · rw [hgreedy]
    obtain ⟨first, description, rfl⟩ := List.exists_cons_of_ne_nil hne
    constructor
    · rintro ⟨taken, rest, heq, -, -, hgroups, hlonger⟩
      simp only [List.cons.injEq, and_true] at hgroups
      subst hgroups
      have hlength := congrArg List.length heq
      simp only [List.length_append] at hlength
      by_contra hnot
      simp only [KeepsStart, List.length_cons, List.head?_cons, Option.mem_def, Option.some.injEq,
        forall_eq', not_or, Bool.not_eq_false] at hnot
      have hnil := hlonger [' ', first] description rfl (by simp at hlength ⊢; omega) (by
        simp only [List.mem_cons, List.not_mem_nil, or_false]
        rintro char (rfl | rfl)
        · decide
        · exact hnot.2)
      simp [hnil] at hnot
    · intro hkeeps
      refine ⟨" ".toList, first :: description, rfl, ⟨by decide, List.all_eq_true.mp (by decide)⟩, hne,
        rfl, ?_⟩
      rintro (_ | ⟨blank, _ | ⟨second, taken'⟩⟩) rest' heq hlength htaken'
      · simp at hlength
      · simp at hlength
      · obtain ⟨rfl, hrest⟩ := List.cons.inj (List.cons.inj heq).2
        rcases hkeeps with hone | hspace
        · simp only [List.length_cons, Nat.add_eq_right, List.length_eq_zero_iff] at hone
          rw [hone] at hrest
          exact (List.append_eq_nil_iff.mp hrest.symm).2
        · have hfirst := htaken' first (by simp)
          rw [hspace first rfl] at hfirst
          cases hfirst

/-- A blank that is not followed by another one. -/
private theorem matchAt_blank {pattern : List Piece} {rest : Text}
    (hrest : ∀ char ∈ rest.head?, isSpace char = false) :
    matchAt true (plain (.many 1 isSpace) :: pattern) (" ".toList ++ rest) =
      matchAt true pattern rest := by
  rw [plain, matchAt_many_append (by decide) (List.all_eq_true.mp (by decide)) hrest]
  · exact Option.map_id'
  · intro front' char back heq hlength
    have hsum := congrArg List.length heq
    simp at hsum
    omega

private theorem match_rest (row : TableRow) :
    matchAt true (resultTail unicode) row.rest =
      (matchAt true [plain (.many 1 isSpace), group (.many 1 isDot)]
        (" ".toList ++ row.description.val)).map (Nat.toDigits 10 row.number :: ·) := by
  have hhead : ∀ char ∈ (Nat.toDigits 10 row.number ++ (" ".toList ++ row.description.val)).head?,
      isSpace char = false := by
    obtain ⟨first, digits, hcons⟩ :=
      List.exists_cons_of_ne_nil (Nat.toDigits_ne_nil (n := row.number) (b := 10))
    rw [hcons]
    rintro char ⟨⟩
    exact isSpace_of_isDigit (Nat.isDigit_of_mem_toDigits (n := row.number) (b := 10) (by omega)
      (by omega) (by rw [hcons]; exact List.mem_cons_self))
  have hstop : ∀ char ∈ (" ".toList ++ row.description.val).head?, unicode.isDecimal char = false := by
    rintro char ⟨⟩
    exact unicode.isDecimal_ascii (by decide)
  unfold resultTail TableRow.rest
  rw [matchAt_literal, matchAt_blank (by rintro char ⟨⟩; rfl), matchAt_literal, matchAt_blank hhead,
    group, matchAt_many_append (List.length_pos_iff.mpr Nat.toDigits_ne_nil)
      (fun char hchar => unicode.isDecimal_of_mem_toDigits hchar) hstop]
  · rfl
  · intro front' char back heq _
    have hdigit : char.isDigit = true := Nat.isDigit_of_mem_toDigits (n := row.number) (b := 10)
      (by omega) (by omega) (by rw [heq]; simp)
    cases hmatch : matchAt true [plain (.many 1 isSpace), group (.many 1 isDot)]
        (char :: (back ++ (" ".toList ++ row.description.val))) with
    | none => rfl
    | some groups =>
        obtain ⟨taken, rest, htaken, hspaces, -⟩ :=
          isSome_matchAt_cons.mp (Option.isSome_of_mem hmatch)
        have hne := (takes_run.mp hspaces).1
        obtain ⟨first, taken, rfl⟩ := List.exists_cons_of_ne_nil hne
        obtain ⟨rfl, -⟩ := List.cons.inj htaken
        have hspace := hspaces.2 char (by simp)
        rw [isSpace_of_isDigit hdigit] at hspace
        cases hspace

private theorem oneOf_verdict {pattern : List Piece} (verdict : RowVerdict) (rest : Text) :
    matchAt true (group (.oneOf ["PASSED".toList, "FAILED".toList, "UNKNOWN".toList,
        "UNREACHABLE".toList]) :: pattern) (verdict.text ++ rest) =
      (matchAt true pattern rest).map (verdict.text :: ·) := by
  refine matchAt_oneOf (by cases verdict <;> decide) fun other hother hstart => ?_
  have hcases := List.prefix_or_prefix_of_prefix hstart (List.prefix_append verdict.text rest)
  simp only [List.mem_cons, List.not_mem_nil, or_false] at hother
  rcases hother with rfl | rfl | rfl | rfl <;> cases verdict <;> revert hcases <;> decide

/-- No alternative begins with a blank. -/
private theorem oneOf_blank {pattern : List Piece} (rest : Text) :
    matchAt true (group (.oneOf ["PASSED".toList, "FAILED".toList, "UNKNOWN".toList,
        "UNREACHABLE".toList]) :: pattern) (' ' :: rest) = none := by
  cases hmatch : matchAt true (group (.oneOf ["PASSED".toList, "FAILED".toList, "UNKNOWN".toList,
      "UNREACHABLE".toList]) :: pattern) (' ' :: rest) with
  | none => rfl
  | some groups =>
      obtain ⟨taken, rest', heq, htaken, -⟩ :=
        isSome_matchAt_cons.mp (Option.isSome_of_mem hmatch)
      simp only [group, Part.Takes, List.mem_cons, List.not_mem_nil, or_false] at htaken
      rcases htaken with rfl | rfl | rfl | rfl <;> cases heq

private theorem match_print (row : TableRow) :
    fullmatch (resultPattern unicode) row.print =
      (matchAt true (group (.many 1 isDot) :: resultTail unicode)
        (row.identifier.val ++ row.rest)).map (row.verdict.text :: ·) := by
  have hverdict : ∀ char ∈ (row.verdict.text ++ (" ".toList ++ ("[".toList ++
      (row.identifier.val ++ row.rest)))).head?, isSpace char = false := by
    cases row.verdict <;> (rintro char ⟨⟩; rfl)
  have hblanks : ∀ char ∈ "  ".toList, isSpace char = true := List.all_eq_true.mp (by decide)
  unfold fullmatch
  change matchAt true (⟨.many 1 isSpace, false⟩ :: group _ :: plain (.many 1 isSpace) ::
    plain (.literal "[".toList) :: group (.many 1 isDot) :: resultTail unicode)
    ("  ".toList ++ (row.verdict.text ++ (" ".toList ++ ("[".toList ++
      (row.identifier.val ++ row.rest))))) = _
  rw [matchAt_many_append (by decide) hblanks hverdict, oneOf_verdict,
    matchAt_blank (by rintro char ⟨⟩; rfl), matchAt_literal]
  · exact Option.map_id'
  · intro front' char back heq hlength
    obtain ⟨rfl, rfl⟩ : char = ' ' ∧ back = [] := by
      match front', hlength with
      | [first], _ =>
          have hparts : first = ' ' ∧ char = ' ' ∧ back = [] := by simpa [eq_comm] using heq
          exact hparts.2
      | _ :: _ :: _, _ =>
          have hsum := congrArg List.length heq
          simp at hsum
    exact oneOf_blank _

private theorem newline_not_mem_toDigits (n : Nat) : '\n' ∉ Nat.toDigits 10 n := by
  intro hmem
  exact absurd (Nat.isDigit_of_mem_toDigits (by omega) (by omega) hmem) (by decide)

private theorem newline_not_mem_rest (row : TableRow) : '\n' ∉ row.rest := by
  unfold TableRow.rest
  simp only [List.mem_append, not_or]
  exact ⟨by decide, by decide, by decide, by decide, newline_not_mem_toDigits _, by decide,
    row.description.2.2⟩

theorem newline_not_mem_print (row : TableRow) : '\n' ∉ row.print := by
  have hverdict : '\n' ∉ row.verdict.text := by
    cases row.verdict <;> decide
  change '\n' ∉ "  ".toList ++ (row.verdict.text ++ (" ".toList ++ ("[".toList ++
    (row.identifier.val ++ row.rest))))
  simp only [List.mem_append, not_or]
  exact ⟨by decide, hverdict, by decide, by decide, row.identifier.2.2, newline_not_mem_rest row⟩

/-- A bracket in the text after the identifier, other than the first one, is
one of the description. -/
private theorem bracket_of_rest {row : TableRow} {more tail : Text} (hmore : more ≠ [])
    (heq : row.rest = more ++ ']' :: tail) :
    ∃ between, row.description.val = between ++ ']' :: tail := by
  obtain ⟨char, more, rfl⟩ := List.exists_cons_of_ne_nil hmore
  have hfront : ']' ∉ " line ".toList ++ (Nat.toDigits 10 row.number ++ " ".toList) := by
    simp only [List.mem_append, not_or]
    refine ⟨by decide, fun hmem => ?_, by decide⟩
    exact absurd (Nat.isDigit_of_mem_toDigits (by omega) (by omega) hmem) (by decide)
  have hsplit : (" line ".toList ++ (Nat.toDigits 10 row.number ++ " ".toList)) ++
      row.description.val = more ++ ']' :: tail := by
    rw [List.append_assoc, List.append_assoc]
    exact (List.cons.inj heq).2
  rcases List.append_eq_append_iff.mp hsplit with ⟨between, -, hdescription⟩ | ⟨left, hleft, hright⟩
  · exact ⟨between, hdescription⟩
  · cases left with
    | nil => exact ⟨[], hright.symm⟩
    | cons bracket left =>
        obtain ⟨rfl, -⟩ := List.cons.inj hright
        exact absurd (by rw [hleft]; simp) hfront

private theorem IsTail.exists_bracket {text : Text} (h : IsTail unicode text) :
    ∃ rest, text = ']' :: rest := by
  obtain ⟨first, second, digits, third, rest, rfl, -⟩ := h
  exact ⟨_, rfl⟩

/-- The rows whose result line is read as it was meant. -/
structure TableRow.ReadBack (unicode : Unicode) (row : TableRow) : Prop where
  identifier_separator : ¬separator <:+: row.identifier.val
  description_separator : ¬separator <:+: row.description.val.dropLast
  description_tail : ∀ before tail, row.description.val = before ++ tail → ¬IsTail unicode tail
  description_start : KeepsStart row.description.val
  number_short : (Nat.toDigits 10 row.number).length ≤ maxDigits

/-- The identifier is read to its end if nothing behind it looks like the rest. -/
private theorem match_identifier (row : TableRow) :
    matchAt true (group (.many 1 isDot) :: resultTail unicode)
        (row.identifier.val ++ row.rest) =
        some [row.identifier.val, Nat.toDigits 10 row.number, row.description.val] ↔
      KeepsStart row.description.val ∧
        ∀ before tail, row.description.val = before ++ tail → ¬IsTail unicode tail := by
  have hline : '\n' ∉ row.identifier.val ++ row.rest := by
    simp [row.identifier.2.2, newline_not_mem_rest]
  have hrest : matchAt true (resultTail unicode) row.rest =
      some [Nat.toDigits 10 row.number, row.description.val] ↔ KeepsStart row.description.val := by
    rw [match_rest, ← (match_description row.description.2.1 row.description.2.2).2]
    simp
  rw [group, matchAt_many_eq_some, ← hrest]
  constructor
  · rintro ⟨taken, rest, groups', heq, -, hmatch, hgroups, hlonger⟩
    simp only [if_true, List.cons.injEq] at hgroups
    obtain ⟨rfl, rfl⟩ := hgroups
    obtain rfl := List.append_cancel_left heq
    refine ⟨hmatch, fun before tail hdescription htail => ?_⟩
    obtain ⟨front, hne, hfront⟩ : ∃ front, front ≠ [] ∧ row.rest = front ++ row.description.val :=
      ⟨"]".toList ++ (" line ".toList ++ (Nat.toDigits 10 row.number ++ " ".toList)), by simp,
        by simp [TableRow.rest]⟩
    have hsplit : row.identifier.val ++ row.rest =
        (row.identifier.val ++ (front ++ before)) ++ tail := by
      rw [hfront, hdescription]
      simp only [List.append_assoc]
    rw [hsplit] at hline
    have hnone := hlonger _ _ hsplit (by
      have hpos := List.length_pos_iff.mpr hne
      rw [List.length_append, List.length_append]
      omega) fun char hchar => isDot_of_mem hline char (List.mem_append_left _ hchar)
    have hsome := (isSome_resultTail fun hmem => hline (List.mem_append_right _ hmem)).mpr htail
    rw [hnone] at hsome
    cases hsome
  · rintro ⟨hmatch, hno⟩
    refine ⟨row.identifier.val, row.rest, _, rfl,
      ⟨List.length_pos_iff.mpr row.identifier.2.1, isDot_of_mem row.identifier.2.2⟩, hmatch, rfl, ?_⟩
    intro taken' rest' heq hlength _
    cases hmatch' : matchAt true (resultTail unicode) rest' with
    | none => rfl
    | some groups =>
        have hrest' : '\n' ∉ rest' := fun hmem => hline (by rw [heq]; exact List.mem_append_right _ hmem)
        have htail := (isSome_resultTail hrest').mp (Option.isSome_of_mem hmatch')
        obtain ⟨text, rfl⟩ := htail.exists_bracket
        rcases List.append_eq_append_iff.mp heq with ⟨more, rfl, hmore⟩ | ⟨left, hleft, -⟩
        · have hne : more ≠ [] := by
            rintro rfl
            simp at hlength
          obtain ⟨between, hdescription⟩ := bracket_of_rest hne hmore
          exact absurd htail (hno _ _ hdescription)
        · rw [hleft, List.length_append] at hlength
          omega

/-- A row is taken for a location if its identifier or its description reads
like one. -/
theorem location_print (row : TableRow) :
    location row.print = none ↔ ¬separator <:+: row.identifier.val ∧
      ¬separator <:+: row.description.val.dropLast := by
  have hsome : (location row.print).isSome = true ↔ separator <:+: row.print.dropLast := by
    rw [isSome_location (newline_not_mem_print row), infix_dropLast_iff separator_ne_nil]
    constructor
    · rintro ⟨file, function, heq, -, hne⟩
      exact ⟨file, function, hne, heq⟩
    · rintro ⟨file, function, hne, heq⟩
      refine ⟨file, function, heq, ?_, hne⟩
      rintro rfl
      have hfirst := (List.cons.inj heq).1
      exact absurd hfirst (by decide)
  have hdropLast : row.print.dropLast =
      ("  ".toList ++ (row.verdict.text ++ " [".toList)) ++ (row.identifier.val ++ ']' ::
        ((" line ".toList ++ (Nat.toDigits 10 row.number ++ " ".toList)) ++
          row.description.val.dropLast)) := by
    have hprint : row.print = (("  ".toList ++ (row.verdict.text ++ " [".toList)) ++
        (row.identifier.val ++ ']' :: (" line ".toList ++ (Nat.toDigits 10 row.number ++
          " ".toList)))) ++ row.description.val := by
      simp [TableRow.print]
    rw [hprint, List.dropLast_append_of_ne_nil row.description.2.1]
    simp only [List.append_assoc, List.cons_append]
  have hverdict : ',' ∉ "  ".toList ++ (row.verdict.text ++ " [".toList) := by
    cases row.verdict <;> decide
  have hmiddle : ',' ∉ " line ".toList ++ (Nat.toDigits 10 row.number ++ " ".toList) := by
    simp only [List.mem_append, not_or]
    refine ⟨by decide, fun hmem => ?_, by decide⟩
    exact absurd (Nat.isDigit_of_mem_toDigits (by omega) (by omega) hmem) (by decide)
  have hiff : separator <:+: row.print.dropLast ↔ separator <:+: row.identifier.val ∨
      separator <:+: row.description.val.dropLast := by
    rw [hdropLast]
    unfold separator
    exact (infix_append_of_head_not_mem hverdict).trans
      ((infix_append_cons (by decide)).trans (or_congr_right (infix_append_of_head_not_mem hmiddle)))
  rw [← not_or, ← hiff, ← hsome, Bool.not_eq_true, Option.isSome_eq_false_iff,
    Option.isNone_iff_eq_none]

/-- A row that is printed is read back. -/
theorem resultRow_print {row : TableRow} (hstart : KeepsStart row.description.val)
    (htail : ∀ before tail, row.description.val = before ++ tail → ¬IsTail unicode tail) :
    resultRow unicode row.print = some ⟨row.verdict.text, row.identifier.val,
      Nat.toDigits 10 row.number, row.description.val⟩ := by
  unfold resultRow
  rw [match_print, (match_identifier row).mpr ⟨hstart, htail⟩]
  rfl

/-- The text of the condition shows whether a row was read as it was meant. -/
theorem eq_of_resultRow_print {row : TableRow} {result : ResultRow}
    (h : resultRow unicode row.print = some result)
    (hcondition : result.identifier ++ (": ".toList ++ result.description) =
      row.identifier.val ++ (": ".toList ++ row.description.val)) :
    KeepsStart row.description.val ∧
      ∀ before tail, row.description.val = before ++ tail → ¬IsTail unicode tail := by
  obtain ⟨rest, hdescription⟩ := (match_description row.description.2.1 row.description.2.2).1
  have hrest : matchAt true (resultTail unicode) row.rest =
      some [Nat.toDigits 10 row.number, rest] := by
    rw [match_rest, hdescription]
    rfl
  unfold resultRow at h
  split at h
  · rename_i status identifier number description hmatch
    obtain rfl := Option.some.inj h
    rw [match_print] at hmatch
    obtain ⟨groups, hgroups, hcons⟩ := Option.map_eq_some_iff.mp hmatch
    obtain ⟨-, rfl⟩ := List.cons.inj hcons
    rw [← match_identifier, hgroups]
    rw [group, matchAt_many_eq_some] at hgroups
    obtain ⟨taken, left, groups', heq, -, hleft, hparts, hlonger⟩ := hgroups
    simp only [if_true, List.cons.injEq] at hparts
    obtain ⟨rfl, rfl⟩ := hparts
    -- The text after the identifier matches, so the identifier is not cut.
    have hlength : ¬identifier.length < row.identifier.val.length := by
      intro hless
      have hnone := hlonger _ _ rfl hless (isDot_of_mem row.identifier.2.2)
      rw [hrest] at hnone
      cases hnone
    obtain ⟨more, rfl, hmore⟩ : ∃ more, identifier = row.identifier.val ++ more ∧
        row.rest = more ++ left := by
      rcases List.append_eq_append_iff.mp heq with hmore | ⟨shorter, hidentifier, hleft'⟩
      · exact hmore
      · have hsum := congrArg List.length hidentifier
        rw [List.length_append] at hsum
        obtain rfl : shorter = [] := List.eq_nil_of_length_eq_zero (by omega)
        exact ⟨[], by simpa using hidentifier.symm, by simpa using hleft'.symm⟩
    cases more with
    | nil =>
        simp only [List.append_nil] at hcondition
        have hboth : description = row.description.val :=
          List.append_cancel_left (List.append_cancel_left hcondition)
        rw [List.nil_append] at hmore
        rw [← hmore, hrest] at hleft
        simp only [Option.some.injEq, List.cons.injEq, and_true] at hleft
        rw [← hleft.1, hboth, List.append_nil]
    | cons char more =>
        have hbracket : char = ']' := (List.cons.inj hmore).1.symm
        simp only [List.append_assoc] at hcondition
        have hcolon := (List.cons.inj (List.append_cancel_left hcondition)).1
        rw [hbracket] at hcolon
        exact absurd hcolon (by decide)
  · cases h

end Rows

end AdaptivePi.Report
