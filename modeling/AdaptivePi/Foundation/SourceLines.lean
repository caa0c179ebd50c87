import AdaptivePi.Foundation.PythonText

/-!
The lines of a source text as a compiler numbers them, which end at newlines
only, and the rows that `splitlines` makes of them. A line is at least one row;
it is exactly one if no other boundary is inside it.
-/

namespace AdaptivePi.Foundation.PythonText

def linesWithEnds : Text → List Text
  | [] => []
  | char :: rest =>
      if char = '\n' then ['\n'] :: linesWithEnds rest
      else
        match linesWithEnds rest with
        | [] => [[char]]
        | line :: lines => (char :: line) :: lines

def consRow (char : Char) (rows : List Text) : List Text :=
  if isBoundary char then [] :: rows
  else
    match rows with
    | [] => [[char]]
    | row :: rows => (char :: row) :: rows

theorem splitlines_cons {char : Char} {rest : Text}
    (h : ¬(char = '\r' ∧ rest.head? = some '\n')) :
    splitlines (char :: rest) = consRow char (splitlines rest) := by
  have hreturn : ∀ tail, char = '\r' → rest = '\n' :: tail → False := by
    rintro tail rfl rfl
    exact h ⟨rfl, rfl⟩
  unfold consRow
  refine (splitlines.eq_3 char rest hreturn).trans ?_
  split <;> rfl

theorem splitlines_newline (rest : Text) : splitlines ('\n' :: rest) = [] :: splitlines rest :=
  splitlines_cons fun h => absurd h.1 (by decide)

@[simp] theorem splitlines_eq_nil_iff {text : Text} : splitlines text = [] ↔ text = [] := by
  constructor
  · intro h
    cases text with
    | nil => rfl
    | cons char rest =>
        by_cases hpair : char = '\r' ∧ rest.head? = some '\n'
        · obtain ⟨rfl, hhead⟩ := hpair
          obtain ⟨tail, rfl⟩ := List.head?_eq_some_iff.mp hhead
          rw [splitlines] at h
          cases h
        · rw [splitlines_cons hpair] at h
          unfold consRow at h
          split at h
          · cases h
          · split at h <;> cases h
  · rintro rfl
    rfl

theorem consRow_append {char : Char} {rows rows' : List Text} (hrows : rows ≠ []) :
    consRow char (rows ++ rows') = consRow char rows ++ rows' := by
  unfold consRow
  split
  · rfl
  · cases rows with
    | nil => exact absurd rfl hrows
    | cons row rows => rfl

/-- The ends of lines are boundaries before and after text mode. -/
theorem splitlines_universalNewlines (text : Text) :
    splitlines (universalNewlines text) = splitlines text := by
  induction text using universalNewlines.induct with
  | case1 => rfl
  | case2 rest ih =>
      rw [universalNewlines, splitlines, splitlines_newline, ih]
  | case3 char rest hnot ih =>
      have hpair : ¬(char = '\r' ∧ rest.head? = some '\n') := by
        rintro ⟨rfl, hhead⟩
        obtain ⟨tail, rfl⟩ := List.head?_eq_some_iff.mp hhead
        exact hnot tail rfl rfl
      rw [universalNewlines]
      · rw [splitlines_cons hpair]
        by_cases hreturn : char = '\r'
        · subst hreturn
          rw [if_pos rfl, splitlines_newline, ih]
          rfl
        · rw [if_neg hreturn, splitlines_cons fun h => hreturn h.1, ih]
      · exact hnot

theorem linesWithEnds_ne_nil {text line : Text} (h : line ∈ linesWithEnds text) : line ≠ [] := by
  induction text generalizing line with
  | nil => cases h
  | cons char rest ih =>
      unfold linesWithEnds at h
      split at h
      · rcases List.mem_cons.mp h with rfl | h
        · simp
        · exact ih h
      · split at h
        · obtain rfl := List.mem_singleton.mp h
          simp
        · rename_i first lines hlines
          rcases List.mem_cons.mp h with rfl | h
          · simp
          · exact ih (hlines ▸ List.mem_cons_of_mem _ h)

/-- Lines make up the text. -/
theorem flatten_linesWithEnds (text : Text) : (linesWithEnds text).flatten = text := by
  induction text with
  | nil => rfl
  | cons char rest ih =>
      unfold linesWithEnds
      split
      · rename_i hchar
        rw [List.flatten_cons, ih, hchar]
        rfl
      · split
        · rename_i hlines
          rw [hlines] at ih
          rw [← ih]
          rfl
        · rename_i first lines hlines
          rw [hlines] at ih
          rw [← ih]
          rfl

/-- The rows of a text are the rows of its lines. -/
theorem splitlines_eq_flatMap (text : Text) :
    splitlines text = (linesWithEnds text).flatMap splitlines := by
  induction text with
  | nil => rfl
  | cons char rest ih =>
      unfold linesWithEnds
      split
      · rename_i hchar
        subst hchar
        rw [splitlines_newline, ih]
        rfl
      · cases hlines : linesWithEnds rest with
        | nil =>
            have hrest : rest = [] := by
              rw [← flatten_linesWithEnds rest, hlines]
              rfl
            subst hrest
            simp
        | cons line lines =>
            have hflatten := flatten_linesWithEnds rest
            rw [hlines, List.flatten_cons] at hflatten
            rw [hlines, List.flatMap_cons] at ih
            have hline : line ≠ [] := linesWithEnds_ne_nil (hlines ▸ List.mem_cons_self)
            have hhead : rest.head? = line.head? := by
              rw [← hflatten, List.head?_append, Option.or_of_isSome]
              rw [List.isSome_head?]
              simpa using hline
            dsimp only
            rw [List.flatMap_cons]
            by_cases hpair : char = '\r' ∧ rest.head? = some '\n'
            · -- The pair ends the line: nothing follows the newline in it.
              obtain ⟨rfl, hnewline⟩ := hpair
              obtain ⟨tail, rfl⟩ := List.head?_eq_some_iff.mp hnewline
              rw [linesWithEnds, if_pos rfl] at hlines
              obtain ⟨rfl, rfl⟩ := List.cons.inj hlines
              rw [splitlines_newline, splitlines_newline] at ih
              rw [splitlines, (List.cons.inj ih).2]
              rfl
            · rw [splitlines_cons hpair, ih,
                consRow_append (by simpa using hline), splitlines_cons (by rwa [← hhead])]

/-- A line whose only boundary is its end. -/
def IsOneRow (line : Text) : Prop :=
  ∃ body ending, line = body ++ ending ∧ (∀ char ∈ body, isBoundary char = false) ∧
    (ending = [] ∨ ending = "\r\n".toList ∨ ∃ char, isBoundary char = true ∧ ending = [char])

theorem IsOneRow.cons {char : Char} {line : Text} (hchar : isBoundary char = false)
    (h : IsOneRow line) : IsOneRow (char :: line) := by
  obtain ⟨body, ending, rfl, hbody, hending⟩ := h
  exact ⟨char :: body, ending, rfl, List.forall_mem_cons.mpr ⟨hchar, hbody⟩, hending⟩

theorem IsOneRow.tail {char : Char} {line : Text} (hchar : isBoundary char = false)
    (h : IsOneRow (char :: line)) : IsOneRow line := by
  obtain ⟨body, ending, hline, hbody, hending⟩ := h
  cases body with
  | nil =>
      rw [List.nil_append] at hline
      subst hline
      rcases hending with h | h | ⟨other, hother, h⟩
      · cases h
      · rw [(List.cons.inj h).1] at hchar
        exact absurd hchar (by decide)
      · rw [(List.cons.inj h).1, hother] at hchar
        cases hchar
  | cons first body =>
      rw [List.cons_append] at hline
      exact ⟨body, ending, (List.cons.inj hline).2, (List.forall_mem_cons.mp hbody).2, hending⟩

/-- After a boundary there may be the newline of a pair only. -/
theorem isOneRow_boundary_iff {char : Char} {rest : Text} (hchar : isBoundary char = true) :
    IsOneRow (char :: rest) ↔ rest = [] ∨ (char = '\r' ∧ rest = ['\n']) := by
  constructor
  · rintro ⟨body, ending, hsplit, hbody, hending⟩
    cases body with
    | nil =>
        rw [List.nil_append] at hsplit
        subst hsplit
        rcases hending with h | h | ⟨other, -, h⟩
        · cases h
        · exact .inr (List.cons.inj h)
        · exact .inl (List.cons.inj h).2
    | cons first body =>
        rw [List.cons_append] at hsplit
        have hfirst := (List.forall_mem_cons.mp hbody).1
        rw [← (List.cons.inj hsplit).1, hchar] at hfirst
        cases hfirst
  · rintro (rfl | ⟨rfl, rfl⟩)
    · exact ⟨[], [char], rfl, by simp, .inr (.inr ⟨char, hchar, rfl⟩)⟩
    · exact ⟨[], _, rfl, by simp, .inr (.inl rfl)⟩

/-- A boundary inside a line starts another row. -/
theorem length_splitlines_eq_one_iff {line : Text} (hline : line ≠ []) :
    (splitlines line).length = 1 ↔ IsOneRow line := by
  have hempty : ∀ rest : Text, (splitlines rest).length + 1 = 1 ↔ rest = [] := by
    simp
  induction line with
  | nil => exact absurd rfl hline
  | cons char rest ih =>
      by_cases hpair : char = '\r' ∧ rest.head? = some '\n'
      · obtain ⟨rfl, hhead⟩ := hpair
        obtain ⟨tail, rfl⟩ := List.head?_eq_some_iff.mp hhead
        rw [splitlines, List.length_cons, hempty, isOneRow_boundary_iff (by decide)]
        simp
      · rw [splitlines_cons hpair]
        cases hchar : isBoundary char with
        | true =>
            have hrows : (consRow char (splitlines rest)).length = (splitlines rest).length + 1 := by
              simp [consRow, hchar]
            rw [hrows, hempty, isOneRow_boundary_iff hchar]
            refine (or_iff_left ?_).symm
            rintro ⟨hreturn, rfl⟩
            exact hpair ⟨hreturn, rfl⟩
        | false =>
            cases rest with
            | nil =>
                have hrows : (consRow char (splitlines [])).length = 1 := by
                  simp [consRow, hchar, splitlines]
                exact iff_of_true hrows ⟨[char], [], by simp, by simpa using hchar, .inl rfl⟩
            | cons next rest =>
                have hrows : (consRow char (splitlines (next :: rest))).length =
                    (splitlines (next :: rest)).length := by
                  cases hsplit : splitlines (next :: rest) with
                  | nil => exact absurd (splitlines_eq_nil_iff.mp hsplit) (by simp)
                  | cons row rows => simp [consRow, hchar]
                rw [hrows]
                exact (ih (by simp)).trans ⟨.cons hchar, .tail hchar⟩

/-- A row with this number shows the line with this number, and no other row does. -/
def ShowsLine (text : Text) (row line : Nat) : Prop :=
  ∃ before shown after, linesWithEnds text = before ++ shown :: after ∧ before.length + 1 = line ∧
    (before.flatMap splitlines).length + 1 = row ∧ (splitlines shown).length = 1

/-- There is a line with this number, and it and all lines before it are one row. -/
def Undivided (text : Text) (line : Nat) : Prop :=
  ∃ before shown after, linesWithEnds text = before ++ shown :: after ∧ before.length + 1 = line ∧
    (∀ other ∈ before, IsOneRow other) ∧ IsOneRow shown

/-- There are as many rows as lines exactly if each line is one row. -/
private theorem length_flatMap_splitlines {lines : List Text} (hlines : ∀ line ∈ lines, line ≠ []) :
    lines.length ≤ (lines.flatMap splitlines).length ∧
      ((lines.flatMap splitlines).length = lines.length ↔ ∀ line ∈ lines, IsOneRow line) := by
  induction lines with
  | nil => simp
  | cons line lines ih =>
      obtain ⟨hline, hrest⟩ := List.forall_mem_cons.mp hlines
      obtain ⟨hle, hiff⟩ := ih hrest
      have hpos : 0 < (splitlines line).length := by
        rw [List.length_pos_iff]
        simpa using hline
      have hone := length_splitlines_eq_one_iff hline
      rw [List.flatMap_cons, List.length_append, List.length_cons, List.forall_mem_cons, ← hiff, ← hone]
      omega

/-- The row with the number of a line shows it exactly if no line up to there is
divided. -/
theorem showsLine_self_iff (text : Text) (line : Nat) :
    ShowsLine text line line ↔ Undivided text line := by
  have hnonempty : ∀ before shown after, linesWithEnds text = before ++ shown :: after →
      (∀ other ∈ before, other ≠ []) ∧ shown ≠ [] := by
    intro before shown after hsplit
    constructor
    · intro other hother
      exact linesWithEnds_ne_nil (hsplit ▸ List.mem_append_left _ hother)
    · exact linesWithEnds_ne_nil (hsplit ▸ List.mem_append_right _ List.mem_cons_self)
  constructor
  · rintro ⟨before, shown, after, hsplit, hnumber, hrows, hone⟩
    obtain ⟨hbefore, hshown⟩ := hnonempty before shown after hsplit
    refine ⟨before, shown, after, hsplit, hnumber, ?_, (length_splitlines_eq_one_iff hshown).mp hone⟩
    exact (length_flatMap_splitlines hbefore).2.mp (by omega)
  · rintro ⟨before, shown, after, hsplit, hnumber, hall, hone⟩
    obtain ⟨hbefore, hshown⟩ := hnonempty before shown after hsplit
    refine ⟨before, shown, after, hsplit, hnumber, ?_, (length_splitlines_eq_one_iff hshown).mpr hone⟩
    rw [(length_flatMap_splitlines hbefore).2.mpr hall, hnumber]

/-- A row that shows a line is there. -/
theorem ShowsLine.row_le {text : Text} {row line : Nat} (h : ShowsLine text row line) :
    1 ≤ row ∧ row ≤ (splitlines text).length := by
  obtain ⟨before, shown, after, hsplit, -, hrow, hone⟩ := h
  rw [splitlines_eq_flatMap, hsplit, List.flatMap_append, List.flatMap_cons, List.length_append,
    List.length_append]
  omega

end AdaptivePi.Foundation.PythonText
