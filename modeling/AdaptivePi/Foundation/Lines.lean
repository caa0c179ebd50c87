import Mathlib.Tactic.Common

namespace AdaptivePi.Foundation

abbrev Text := List Char

section Separators

variable {α : Type*} {separator : α} {left left' right right' : List α}

/-- The first separator determines what is left and right of it. -/
theorem append_cons_inj_left (hleft : separator ∉ left) (hleft' : separator ∉ left')
    (h : left ++ separator :: right = left' ++ separator :: right') :
    left = left' ∧ right = right' := by
  rcases List.append_eq_append_iff.mp h with ⟨middle, hmiddle, htail⟩ | ⟨middle, hmiddle, htail⟩
  · cases middle with
    | nil =>
        rw [List.append_nil] at hmiddle
        exact ⟨hmiddle.symm, (List.cons.inj htail).2⟩
    | cons first middle =>
        obtain ⟨rfl, -⟩ := List.cons.inj htail
        exact absurd (by simp [hmiddle]) hleft'
  · cases middle with
    | nil =>
        rw [List.append_nil] at hmiddle
        exact ⟨hmiddle, (List.cons.inj htail).2.symm⟩
    | cons first middle =>
        obtain ⟨rfl, -⟩ := List.cons.inj htail
        exact absurd (by simp [hmiddle]) hleft

/-- The last separator determines what is left and right of it. -/
theorem append_cons_inj_right (hright : separator ∉ right) (hright' : separator ∉ right')
    (h : left ++ separator :: right = left' ++ separator :: right') :
    left = left' ∧ right = right' := by
  have hreverse : right.reverse ++ separator :: left.reverse =
      right'.reverse ++ separator :: left'.reverse := by
    simpa using congrArg List.reverse h
  obtain ⟨hsecond, hfirst⟩ := append_cons_inj_left (by simpa using hright)
    (by simpa using hright') hreverse
  exact ⟨List.reverse_inj.mp hfirst, List.reverse_inj.mp hsecond⟩

/-- What has no separator is left or right of it. -/
theorem infix_append_cons {pattern : List α} (hpattern : separator ∉ pattern) :
    pattern <:+: left ++ separator :: right ↔ pattern <:+: left ∨ pattern <:+: right := by
  constructor
  · rintro ⟨before, after, heq⟩
    rcases List.append_eq_append_iff.mp heq with ⟨middle, rfl, -⟩ | ⟨middle, hleft, hright⟩
    · exact .inl ⟨before, middle, rfl⟩
    · cases middle with
      | nil => exact .inl ⟨before, [], by simpa using hleft⟩
      | cons first middle =>
          obtain ⟨rfl, rfl⟩ := List.cons.inj hright
          rcases List.append_eq_append_iff.mp hleft with ⟨tail, -, rfl⟩ | ⟨tail, -, htail⟩
          · exact absurd (by simp) hpattern
          · cases tail with
            | nil =>
                rw [List.nil_append] at htail
                exact absurd (by simp [← htail]) hpattern
            | cons second tail =>
                obtain ⟨-, rfl⟩ := List.cons.inj htail
                exact .inr ⟨tail, after, rfl⟩
  · rintro (hinside | hinside)
    · exact hinside.trans (List.prefix_append _ _).isInfix
    · exact hinside.trans ⟨left ++ [separator], [], by simp⟩

/-- A pattern with something after it. -/
theorem infix_dropLast_iff {pattern text : List α} (hpattern : pattern ≠ []) :
    pattern <:+: text.dropLast ↔ ∃ before after, after ≠ [] ∧ text = before ++ (pattern ++ after) := by
  constructor
  · rintro ⟨before, after, heq⟩
    have htext : text ≠ [] := by
      rintro rfl
      simp [hpattern] at heq
    obtain ⟨last, hlast⟩ : ∃ last, text.dropLast ++ [last] = text :=
      ⟨_, List.dropLast_concat_getLast htext⟩
    exact ⟨before, after ++ [last], by simp, by
      rw [← hlast, ← heq]
      simp⟩
  · rintro ⟨before, after, hafter, rfl⟩
    refine ⟨before, after.dropLast, ?_⟩
    rw [List.dropLast_append_of_ne_nil (by simp [hafter]), List.dropLast_append_of_ne_nil hafter]
    simp

/-- What is not in the front does not begin there. -/
theorem infix_append_of_head_not_mem {first : α} {pattern front rest : List α}
    (hfirst : first ∉ front) : first :: pattern <:+: front ++ rest ↔ first :: pattern <:+: rest := by
  induction front with
  | nil => rfl
  | cons char front ih =>
      rw [List.cons_append, List.infix_cons_iff, ih fun hmem => hfirst (List.mem_cons_of_mem _ hmem)]
      constructor
      · rintro (⟨after, heq⟩ | hinside)
        · obtain ⟨rfl, -⟩ := List.cons.inj heq
          exact absurd List.mem_cons_self hfirst
        · exact hinside
      · exact .inr

end Separators

def unlines (lines : List Text) : Text := lines.flatMap (· ++ ['\n'])

theorem unlines_cons (line : Text) (lines : List Text) :
    unlines (line :: lines) = line ++ '\n' :: unlines lines := by
  simp [unlines]

/-- Lines can be told apart by their newlines. -/
theorem unlines_injective {lines lines' : List Text} (hlines : ∀ line ∈ lines, '\n' ∉ line)
    (hlines' : ∀ line ∈ lines', '\n' ∉ line) (h : unlines lines = unlines lines') :
    lines = lines' := by
  induction lines generalizing lines' with
  | nil =>
      cases lines' with
      | nil => rfl
      | cons line' lines' =>
          rw [unlines_cons] at h
          simp [unlines] at h
  | cons line lines ih =>
      cases lines' with
      | nil =>
          rw [unlines_cons] at h
          simp [unlines] at h
      | cons line' lines' =>
          rw [unlines_cons, unlines_cons] at h
          obtain ⟨rfl, hrest⟩ := append_cons_inj_left (hlines line List.mem_cons_self)
            (hlines' line' List.mem_cons_self) h
          rw [ih (fun other hother => hlines other (List.mem_cons_of_mem _ hother))
            (fun other hother => hlines' other (List.mem_cons_of_mem _ hother)) hrest]

section Sections

variable {α : Type*} {isHeader : α → Prop}

/-- A section: a header, and lines that are not headers. -/
def IsSection (isHeader : α → Prop) (lines : α × List α) : Prop :=
  isHeader lines.1 ∧ ∀ line ∈ lines.2, ¬isHeader line

private theorem body_inj {body body' : List α} {rest rest' : List (α × List α)}
    (hbody : ∀ line ∈ body, ¬isHeader line) (hbody' : ∀ line ∈ body', ¬isHeader line)
    (hrest : ∀ lines ∈ rest, IsSection isHeader lines)
    (hrest' : ∀ lines ∈ rest', IsSection isHeader lines)
    (h : body ++ rest.flatMap (fun lines => lines.1 :: lines.2) =
      body' ++ rest'.flatMap fun lines => lines.1 :: lines.2) :
    body = body' ∧ rest.flatMap (fun lines => lines.1 :: lines.2) =
      rest'.flatMap fun lines => lines.1 :: lines.2 := by
  induction body generalizing body' with
  | nil =>
      cases body' with
      | nil => exact ⟨rfl, h⟩
      | cons line body' =>
          cases rest with
          | nil => cases h
          | cons lines rest =>
              obtain ⟨rfl, -⟩ := List.cons.inj h
              exact absurd (hrest lines List.mem_cons_self).1 (hbody' _ List.mem_cons_self)
  | cons line body ih =>
      cases body' with
      | nil =>
          cases rest' with
          | nil => cases h
          | cons lines rest' =>
              obtain ⟨rfl, -⟩ := List.cons.inj h
              exact absurd (hrest' lines List.mem_cons_self).1 (hbody _ List.mem_cons_self)
      | cons line' body' =>
          obtain ⟨rfl, htail⟩ := List.cons.inj h
          obtain ⟨rfl, hflat⟩ := ih (fun other hother => hbody other (List.mem_cons_of_mem _ hother))
            (fun other hother => hbody' other (List.mem_cons_of_mem _ hother)) htail
          exact ⟨rfl, hflat⟩

/-- The lines of sections determine the sections. -/
theorem sections_injective {sections sections' : List (α × List α)}
    (hsections : ∀ lines ∈ sections, IsSection isHeader lines)
    (hsections' : ∀ lines ∈ sections', IsSection isHeader lines)
    (h : sections.flatMap (fun lines => lines.1 :: lines.2) =
      sections'.flatMap fun lines => lines.1 :: lines.2) : sections = sections' := by
  induction sections generalizing sections' with
  | nil =>
      cases sections' with
      | nil => rfl
      | cons lines sections' => cases h
  | cons lines sections ih =>
      cases sections' with
      | nil => cases h
      | cons lines' sections' =>
          have hrest : ∀ other ∈ sections, IsSection isHeader other :=
            fun other hother => hsections other (List.mem_cons_of_mem _ hother)
          have hrest' : ∀ other ∈ sections', IsSection isHeader other :=
            fun other hother => hsections' other (List.mem_cons_of_mem _ hother)
          obtain ⟨hheader, htail⟩ := List.cons.inj h
          obtain ⟨hbody, hflat⟩ := body_inj (hsections lines List.mem_cons_self).2
            (hsections' lines' List.mem_cons_self).2 hrest hrest' htail
          rw [ih hrest hrest' hflat, Prod.ext hheader hbody]

end Sections

def isBreak (char : Char) : Bool := char = '\n' || char = '\r'

/-- The text has a line, at its start if `atStart`, that is exactly `line`. -/
def hasLineFrom (line : Text) (atStart : Bool) (text : Text) : Bool :=
  (atStart && text.takeWhile (!isBreak ·) == line) ||
    match text with
    | [] => false
    | char :: rest => hasLineFrom line (isBreak char) rest

/-- The regular expression `(^|[\r\n])line([\r\n]|$)`, for a line without
breaks. -/
def hasLine (line text : Text) : Bool := hasLineFrom line true text

/-- The first line is what comes before the first separator. -/
theorem splitOnP_eq_takeWhile (isEnd : Char → Bool) (text : Text) :
    text.splitOnP isEnd = text.takeWhile (!isEnd ·) :: (text.splitOnP isEnd).tail := by
  induction text with
  | nil => rfl
  | cons char rest ih =>
      rw [List.splitOnP_cons_eq_if_modifyHead]
      cases hend : isEnd char with
      | true => simp [hend]
      | false =>
          rw [ih]
          simp [hend]

theorem eq_false_of_mem_splitOnP {isEnd : Char → Bool} {text line : Text}
    (hline : line ∈ text.splitOnP isEnd) : ∀ char ∈ line, isEnd char = false := by
  induction text generalizing line with
  | nil =>
      rw [List.splitOnP_nil, List.mem_singleton] at hline
      simp [hline]
  | cons first rest ih =>
      rw [List.splitOnP_cons_eq_if_modifyHead] at hline
      split at hline
      · rcases List.mem_cons.mp hline with rfl | hline
        · simp
        · exact ih hline
      · rename_i hfirst
        have hlines := splitOnP_eq_takeWhile isEnd rest
        rw [hlines, List.modifyHead_cons] at hline
        rcases List.mem_cons.mp hline with rfl | hline
        · intro char hchar
          rcases List.mem_cons.mp hchar with rfl | hchar
          · simpa using hfirst
          · exact ih (by rw [hlines]; exact List.mem_cons_self) char hchar
        · exact ih (List.mem_of_mem_tail hline)

theorem hasLineFrom_iff {line : Text} (atStart : Bool) (text : Text) :
    hasLineFrom line atStart text = true ↔
      line ∈ if atStart then text.splitOnP isBreak else (text.splitOnP isBreak).tail := by
  induction text generalizing atStart with
  | nil =>
      cases atStart with
      | false => simp [hasLineFrom]
      | true =>
          simp only [hasLineFrom, List.takeWhile_nil, Bool.true_and, Bool.or_false, beq_iff_eq,
            List.splitOnP_nil, if_true, List.mem_singleton]
          exact eq_comm
  | cons char rest ih =>
      rw [hasLineFrom, Bool.or_eq_true, ih, List.splitOnP_cons_eq_if_modifyHead]
      have hrest := splitOnP_eq_takeWhile isBreak rest
      cases hbreak : isBreak char with
      | true =>
          cases atStart with
          | false => simp
          | true => simp [hbreak]
      | false =>
          rw [hrest]
          cases atStart with
          | false => simp
          | true => simp [hbreak, @eq_comm _ _ line]

/-- The search finds a whole line, whichever characters end it. -/
theorem hasLine_iff {line text : Text} :
    hasLine line text = true ↔ line ∈ text.splitOnP isBreak :=
  hasLineFrom_iff true text

/-- A line of two texts with a newline in between is a line of one of them. -/
theorem hasLine_append_newline {line left right : Text} :
    hasLine line (left ++ '\n' :: right) = true ↔
      hasLine line left = true ∨ hasLine line right = true := by
  rw [hasLine_iff, hasLine_iff, hasLine_iff, List.splitOnP_append_cons _ _ rfl, List.mem_append]

section FileLines

def fileLines : Text → List Text
  | [] => []
  | char :: text =>
      if char = '\n' then [] :: fileLines text
      else
        match fileLines text with
        | [] => [[char]]
        | line :: lines => (char :: line) :: lines

theorem newline_not_mem_of_mem_fileLines {text line : Text} (hline : line ∈ fileLines text) :
    '\n' ∉ line := by
  induction text generalizing line with
  | nil => cases hline
  | cons char text ih =>
      rw [fileLines] at hline
      split at hline
      · rcases List.mem_cons.mp hline with rfl | hline
        · simp
        · exact ih hline
      · rename_i hchar
        cases hlines : fileLines text with
        | nil =>
            rw [hlines] at hline
            obtain rfl := List.mem_singleton.mp hline
            simpa using Ne.symm hchar
        | cons first rest =>
            rw [hlines] at hline ih
            rcases List.mem_cons.mp hline with rfl | hline
            · have hfirst := ih List.mem_cons_self
              simp [Ne.symm hchar, hfirst]
            · exact ih (List.mem_cons_of_mem _ hline)

/-- A text that ends with a newline is made of its lines. -/
theorem unlines_fileLines (text : Text) :
    unlines (fileLines (text ++ ['\n'])) = text ++ ['\n'] := by
  induction text with
  | nil => rfl
  | cons char text ih =>
      rw [List.cons_append, fileLines]
      split
      · rename_i hchar
        rw [unlines_cons, ih, hchar]
        rfl
      · cases hlines : fileLines (text ++ ['\n']) with
        | nil =>
            rw [hlines] at ih
            simp [unlines] at ih
        | cons first rest =>
            rw [hlines, unlines_cons] at ih
            dsimp only
            rw [unlines_cons, List.cons_append, ih]

/-- A file with one line has one line written to it. -/
theorem eq_singleton_of_fileLines_unlines {lines : List Text} {line : Text}
    (h : fileLines (unlines lines) = [line]) : lines = [line] ∧ '\n' ∉ line := by
  have hline : '\n' ∉ line := newline_not_mem_of_mem_fileLines (h ▸ List.mem_singleton_self line)
  have htext : unlines lines = line ++ ['\n'] := by
    rcases List.eq_nil_or_concat lines with rfl | ⟨init, last, rfl⟩
    · cases h
    · have hsplit : unlines (init.concat last) = (unlines init ++ last) ++ ['\n'] := by
        simp [unlines]
      have hunlines := unlines_fileLines (unlines init ++ last)
      rw [← hsplit, h] at hunlines
      rw [← hunlines]
      simp [unlines]
  refine ⟨?_, hline⟩
  cases lines with
  | nil => simp [unlines] at htext
  | cons first rest =>
      rw [unlines_cons] at htext
      have hcount : List.count '\n' first + (1 + List.count '\n' (unlines rest)) = 1 := by
        have heq := congrArg (List.count '\n') htext
        rw [List.count_append, List.count_append, List.count_eq_zero_of_not_mem hline] at heq
        simpa [Nat.add_comm] using heq
      have hfirst : '\n' ∉ first := List.count_eq_zero.mp (by omega)
      obtain ⟨rfl, hrest⟩ := append_cons_inj_left hfirst hline htext
      cases rest with
      | nil => rfl
      | cons second rest => simp [unlines] at hrest

end FileLines

end AdaptivePi.Foundation
