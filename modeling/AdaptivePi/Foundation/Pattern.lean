import AdaptivePi.Foundation.Lines
import Mathlib.Data.List.Infix

/-!
Regular expressions that are a sequence of parts: fixed texts, alternatives,
greedy repetitions of a character class, and ends of lines. A match is found by
backtracking, so it is the first one in the order of preference of the parts. A
pattern whose parts stay in a line is searched for line by line.
-/

namespace AdaptivePi.Foundation.Pattern

inductive Part where
  | literal (text : Text)
  /-- Alternatives, of which earlier ones are preferred. -/
  | oneOf (texts : List Text)
  /-- As many characters as possible, but at least `least`. -/
  | many (least : Nat) (accepts : Char → Bool)
  /-- Before a newline or at the end of the text. -/
  | lineEnd

/-- A part, and whether what it takes is returned. -/
structure Piece where
  part : Part
  isGroup : Bool

def plain (part : Part) : Piece := ⟨part, false⟩

def group (part : Part) : Piece := ⟨part, true⟩

def prefixes (accepts : Char → Bool) : Text → List (Text × Text)
  | [] => [([], [])]
  | char :: rest =>
      if accepts char then
        (prefixes accepts rest).map (fun way => (char :: way.1, way.2)) ++ [([], char :: rest)]
      else [([], char :: rest)]

def startsWith (text input : Text) : Option (Text × Text) :=
  if text <+: input then some (text, input.drop text.length) else none

/-- What a part can take from the front of a text, with what follows it, in
order of preference. -/
def Part.ways : Part → Text → List (Text × Text)
  | .literal text, input => (startsWith text input).toList
  | .oneOf texts, input => texts.filterMap (startsWith · input)
  | .many least accepts, input => (prefixes accepts input).filter (least ≤ ·.1.length)
  | .lineEnd, input => if input.head?.all (· == '\n') then [([], input)] else []

/-- What the groups take in the first match at the front of a text, which goes
to the end of the text if `full`. -/
def matchAt (full : Bool) : List Piece → Text → Option (List Text)
  | [], input => if full && !input.isEmpty then none else some []
  | piece :: pattern, input =>
      (piece.part.ways input).findSome? fun way =>
        (matchAt full pattern way.2).map fun groups =>
          if piece.isGroup then way.1 :: groups else groups

def fullmatch (pattern : List Piece) (input : Text) : Option (List Text) := matchAt true pattern input

/-- The first match that starts at a line, if `anchored`, or anywhere. -/
def searchFrom (anchored : Bool) (pattern : List Piece) (atStart : Bool) (input : Text) :
    Option (List Text) :=
  (if atStart || !anchored then matchAt false pattern input else none).or <|
    match input with
    | [] => none
    | char :: rest => searchFrom anchored pattern (char == '\n') rest

def search (anchored : Bool) (pattern : List Piece) (input : Text) : Option (List Text) :=
  searchFrom anchored pattern true input

section Ways

/-- What a part takes, given what follows it. -/
def Part.Takes : Part → Text → Text → Prop
  | .literal text, taken, _ => taken = text
  | .oneOf texts, taken, _ => taken ∈ texts
  | .many least accepts, taken, _ => least ≤ taken.length ∧ ∀ char ∈ taken, accepts char = true
  | .lineEnd, taken, rest => taken = [] ∧ rest.head?.all (· == '\n') = true

theorem mem_prefixes {accepts : Char → Bool} {input taken rest : Text} :
    (taken, rest) ∈ prefixes accepts input ↔
      input = taken ++ rest ∧ ∀ char ∈ taken, accepts char = true := by
  induction input generalizing taken with
  | nil =>
      simp only [prefixes, List.mem_singleton, Prod.mk.injEq]
      constructor
      · rintro ⟨rfl, rfl⟩
        simp
      · rintro ⟨heq, -⟩
        exact List.append_eq_nil_iff.mp heq.symm
  | cons char input ih =>
      cases taken with
      | nil =>
          have hnil : ([], rest) ∈ prefixes accepts (char :: input) ↔ rest = char :: input := by
            unfold prefixes
            split <;> simp
          rw [hnil]
          constructor
          · rintro rfl
            simp
          · rintro ⟨heq, -⟩
            exact heq.symm
      | cons first taken =>
          unfold prefixes
          split
          · rename_i haccepts
            simp only [List.mem_append, List.mem_map, Prod.exists, List.mem_singleton,
              Prod.mk.injEq, List.cons_append, List.cons.injEq]
            constructor
            · rintro (⟨taken', rest', hmem, ⟨rfl, rfl⟩, rfl⟩ | ⟨hnil, -⟩)
              · obtain ⟨rfl, htaken⟩ := ih.mp hmem
                exact ⟨⟨rfl, rfl⟩, by simpa [haccepts] using htaken⟩
              · cases hnil
            · rintro ⟨⟨rfl, rfl⟩, htaken⟩
              exact .inl ⟨taken, rest, ih.mpr ⟨rfl, fun c hc => htaken c (by simp [hc])⟩,
                ⟨rfl, rfl⟩, rfl⟩
          · rename_i haccepts
            simp only [List.mem_singleton, Prod.mk.injEq, reduceCtorEq, false_and, List.cons_append,
              List.cons.injEq, false_iff, not_and]
            rintro ⟨rfl, -⟩ htaken
            exact haccepts (htaken char (by simp))

theorem startsWith_eq_some {text input taken rest : Text} :
    startsWith text input = some (taken, rest) ↔ input = taken ++ rest ∧ taken = text := by
  unfold startsWith
  constructor
  · intro h
    split at h
    · rename_i hstart
      obtain ⟨rest', rfl⟩ := hstart
      simp only [List.drop_left, Option.some.injEq, Prod.mk.injEq] at h
      obtain ⟨rfl, rfl⟩ := h
      exact ⟨rfl, rfl⟩
    · cases h
  · rintro ⟨rfl, rfl⟩
    simp

/-- A part takes a front of the text. -/
theorem mem_ways {part : Part} {input taken rest : Text} :
    (taken, rest) ∈ part.ways input ↔ input = taken ++ rest ∧ part.Takes taken rest := by
  cases part with
  | literal text => simp [Part.ways, Part.Takes, startsWith_eq_some]
  | oneOf texts =>
      simp only [Part.ways, Part.Takes, List.mem_filterMap, startsWith_eq_some]
      constructor
      · rintro ⟨text, hmem, rfl, rfl⟩
        exact ⟨rfl, hmem⟩
      · rintro ⟨rfl, hmem⟩
        exact ⟨taken, hmem, rfl, rfl⟩
  | many least accepts =>
      simp only [Part.ways, Part.Takes, List.mem_filter, mem_prefixes, decide_eq_true_eq]
      tauto
  | lineEnd =>
      simp only [Part.ways, Part.Takes]
      split
      · rename_i hend
        simp only [List.mem_singleton, Prod.mk.injEq]
        constructor
        · rintro ⟨rfl, rfl⟩
          exact ⟨rfl, rfl, hend⟩
        · rintro ⟨rfl, rfl, -⟩
          exact ⟨rfl, rfl⟩
      · rename_i hend
        simp only [List.not_mem_nil, false_iff, not_and]
        rintro rfl rfl
        simpa using hend

end Ways

/-- The first part takes some of the text, and the other parts match what is left. -/
theorem isSome_matchAt_cons {full : Bool} {piece : Piece} {pattern : List Piece} {input : Text} :
    (matchAt full (piece :: pattern) input).isSome = true ↔
      ∃ taken rest, input = taken ++ rest ∧ piece.part.Takes taken rest ∧
        (matchAt full pattern rest).isSome = true := by
  simp only [matchAt, List.findSome?_isSome_iff, Option.isSome_map, Prod.exists, mem_ways]
  constructor
  · rintro ⟨taken, rest, ⟨heq, htakes⟩, hmatch⟩
    exact ⟨taken, rest, heq, htakes, hmatch⟩
  · rintro ⟨taken, rest, heq, htakes, hmatch⟩
    exact ⟨taken, rest, ⟨heq, htakes⟩, hmatch⟩

theorem exists_of_matchAt_cons {full : Bool} {piece : Piece} {pattern : List Piece} {input : Text}
    {groups : List Text} (h : matchAt full (piece :: pattern) input = some groups) :
    ∃ taken rest groups', input = taken ++ rest ∧ piece.part.Takes taken rest ∧
      matchAt full pattern rest = some groups' ∧
      groups = if piece.isGroup then taken :: groups' else groups' := by
  obtain ⟨⟨taken, rest⟩, hmem, hway⟩ := List.exists_of_findSome?_eq_some h
  obtain ⟨heq, htakes⟩ := mem_ways.mp hmem
  obtain ⟨groups', hgroups', rfl⟩ := Option.map_eq_some_iff.mp hway
  exact ⟨taken, rest, groups', heq, htakes, hgroups', rfl⟩

theorem exists_of_matchAt_group {full : Bool} {part : Part} {pattern : List Piece} {input : Text}
    {groups : List Text} (h : matchAt full (group part :: pattern) input = some groups) :
    ∃ taken rest groups', input = taken ++ rest ∧ part.Takes taken rest ∧
      matchAt full pattern rest = some groups' ∧ groups = taken :: groups' :=
  exists_of_matchAt_cons h

@[simp] theorem matchAt_literal (full : Bool) (text : Text) (pattern : List Piece) (rest : Text) :
    matchAt full (plain (.literal text) :: pattern) (text ++ rest) = matchAt full pattern rest := by
  simp [matchAt, plain, Part.ways, startsWith]

theorem exists_of_matchAt_literal {full : Bool} {text : Text} {pattern : List Piece} {input : Text}
    {groups : List Text} (h : matchAt full (plain (.literal text) :: pattern) input = some groups) :
    ∃ rest, input = text ++ rest ∧ matchAt full pattern rest = some groups := by
  obtain ⟨taken, rest, groups', rfl, rfl, hrest, rfl⟩ := exists_of_matchAt_cons h
  exact ⟨rest, rfl, hrest⟩

/-- Without groups there is nothing to return but that there is a match. -/
theorem matchAt_of_plain {full : Bool} {pattern : List Piece} {input : Text} {groups : List Text}
    (hplain : ∀ piece ∈ pattern, piece.isGroup = false)
    (h : matchAt full pattern input = some groups) : groups = [] := by
  induction pattern generalizing input groups with
  | nil =>
      unfold matchAt at h
      split at h
      · cases h
      · exact (Option.some.inj h).symm
  | cons piece pattern ih =>
      obtain ⟨way, -, hway⟩ := List.exists_of_findSome?_eq_some h
      obtain ⟨groups', hgroups', rfl⟩ := Option.map_eq_some_iff.mp hway
      rw [hplain piece (by simp)]
      exact ih (fun other hother => hplain other (by simp [hother])) hgroups'

section Greedy

theorem prefixes_pairwise (accepts : Char → Bool) (input : Text) :
    (prefixes accepts input).Pairwise fun way way' => way'.1.length < way.1.length := by
  induction input with
  | nil => simp [prefixes]
  | cons char rest ih =>
      unfold prefixes
      split
      · rw [List.pairwise_append]
        refine ⟨?_, List.pairwise_singleton _ _, ?_⟩
        · exact List.pairwise_map.mpr (ih.imp fun h => by simpa using h)
        · intro way hway way' hway'
          obtain ⟨shorter, -, rfl⟩ := List.mem_map.mp hway
          rw [List.mem_singleton.mp hway']
          simp
      · exact List.pairwise_singleton _ _

/-- A repetition takes the longest text that lets the rest of the pattern match. -/
theorem matchAt_many_eq_some {full isGroup : Bool} {least : Nat} {accepts : Char → Bool}
    {pattern : List Piece} {input : Text} {groups : List Text} :
    matchAt full (⟨.many least accepts, isGroup⟩ :: pattern) input = some groups ↔
      ∃ taken rest groups', input = taken ++ rest ∧
        (least ≤ taken.length ∧ ∀ char ∈ taken, accepts char = true) ∧
        matchAt full pattern rest = some groups' ∧
        groups = (if isGroup then taken :: groups' else groups') ∧
        ∀ taken' rest', input = taken' ++ rest' → taken.length < taken'.length →
          (∀ char ∈ taken', accepts char = true) → matchAt full pattern rest' = none := by
  have hsorted := (prefixes_pairwise accepts input).filter (least ≤ ·.1.length)
  have hmem : ∀ taken rest, (taken, rest) ∈ (Part.many least accepts).ways input ↔
      input = taken ++ rest ∧ least ≤ taken.length ∧ ∀ char ∈ taken, accepts char = true :=
    fun taken rest => mem_ways
  change List.findSome? _ ((Part.many least accepts).ways input) = _ ↔ _
  change List.Pairwise _ ((Part.many least accepts).ways input) at hsorted
  rw [List.findSome?_eq_some_iff]
  constructor
  · rintro ⟨before, ⟨taken, rest⟩, after, hways, hway, hbefore⟩
    rw [hways] at hmem hsorted
    obtain ⟨groups', hgroups', rfl⟩ := Option.map_eq_some_iff.mp hway
    obtain ⟨heq, htaken⟩ := (hmem taken rest).mp (by simp)
    refine ⟨taken, rest, groups', heq, htaken, hgroups', rfl, ?_⟩
    intro taken' rest' heq' hlonger htaken'
    have hway' := (hmem taken' rest').mpr ⟨heq', by omega, htaken'⟩
    rcases List.mem_append.mp hway' with hfirst | hlater
    · exact Option.map_eq_none_iff.mp (hbefore _ hfirst)
    · have hshorter := (List.pairwise_append.mp hsorted).2.1
      rcases List.mem_cons.mp hlater with hsame | hlater
      · obtain ⟨rfl, rfl⟩ := Prod.mk.inj hsame
        omega
      · have hless := (List.pairwise_cons.mp hshorter).1 _ hlater
        simp only at hless
        omega
  · rintro ⟨taken, rest, groups', heq, htaken, hgroups', rfl, hlonger⟩
    obtain ⟨before, after, hways⟩ := List.append_of_mem ((hmem taken rest).mpr ⟨heq, htaken⟩)
    refine ⟨before, (taken, rest), after, hways, by simp [hgroups'], ?_⟩
    rintro ⟨taken', rest'⟩ hbefore
    obtain ⟨heq', -, htaken'⟩ := (hmem taken' rest').mp (by simp [hways, hbefore])
    rw [hways] at hsorted
    have hless := (List.pairwise_append.mp hsorted).2.2 _ hbefore (taken, rest) (by simp)
    simp [hlonger taken' rest' heq' hless htaken']

/-- A repetition that can neither take more nor leave something. -/
theorem matchAt_many_append {full isGroup : Bool} {least : Nat} {accepts : Char → Bool}
    {pattern : List Piece} {front rest : Text} (hleast : least ≤ front.length)
    (hfront : ∀ char ∈ front, accepts char = true)
    (hrest : ∀ char ∈ rest.head?, accepts char = false)
    (hfewer : ∀ front' char back, front = front' ++ char :: back → least ≤ front'.length →
      matchAt full pattern (char :: (back ++ rest)) = none) :
    matchAt full (⟨.many least accepts, isGroup⟩ :: pattern) (front ++ rest) =
      (matchAt full pattern rest).map fun groups =>
        if isGroup then front :: groups else groups := by
  have hnotLonger : ∀ more rest', rest = more ++ rest' →
      (∀ char ∈ front ++ more, accepts char = true) → more = [] := by
    rintro (_ | ⟨char, more⟩) rest' rfl haccepts
    · rfl
    · have hchar := hrest char rfl
      rw [haccepts char (by simp)] at hchar
      cases hchar
  apply Option.ext
  intro groups
  rw [matchAt_many_eq_some, Option.map_eq_some_iff]
  constructor
  · rintro ⟨taken, rest', groups', heq, ⟨hlength, htaken⟩, hgroups', rfl, -⟩
    rcases List.append_eq_append_iff.mp heq with ⟨more, rfl, hmore⟩ | ⟨left, hleft, hrest'⟩
    · obtain rfl := hnotLonger more rest' hmore htaken
      rw [List.nil_append] at hmore
      exact ⟨groups', by rw [hmore, hgroups'], by rw [List.append_nil]⟩
    · cases left with
      | nil =>
          rw [List.append_nil] at hleft
          rw [List.nil_append] at hrest'
          exact ⟨groups', by rw [← hrest', hgroups'], by rw [hleft]⟩
      | cons char back =>
          have hnone := hfewer taken char back hleft hlength
          rw [← List.cons_append, ← hrest', hgroups'] at hnone
          cases hnone
  · rintro ⟨groups', hgroups', rfl⟩
    refine ⟨front, rest, groups', rfl, ⟨hleast, hfront⟩, hgroups', rfl, ?_⟩
    intro taken' rest' heq hlonger htaken'
    rcases List.append_eq_append_iff.mp heq with ⟨more, rfl, hmore⟩ | ⟨left, hleft, -⟩
    · obtain rfl := hnotLonger more rest' hmore htaken'
      simp at hlonger
    · have hlength := congrArg List.length hleft
      rw [List.length_append] at hlength
      omega

/-- The only alternative that the text starts with. -/
theorem matchAt_oneOf {full : Bool} {texts : List Text} {pattern : List Piece} {text rest : Text}
    (hmem : text ∈ texts) (hother : ∀ other ∈ texts, other <+: text ++ rest → other = text) :
    matchAt full (group (.oneOf texts) :: pattern) (text ++ rest) =
      (matchAt full pattern rest).map (text :: ·) := by
  have hways : ∀ way ∈ (Part.oneOf texts).ways (text ++ rest), way = (text, rest) := by
    rintro ⟨taken, left⟩ hway
    obtain ⟨heq, htaken⟩ := mem_ways.mp hway
    obtain rfl := hother taken htaken ⟨left, heq.symm⟩
    rw [List.append_cancel_left heq]
  have hway : (text, rest) ∈ (Part.oneOf texts).ways (text ++ rest) := mem_ways.mpr ⟨rfl, hmem⟩
  change ((Part.oneOf texts).ways (text ++ rest)).findSome? _ = _
  apply Option.ext
  intro groups
  constructor
  · intro h
    obtain ⟨way, hmem, hway⟩ := List.exists_of_findSome?_eq_some h
    rw [hways way hmem] at hway
    exact hway
  · intro h
    obtain ⟨first, others, hcons⟩ := List.exists_cons_of_ne_nil (List.ne_nil_of_mem hway)
    obtain rfl := hways first (by simp [hcons])
    have hfirst : (matchAt full pattern rest).map (fun groups =>
        if (group (.oneOf texts)).isGroup then text :: groups else groups) = some groups := h
    rw [hcons, List.findSome?_cons, hfirst]

/-- The groups are taken from the text. -/
theorem mem_of_matchAt {full : Bool} {pattern : List Piece} {input : Text} {groups : List Text}
    (h : matchAt full pattern input = some groups) :
    ∀ taken ∈ groups, ∀ char ∈ taken, char ∈ input := by
  induction pattern generalizing input groups with
  | nil =>
      unfold matchAt at h
      split at h
      · cases h
      · simp [← Option.some.inj h]
  | cons piece pattern ih =>
      obtain ⟨taken, rest, groups', rfl, -, hrest, rfl⟩ := exists_of_matchAt_cons h
      have hgroups : ∀ taken' ∈ groups', ∀ char ∈ taken', char ∈ taken ++ rest :=
        fun taken' htaken' char hchar => List.mem_append_right _ (ih hrest taken' htaken' char hchar)
      split
      · intro taken' htaken' char hchar
        rcases List.mem_cons.mp htaken' with rfl | htaken'
        · exact List.mem_append_left _ hchar
        · exact hgroups taken' htaken' char hchar
      · exact hgroups

end Greedy

section Lines

/-- A match does not go on after the end of a line. -/
def LineLocal (pattern : List Piece) : Prop :=
  ∀ line rest, matchAt false pattern (line ++ '\n' :: rest) = matchAt false pattern line

def Part.StaysInLine : Part → Prop
  | .literal text => '\n' ∉ text
  | .oneOf texts => ∀ text ∈ texts, '\n' ∉ text
  | .many _ accepts => accepts '\n' = false
  | .lineEnd => True

private theorem startsWith_append_newline {text : Text} (htext : '\n' ∉ text) (line rest : Text) :
    startsWith text (line ++ '\n' :: rest) =
      (startsWith text line).map fun way => (way.1, way.2 ++ '\n' :: rest) := by
  apply Option.ext
  rintro ⟨taken, left⟩
  simp only [startsWith_eq_some, Option.map_eq_some_iff, Prod.exists, Prod.mk.injEq]
  constructor
  · rintro ⟨heq, rfl⟩
    rcases List.append_eq_append_iff.mp heq with ⟨middle, rfl, hleft⟩ | ⟨middle, hline, rfl⟩
    · cases middle with
      | nil => exact ⟨line, [], ⟨by simp, by simp⟩, by simp, by simpa using hleft⟩
      | cons first middle =>
          obtain ⟨rfl, -⟩ := List.cons.inj hleft
          exact absurd (by simp) htext
    · exact ⟨taken, middle, ⟨hline, rfl⟩, rfl, rfl⟩
  · rintro ⟨taken', rest', ⟨rfl, rfl⟩, rfl, rfl⟩
    exact ⟨by simp, rfl⟩

private theorem prefixes_append_newline {accepts : Char → Bool} (haccepts : accepts '\n' = false)
    (line rest : Text) :
    prefixes accepts (line ++ '\n' :: rest) =
      (prefixes accepts line).map fun way => (way.1, way.2 ++ '\n' :: rest) := by
  induction line with
  | nil => simp [prefixes, haccepts]
  | cons char line ih =>
      simp only [List.cons_append, prefixes, ih]
      split <;> simp

/-- A part that stays in its line does not see the lines behind it. -/
theorem ways_append_newline {part : Part} (hpart : part.StaysInLine) (line rest : Text) :
    part.ways (line ++ '\n' :: rest) =
      (part.ways line).map fun way => (way.1, way.2 ++ '\n' :: rest) := by
  cases part with
  | literal text =>
      simp only [Part.ways, startsWith_append_newline hpart]
      cases startsWith text line <;> rfl
  | oneOf texts =>
      simp only [Part.ways, List.map_filterMap]
      exact List.filterMap_congr fun text htext =>
        startsWith_append_newline (hpart text htext) line rest
  | many least accepts =>
      simp only [Part.ways, prefixes_append_newline hpart, List.filter_map]
      rfl
  | lineEnd => cases line <;> simp [Part.ways, apply_ite]

theorem LineLocal.cons {piece : Piece} {pattern : List Piece} (hpart : piece.part.StaysInLine)
    (hpattern : LineLocal pattern) : LineLocal (piece :: pattern) := by
  intro line rest
  have hrest : ∀ way : Text × Text,
      matchAt false pattern (way.2 ++ '\n' :: rest) = matchAt false pattern way.2 :=
    fun way => hpattern way.2 rest
  simp only [matchAt, ways_append_newline hpart, List.findSome?_map, Function.comp_def, hrest]

def blanksToLineEnd (accepts : Char → Bool) : List Piece :=
  [plain (.many 0 accepts), plain .lineEnd]

theorem isSome_matchAt_blanks {accepts : Char → Bool} {input : Text} :
    (matchAt false (blanksToLineEnd accepts) input).isSome = true ↔
      ∃ blanks rest, input = blanks ++ rest ∧ (∀ char ∈ blanks, accepts char = true) ∧
        rest.head?.all (· == '\n') = true := by
  simp only [blanksToLineEnd, isSome_matchAt_cons, plain, Part.Takes]
  constructor
  · rintro ⟨blanks, rest, rfl, ⟨-, hblanks⟩, -, rest', rfl, ⟨rfl, hend⟩, -⟩
    exact ⟨blanks, rest', by simp, hblanks, hend⟩
  · rintro ⟨blanks, rest, rfl, hblanks, hend⟩
    exact ⟨blanks, rest, rfl, ⟨Nat.zero_le _, hblanks⟩, [], rest, by simp, ⟨rfl, hend⟩, rfl⟩

/-- Blanks at the end of a line may go on in the next lines, but need not. -/
theorem lineLocal_blanks (accepts : Char → Bool) : LineLocal (blanksToLineEnd accepts) := by
  intro line rest
  have hplain : ∀ piece ∈ blanksToLineEnd accepts, piece.isGroup = false := by
    simp [blanksToLineEnd, plain]
  have hiff : (matchAt false (blanksToLineEnd accepts) (line ++ '\n' :: rest)).isSome = true ↔
      (matchAt false (blanksToLineEnd accepts) line).isSome = true := by
    rw [isSome_matchAt_blanks, isSome_matchAt_blanks]
    constructor
    · rintro ⟨blanks, left, heq, hblanks, hend⟩
      rcases List.append_eq_append_iff.mp heq with ⟨middle, rfl, -⟩ | ⟨middle, rfl, rfl⟩
      · exact ⟨line, [], by simp, fun char hchar => hblanks char (by simp [hchar]), rfl⟩
      · cases middle with
        | nil => exact ⟨blanks, [], rfl, hblanks, rfl⟩
        | cons char middle => exact ⟨blanks, char :: middle, rfl, hblanks, by simpa using hend⟩
    · rintro ⟨blanks, left, rfl, hblanks, hend⟩
      refine ⟨blanks, left ++ '\n' :: rest, by simp, hblanks, ?_⟩
      cases left with
      | nil => rfl
      | cons char left => simpa using hend
  apply Option.ext
  intro groups
  constructor
  · intro h
    obtain ⟨groups', h'⟩ := Option.isSome_iff_exists.mp (hiff.mp (by simp [h]))
    rw [matchAt_of_plain hplain h, h', matchAt_of_plain hplain h']
  · intro h
    obtain ⟨groups', h'⟩ := Option.isSome_iff_exists.mp (hiff.mpr (by simp [h]))
    rw [matchAt_of_plain hplain h, h', matchAt_of_plain hplain h']

/-- A match that stays in its line is one of the line. -/
private theorem matchAt_firstLine {pattern : List Piece} (hlocal : LineLocal pattern)
    (input : Text) :
    matchAt false pattern (input.takeWhile (!(· == '\n') ·)) = matchAt false pattern input := by
  have hsplit := List.takeWhile_append_dropWhile (p := (!(· == '\n') ·)) (l := input)
  conv_rhs => rw [← hsplit]
  cases hrest : input.dropWhile (!(· == '\n') ·) with
  | nil => simp
  | cons char rest =>
      have hnewline := @List.head_dropWhile_not _ (!(· == '\n') ·) input (by simp [hrest])
      have hchar : char = '\n' := by simpa [hrest] using hnewline
      rw [hchar, hlocal]

/-- A search is one through the lines. -/
theorem searchFrom_eq_findSome? {pattern : List Piece} (hlocal : LineLocal pattern)
    (atStart : Bool) (input : Text) :
    searchFrom true pattern atStart input =
      (if atStart then input.splitOnP (· == '\n') else (input.splitOnP (· == '\n')).tail).findSome?
        (matchAt false pattern) := by
  induction input generalizing atStart with
  | nil => cases atStart <;> simp [searchFrom]
  | cons char rest ih =>
      have hfirst := matchAt_firstLine hlocal (char :: rest)
      have hlines := splitOnP_eq_takeWhile (· == '\n') (char :: rest)
      have htail : (if char == '\n' then rest.splitOnP (· == '\n')
          else (rest.splitOnP (· == '\n')).tail) = ((char :: rest).splitOnP (· == '\n')).tail := by
        rw [List.splitOnP_cons_eq_if_modifyHead]
        split
        · rfl
        · simp
      rw [searchFrom, ih, htail]
      cases atStart with
      | false => simp
      | true =>
          rw [if_pos rfl, hlines, List.findSome?_cons, hfirst]
          simp only [List.tail_cons, Bool.true_or, if_true]
          cases matchAt false pattern (char :: rest) <;> rfl

/-- A local pattern is searched for in one line after the other. -/
theorem search_eq_findSome? {pattern : List Piece} (hlocal : LineLocal pattern) (input : Text) :
    search true pattern input =
      (input.splitOnP (· == '\n')).findSome? (matchAt false pattern) :=
  searchFrom_eq_findSome? hlocal true input

/-- A line with this text, and blanks after it. -/
def lineOf (accepts : Char → Bool) (text : Text) : List Piece :=
  plain (.literal text) :: blanksToLineEnd accepts

theorem isSome_search_lineOf {accepts : Char → Bool} {text input : Text} (htext : '\n' ∉ text) :
    (search true (lineOf accepts text) input).isSome = true ↔
      ∃ blanks, (∀ char ∈ blanks, accepts char = true) ∧
        text ++ blanks ∈ input.splitOnP (· == '\n') := by
  have hlocal : LineLocal (lineOf accepts text) :=
    @LineLocal.cons (plain (.literal text)) _ htext (lineLocal_blanks accepts)
  rw [search_eq_findSome? hlocal, List.findSome?_isSome_iff]
  constructor
  · rintro ⟨line, hline, hmatch⟩
    obtain ⟨taken, rest, rfl, htaken, hrest⟩ := isSome_matchAt_cons.mp hmatch
    obtain ⟨blanks, after, rfl, hblanks, hend⟩ := isSome_matchAt_blanks.mp hrest
    obtain rfl : taken = text := htaken
    have hafter : after = [] := by
      cases after with
      | nil => rfl
      | cons char after =>
          have hchar := eq_false_of_mem_splitOnP hline char (by simp)
          simp_all
    rw [hafter, List.append_nil] at hline
    exact ⟨blanks, hblanks, hline⟩
  · rintro ⟨blanks, hblanks, hline⟩
    exact ⟨_, hline, isSome_matchAt_cons.mpr ⟨text, blanks, rfl, rfl,
      isSome_matchAt_blanks.mpr ⟨blanks, [], by simp, hblanks, rfl⟩⟩⟩

end Lines

end AdaptivePi.Foundation.Pattern
