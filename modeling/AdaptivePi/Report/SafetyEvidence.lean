import AdaptivePi.Report.PropertyEvidence

namespace AdaptivePi.Report

open Foundation Foundation.Pattern Foundation.PythonText

variable (unicode : Unicode)

section Summary

def IsNumber (text : Text) : Prop := text ≠ [] ∧ ∀ char ∈ text, unicode.isDecimal char = true

/-- The line `** f of t properties failed, p passed`, and white space. -/
def IsSummary (line failed total passed : Text) : Prop :=
  ∃ blanks, line = "** ".toList ++ (failed ++ (" of ".toList ++ (total ++
      (" properties failed, ".toList ++ (passed ++ (" passed".toList ++ blanks)))))) ∧
    IsNumber unicode failed ∧ IsNumber unicode total ∧ IsNumber unicode passed ∧
    ∀ char ∈ blanks, isSpace char = true

/-- The first line of a log that is a summary. -/
def FirstSummary (log failed total passed : Text) : Prop :=
  ∃ before line after, log.splitOnP (· == '\n') = before ++ line :: after ∧
    IsSummary unicode line failed total passed ∧
    ∀ other ∈ before, ∀ failed' total' passed', ¬IsSummary unicode other failed' total' passed'

variable {unicode}

private theorem takes_number {text rest : Text} :
    (Part.many 1 unicode.isDecimal).Takes text rest ↔ IsNumber unicode text := by
  simp [Part.Takes, IsNumber, Nat.one_le_iff_ne_zero]

private theorem space_not_mem {text : Text} (htext : IsNumber unicode text) : ' ' ∉ text := by
  intro hmem
  have hdecimal := htext.2 ' ' hmem
  rw [unicode.isDecimal_ascii (by decide)] at hdecimal
  exact absurd hdecimal (by decide)

theorem IsSummary.unique {line failed total passed failed' total' passed' : Text}
    (h : IsSummary unicode line failed total passed)
    (h' : IsSummary unicode line failed' total' passed') :
    failed = failed' ∧ total = total' ∧ passed = passed' := by
  obtain ⟨blanks, hline, hfailed, htotal, hpassed, -⟩ := h
  obtain ⟨blanks', hline', hfailed', htotal', hpassed', -⟩ := h'
  have hafter := List.append_cancel_left (hline.symm.trans hline')
  obtain ⟨rfl, hof⟩ := append_cons_inj_left (space_not_mem hfailed) (space_not_mem hfailed') hafter
  have htotals := @List.append_cancel_left _ "of ".toList _ _ hof
  obtain ⟨rfl, hproperties⟩ :=
    append_cons_inj_left (space_not_mem htotal) (space_not_mem htotal') htotals
  have hpasses := @List.append_cancel_left _ "properties failed, ".toList _ _ hproperties
  obtain ⟨rfl, -⟩ := append_cons_inj_left (space_not_mem hpassed) (space_not_mem hpassed') hpasses
  exact ⟨rfl, rfl, rfl⟩

theorem matchAt_summaryPattern {line : Text} (hline : '\n' ∉ line) {groups : List Text} :
    matchAt false (summaryPattern unicode) line = some groups ↔
      ∃ failed total passed, groups = [failed, total, passed] ∧
        IsSummary unicode line failed total passed := by
  have hsound : ∀ groups', matchAt false (summaryPattern unicode) line = some groups' →
      ∃ failed total passed, groups' = [failed, total, passed] ∧
        IsSummary unicode line failed total passed := by
    intro groups' h
    obtain ⟨_, rfl, hstars⟩ := exists_of_matchAt_literal h
    obtain ⟨failed, _, _, rfl, hfailed, hfirst, rfl⟩ := exists_of_matchAt_group hstars
    obtain ⟨_, rfl, hof⟩ := exists_of_matchAt_literal hfirst
    obtain ⟨total, _, _, rfl, htotal, hsecond, rfl⟩ := exists_of_matchAt_group hof
    obtain ⟨_, rfl, hproperties⟩ := exists_of_matchAt_literal hsecond
    obtain ⟨passed, _, _, rfl, hpassed, hthird, rfl⟩ := exists_of_matchAt_group hproperties
    obtain ⟨_, rfl, hrest⟩ := exists_of_matchAt_literal hthird
    obtain rfl := matchAt_of_plain (by simp [blanksToLineEnd, plain]) hrest
    obtain ⟨blanks, after, rfl, hblanks, hend⟩ :=
      isSome_matchAt_blanks.mp (Option.isSome_of_mem hrest)
    refine ⟨failed, total, passed, rfl, blanks, ?_, takes_number.mp hfailed,
      takes_number.mp htotal, takes_number.mp hpassed, hblanks⟩
    cases after with
    | nil => simp
    | cons char after =>
        have hchar : char = '\n' := by simpa using hend
        exact absurd (by simp [hchar]) hline
  constructor
  · exact hsound groups
  · rintro ⟨failed, total, passed, rfl, hsummary⟩
    have hmatch : (matchAt false (summaryPattern unicode) line).isSome = true := by
      obtain ⟨blanks, rfl, hfailed, htotal, hpassed, hblanks⟩ := hsummary
      unfold summaryPattern
      rw [matchAt_literal, isSome_matchAt_cons]
      refine ⟨failed, _, rfl, takes_number.mpr hfailed, ?_⟩
      rw [matchAt_literal, isSome_matchAt_cons]
      refine ⟨total, _, rfl, takes_number.mpr htotal, ?_⟩
      rw [matchAt_literal, isSome_matchAt_cons]
      refine ⟨passed, _, rfl, takes_number.mpr hpassed, ?_⟩
      unfold lineOf
      rw [matchAt_literal, isSome_matchAt_blanks]
      exact ⟨blanks, [], by simp, hblanks, rfl⟩
    obtain ⟨groups, hgroups⟩ := Option.isSome_iff_exists.mp hmatch
    obtain ⟨failed', total', passed', rfl, hsummary'⟩ := hsound groups hgroups
    obtain ⟨rfl, rfl, rfl⟩ := hsummary.unique hsummary'
    exact hgroups

private theorem lineLocal_summaryPattern : LineLocal (summaryPattern unicode) := by
  have hliteral : ∀ {text : Text} {pattern : List Piece}, '\n' ∉ text → LineLocal pattern →
      LineLocal (plain (.literal text) :: pattern) :=
    fun htext hpattern => LineLocal.cons htext hpattern
  have hnumber : ∀ {pattern : List Piece}, LineLocal pattern →
      LineLocal (group (.many 1 unicode.isDecimal) :: pattern) :=
    fun hpattern => LineLocal.cons (unicode.isDecimal_ascii (by decide)) hpattern
  exact hliteral (by decide) <| hnumber <| hliteral (by decide) <| hnumber <|
    hliteral (by decide) <| hnumber <| hliteral (by decide) <| lineLocal_blanks isSpace

/-- The summary that is found is the first one. -/
theorem summary_eq_some_iff {log : Text} {groups : List Text} :
    summary unicode log = some groups ↔
      ∃ failed total passed, groups = [failed, total, passed] ∧
        FirstSummary unicode log failed total passed := by
  have hnewline : ∀ line ∈ log.splitOnP (· == '\n'), '\n' ∉ line := by
    intro line hline hmem
    exact absurd (eq_false_of_mem_splitOnP hline '\n' hmem) (by decide)
  unfold summary
  rw [search_eq_findSome? lineLocal_summaryPattern, List.findSome?_eq_some_iff]
  constructor
  · rintro ⟨before, line, after, hlines, hmatch, hbefore⟩
    rw [hlines] at hnewline
    obtain ⟨failed, total, passed, hgroups, hsummary⟩ :=
      (matchAt_summaryPattern (hnewline line (by simp))).mp hmatch
    refine ⟨failed, total, passed, hgroups, before, line, after, hlines, hsummary, ?_⟩
    intro other hother failed' total' passed' hsummary'
    have hnone := hbefore other hother
    rw [(matchAt_summaryPattern (hnewline other (by simp [hother]))).mpr
      ⟨failed', total', passed', rfl, hsummary'⟩] at hnone
    cases hnone
  · rintro ⟨failed, total, passed, hgroups, before, line, after, hlines, hsummary, hbefore⟩
    rw [hlines] at hnewline
    refine ⟨before, line, after, hlines, ?_, ?_⟩
    · exact (matchAt_summaryPattern (hnewline line (by simp))).mpr
        ⟨failed, total, passed, hgroups, hsummary⟩
    · intro other hother
      cases hmatch : matchAt false (summaryPattern unicode) other with
      | none => rfl
      | some groups' =>
          obtain ⟨failed', total', passed', -, hsummary'⟩ :=
            (matchAt_summaryPattern (hnewline other (by simp [hother]))).mp hmatch
          exact absurd hsummary' (hbefore other hother failed' total' passed')

end Summary

section Inventory

/-- The first summary of a log counts the properties and their results. -/
def Consistent (log : Text) (properties : List Property) : Prop :=
  ∃ failed total passed, FirstSummary unicode log failed total passed ∧
    unicode.value total = properties.length ∧
    unicode.value failed + unicode.value passed = unicode.value total ∧
    properties.countP (·.status = .covered) = unicode.value passed ∧
    properties.countP (·.status = .uncovered) = unicode.value failed

/-- The result lines after the first location, which are read. -/
def resultRows (located : Bool) : List Text → List ResultRow
  | [] => []
  | line :: lines =>
      if (location line).isSome then resultRows true lines
      else if located then (resultRow unicode line).toList ++ resultRows located lines
      else resultRows located lines

/-- `int` reads all numbers in the results and in the summary. -/
def ReadableNumbers (log : Text) : Prop :=
  (∀ row ∈ resultRows unicode false (splitlines log), row.number.length ≤ maxDigits) ∧
    ∀ failed total passed, FirstSummary unicode log failed total passed →
      failed.length ≤ maxDigits ∧ total.length ≤ maxDigits ∧ passed.length ≤ maxDigits

variable {unicode}

theorem isSome_foldlM_parseLine (lines : List Text) (loop : PropertyLoop) :
    (lines.foldlM (parseLine unicode) loop).isSome = true ↔
      ∀ row ∈ resultRows unicode loop.filename.isSome lines, row.number.length ≤ maxDigits := by
  induction lines generalizing loop with
  | nil => simp [resultRows]
  | cons line lines ih =>
      rw [List.foldlM_cons, resultRows]
      cases hlocation : location line with
      | some place => simp [parseLine, hlocation, ih]
      | none =>
          cases hfilename : loop.filename with
          | none => simp [parseLine, hlocation, hfilename, ih]
          | some filename =>
              cases hrow : resultRow unicode line with
              | none => simp [parseLine, hlocation, hfilename, hrow, ih]
              | some row =>
                  cases hint : unicode.int row.number with
                  | none =>
                      have hlength : ¬row.number.length ≤ maxDigits := by
                        rw [← unicode.isSome_int, hint]
                        simp
                      simp [parseLine, hlocation, hfilename, hrow, ResultRow.property, hint, hlength]
                  | some n =>
                      have hlength := (unicode.int_eq_some hint).2
                      simp [parseLine, hlocation, hfilename, hrow, ResultRow.property, hint, hlength,
                        ih]

/-- The log is read exactly if no number is too long. -/
theorem isSome_parseProperties (log : Text) :
    (parseProperties unicode log).isSome = true ↔
      ∀ row ∈ resultRows unicode false (splitlines log), row.number.length ≤ maxDigits := by
  unfold parseProperties
  rw [Option.isSome_map]
  exact isSome_foldlM_parseLine _ _

private theorem complete_of_firstSummary {log failed total passed : Text}
    (hsummary : FirstSummary unicode log failed total passed) (properties : List Property) :
    complete unicode log properties =
      (do
        let failed ← unicode.int failed
        let total ← unicode.int total
        let passed ← unicode.int passed
        pure (agrees properties [failed, total, passed])) := by
  unfold complete
  rw [summary_eq_some_iff.mpr ⟨failed, total, passed, rfl, hsummary⟩]
  simp only [List.mapM_cons, List.mapM_nil]
  cases unicode.int failed <;> cases unicode.int total <;> cases unicode.int passed <;> rfl

private theorem complete_of_no_summary {log : Text}
    (hnone : ∀ failed total passed, ¬FirstSummary unicode log failed total passed)
    (properties : List Property) : complete unicode log properties = some false := by
  unfold complete
  cases hsummary : summary unicode log with
  | none => rfl
  | some groups =>
      obtain ⟨failed, total, passed, -, hfirst⟩ := summary_eq_some_iff.mp hsummary
      exact absurd hfirst (hnone failed total passed)

private theorem FirstSummary.unique {log failed total passed failed' total' passed' : Text}
    (h : FirstSummary unicode log failed total passed)
    (h' : FirstSummary unicode log failed' total' passed') :
    failed = failed' ∧ total = total' ∧ passed = passed' := by
  have hgroups := (summary_eq_some_iff.mpr ⟨failed, total, passed, rfl, h⟩).symm.trans
    (summary_eq_some_iff.mpr ⟨failed', total', passed', rfl, h'⟩)
  simpa using hgroups

theorem isSome_complete (log : Text) (properties : List Property) :
    (complete unicode log properties).isSome = true ↔
      ∀ failed total passed, FirstSummary unicode log failed total passed →
        failed.length ≤ maxDigits ∧ total.length ≤ maxDigits ∧ passed.length ≤ maxDigits := by
  by_cases hexists : ∃ failed total passed, FirstSummary unicode log failed total passed
  · obtain ⟨failed, total, passed, hsummary⟩ := hexists
    have hall : (∀ failed total passed, FirstSummary unicode log failed total passed →
        failed.length ≤ maxDigits ∧ total.length ≤ maxDigits ∧ passed.length ≤ maxDigits) ↔
        failed.length ≤ maxDigits ∧ total.length ≤ maxDigits ∧ passed.length ≤ maxDigits := by
      constructor
      · intro h
        exact h failed total passed hsummary
      · intro h failed' total' passed' hsummary'
        obtain ⟨rfl, rfl, rfl⟩ := hsummary.unique hsummary'
        exact h
    rw [complete_of_firstSummary hsummary, hall, ← unicode.isSome_int, ← unicode.isSome_int,
      ← unicode.isSome_int]
    cases unicode.int failed <;> cases unicode.int total <;> cases unicode.int passed <;> simp
  · have hnone : ∀ failed total passed, ¬FirstSummary unicode log failed total passed :=
      fun failed total passed h => hexists ⟨failed, total, passed, h⟩
    rw [complete_of_no_summary hnone]
    exact iff_of_true rfl fun failed total passed h => absurd h (hnone failed total passed)

/-- The evidence is complete exactly if the summary counts it. -/
theorem complete_eq_some {log : Text} {properties : List Property} {value : Bool}
    (h : complete unicode log properties = some value) :
    value = true ↔ Consistent unicode log properties := by
  by_cases hexists : ∃ failed total passed, FirstSummary unicode log failed total passed
  · obtain ⟨failed, total, passed, hsummary⟩ := hexists
    rw [complete_of_firstSummary hsummary] at h
    obtain ⟨f, hf, h⟩ := Option.bind_eq_some_iff.mp h
    obtain ⟨t, ht, h⟩ := Option.bind_eq_some_iff.mp h
    obtain ⟨p, hp, h⟩ := Option.bind_eq_some_iff.mp h
    have hvalue := Option.some.inj h
    obtain ⟨rfl, -⟩ := unicode.int_eq_some hf
    obtain ⟨rfl, -⟩ := unicode.int_eq_some ht
    obtain ⟨rfl, -⟩ := unicode.int_eq_some hp
    rw [← hvalue]
    simp only [agrees, Bool.and_eq_true, beq_iff_eq]
    constructor
    · rintro ⟨⟨⟨htotal, hsum⟩, hpassed⟩, hfailed⟩
      exact ⟨failed, total, passed, hsummary, htotal, hsum, hpassed, hfailed⟩
    · rintro ⟨failed', total', passed', hsummary', htotal, hsum, hpassed, hfailed⟩
      obtain ⟨rfl, rfl, rfl⟩ := hsummary.unique hsummary'
      exact ⟨⟨⟨htotal, hsum⟩, hpassed⟩, hfailed⟩
  · rw [complete_of_no_summary fun failed total passed h => hexists ⟨failed, total, passed, h⟩] at h
    obtain rfl := Option.some.inj h
    simp only [Bool.false_eq_true, false_iff]
    rintro ⟨failed, total, passed, hsummary, -⟩
    exact hexists ⟨failed, total, passed, hsummary⟩

/-- There is evidence exactly if `int` reads all numbers. -/
theorem isSome_propertyEvidence (log : Text) (proofStatus : ProofStatus) :
    (propertyEvidence unicode log proofStatus).isSome = true ↔ ReadableNumbers unicode log := by
  unfold propertyEvidence ReadableNumbers
  rw [← isSome_parseProperties]
  cases hparse : parseProperties unicode log with
  | none => simp
  | some properties =>
      rw [← isSome_complete log properties]
      simp only [Option.bind_eq_bind, Option.bind_some]
      cases complete unicode log properties <;> simp

end Inventory

section Safety

variable {unicode}

private theorem countP_status (properties : List Property) :
    properties.countP (·.status = .covered) + properties.countP (·.status = .uncovered) +
      properties.countP (·.status = .unknown) = properties.length := by
  induction properties with
  | nil => rfl
  | cons claim claims ih =>
      simp only [List.countP_cons, List.length_cons]
      cases claim.status <;> simp <;> omega

theorem Consistent.no_unknown {log : Text} {properties : List Property}
    (h : Consistent unicode log properties) : ∀ claim ∈ properties, claim.status ≠ .unknown := by
  obtain ⟨failed, total, passed, -, htotal, hsum, hpassed, hfailed⟩ := h
  have hcount := countP_status properties
  have hunknown : properties.countP (·.status = .unknown) = 0 := by omega
  simpa [List.countP_eq_zero] using hunknown

theorem Property.shown_of_uncovered {complete : Bool} {proofStatus : ProofStatus}
    {claim : Property} (hclaim : claim.status = .uncovered) :
    claim.shown complete proofStatus = claim := by
  unfold Property.shown
  rw [if_neg]
  simp [hclaim]

theorem Property.of_shown_covered {complete : Bool} {proofStatus : ProofStatus} {claim : Property}
    (h : (claim.shown complete proofStatus).status = .covered) :
    complete = true ∧ proofStatus = .passed := by
  unfold Property.shown at h
  split at h
  · cases h
  · rename_i hkept
    simpa [h] using hkept

/-- The evidence is there and does not overstate what the log and the status
of the proof say. -/
def SafeEvidence (unicode : Unicode) (log : Text) (proofStatus : ProofStatus) : Prop :=
  ∃ parsed shown message, parseProperties unicode log = some parsed ∧
    propertyEvidence unicode log proofStatus = some (shown, message) ∧
    ((∃ claim ∈ shown, claim.status = .covered) → proofStatus = .passed ∧
      Consistent unicode log parsed ∧ ∀ claim ∈ parsed, claim.status ≠ .unknown) ∧
    List.Forall₂ (fun claim claim' => claim.status = .uncovered → claim' = claim) parsed shown ∧
    (¬Consistent unicode log parsed → message = incompleteMessage)

/-- The evidence is safe exactly if the numbers can be read. -/
theorem safeEvidence_iff (log : Text) (proofStatus : ProofStatus) :
    SafeEvidence unicode log proofStatus ↔ ReadableNumbers unicode log := by
  rw [← isSome_propertyEvidence log proofStatus, Option.isSome_iff_exists]
  constructor
  · rintro ⟨-, shown, message, -, hevidence, -⟩
    exact ⟨_, hevidence⟩
  · rintro ⟨⟨shown, message⟩, hevidence⟩
    obtain ⟨parsed, hparsed, hrest⟩ := Option.bind_eq_some_iff.mp hevidence
    obtain ⟨value, hcomplete, hresult⟩ := Option.bind_eq_some_iff.mp hrest
    obtain ⟨rfl, rfl⟩ := Prod.mk.inj (Option.some.inj hresult)
    have hvalue := complete_eq_some hcomplete
    refine ⟨parsed, _, _, hparsed, hevidence, ?_, ?_, ?_⟩
    · rintro ⟨claim, hmem, hcovered⟩
      obtain ⟨claim', -, rfl⟩ := List.mem_map.mp hmem
      obtain ⟨htrue, hpassed⟩ := Property.of_shown_covered hcovered
      have hconsistent := hvalue.mp htrue
      exact ⟨hpassed, hconsistent, hconsistent.no_unknown⟩
    · rw [List.forall₂_map_right_iff, List.forall₂_same]
      exact fun claim _ hfailed => Property.shown_of_uncovered hfailed
    · intro hnot
      rw [if_neg fun htrue => hnot (hvalue.mp htrue)]

theorem lineLevel_of_uncovered {ρ : Type*} {entries : List (ρ × RowClaim)} {entry : ρ × RowClaim}
    (hmem : entry ∈ entries) (hproperty : entry.2.isProperty = true)
    (hstatus : entry.2.status = .uncovered) : lineLevel entries = .low := by
  have hne : entries.map Prod.snd ≠ [] := by
    simpa using List.ne_nil_of_mem hmem
  have hany : (entries.map Prod.snd).any
      (fun claim => claim.isProperty && claim.status = .uncovered) = true := by
    rw [List.any_eq_true]
    exact ⟨entry.2, List.mem_map_of_mem hmem, by simp [hproperty, hstatus]⟩
  unfold lineLevel
  simp only [if_neg hne, if_pos hany]

/-- A green line has nothing but what is covered. -/
theorem covered_of_lineLevel_high {ρ : Type*} {entries : List (ρ × RowClaim)}
    (h : lineLevel entries = .high) : ∀ entry ∈ entries, entry.2.status = .covered := by
  unfold lineLevel at h
  dsimp only at h
  split_ifs at h with hnil huncovered hunknown hall
  intro entry hmem
  have hcovered := List.countP_eq_length.mp hall entry.2 (List.mem_map_of_mem hmem)
  simpa using hcovered

/-- Safety evidence is never overstated, but a number that `int` does not read
leaves none. -/
theorem evidence_never_overstated {ρ : Type*} (unicode : Unicode) :
    (∀ log proofStatus, SafeEvidence unicode log proofStatus ↔ ReadableNumbers unicode log) ∧
      ∀ entries : List (ρ × RowClaim),
        ((∃ entry ∈ entries, entry.2.isProperty = true ∧ entry.2.status = .uncovered) →
          lineLevel entries = .low) ∧
        (lineLevel entries = .high → ∀ entry ∈ entries, entry.2.status = .covered) := by
  refine ⟨safeEvidence_iff, fun entries => ⟨?_, covered_of_lineLevel_high⟩⟩
  rintro ⟨entry, hmem, hproperty, hstatus⟩
  exact lineLevel_of_uncovered hmem hproperty hstatus

/-- A summary that has too many digits leaves no evidence, and no message. -/
theorem evidence_lost :
    ¬∀ (unicode : Unicode) (log : Text) (proofStatus : ProofStatus),
      SafeEvidence unicode log proofStatus := by
  intro h
  let digits := List.replicate 4301 '9'
  let log := "** ".toList ++ ("0".toList ++ (" of ".toList ++ (digits ++
    (" properties failed, ".toList ++ ("1".toList ++ (" passed".toList ++ []))))))
  have hdigits : IsNumber .ascii digits := by
    constructor
    · exact List.ne_nil_of_length_pos (by rw [List.length_replicate]; decide)
    · intro char hchar
      rw [List.eq_of_mem_replicate hchar]
      decide
  have hlog : '\n' ∉ log := by
    simp only [log, List.mem_append, not_or]
    exact ⟨by decide, by decide, by decide, fun hmem => absurd (List.eq_of_mem_replicate hmem)
      (by decide), by decide, by decide, by decide, List.not_mem_nil⟩
  have hlines : log.splitOnP (· == '\n') = [log] :=
    List.splitOnP_eq_singleton fun char hchar => by
      simpa using ne_of_mem_of_not_mem hchar hlog
  have hsummary : FirstSummary .ascii log "0".toList digits "1".toList :=
    ⟨[], log, [], hlines, ⟨[], rfl, ⟨by decide, List.all_eq_true.mp (by decide)⟩, hdigits,
      ⟨by decide, List.all_eq_true.mp (by decide)⟩, by simp⟩, by simp⟩
  have hreadable := (safeEvidence_iff log .passed).mp (h .ascii log .passed)
  have hlength := (hreadable.2 _ _ _ hsummary).2.1
  rw [List.length_replicate] at hlength
  exact absurd hlength (by decide)

end Safety

end AdaptivePi.Report
