import AdaptivePi.Foundation.SourceLines
import AdaptivePi.Report.SafetyEvidence
import AdaptivePi.Report.TotalsConserved

/-!
The source view of a report. Evidence is counted by iterating over the evidence
map, and shown by iterating over the rows that `splitlines` makes of the source;
a claim is shown beside the line that it is about exactly if that line and those
before it are one row each.
-/

namespace AdaptivePi.Report

open Foundation Foundation.PythonText

/-- What is listed for an entry. -/
structure RowItem where
  badge : Text
  label : Text
  condition : Text
  name : Text
  exceptions : Text
  unwind : Text

structure SourceRow where
  number : Nat
  text : Text
  level : Level
  /-- `No proof evidence` -/
  withoutProof : Bool
  summaries : List Text
  entries : List Entry

def checkLabel : Status → Text
  | .covered => "Safety check passed".toList
  | .uncovered => "Safety check failed".toList
  | .unknown => "Safety check inconclusive".toList

def branchLabel (status : Status) : Text :=
  if status = .covered then "Branch reached".toList else "Branch not reached within bound".toList

def badge : Status → Text
  | .covered => "high".toList
  | .uncovered => "low".toList
  | .unknown => "unknown".toList

def rowItem (entry : Entry) : RowItem where
  badge := badge entry.2.status
  label := if entry.2.isProperty then checkLabel entry.2.status else branchLabel entry.2.status
  condition := entry.2.condition
  name := entry.1.name
  exceptions := entry.1.exceptions
  unwind := entry.1.unwind

def SourceRow.items (row : SourceRow) : List RowItem := row.entries.map rowItem

def entrySummaries (claims : List ReportClaim) : List Text :=
  let (passed, checks) := tally ReportClaim.isProperty claims
  let (reached, branches) := tally isBranch claims
  (if checks = 0 then [] else
    ["Safety checks passed: ".toList ++ Nat.toDigits 10 passed ++ " / ".toList ++
      Nat.toDigits 10 checks]) ++
  if branches = 0 then [] else
    ["Branches reached: ".toList ++ Nat.toDigits 10 reached ++ " / ".toList ++
      Nat.toDigits 10 branches ++ "; ".toList ++ Nat.toDigits 10 (branches - reached) ++
      " not reached".toList]

def rowClaim (entry : Entry) : RunEvidence × RowClaim :=
  (entry.1, ⟨entry.2.isProperty, entry.2.status⟩)

def sourceRow (lines : LineMap) (text : Text) (number : Nat) : SourceRow :=
  let entries := (lines.get number).getD []
  { number := number, text := text, level := lineLevel (entries.map rowClaim),
    withoutProof := strip text ≠ [] && !entries.any (·.2.isProperty),
    summaries := entrySummaries (entries.map Prod.snd), entries := entries }

def sourceRows (lines : LineMap) (source : Text) : List SourceRow :=
  ((splitlines (universalNewlines source)).zipIdx 1).map fun (text, number) =>
    sourceRow lines text number

def lineEntries (lines : LineMap) : List Entry := lines.items.flatMap Prod.snd

/-- The entry is in exactly one row, which shows the line that the entry is
about, and which is red for a check that has failed. -/
def ShownOnce (lines : LineMap) (source : Text) (entry : Entry) : Prop :=
  ∃ row ∈ sourceRows lines source, entry ∈ row.entries ∧
    (∀ other ∈ sourceRows lines source, entry ∈ other.entries → other = row) ∧
    (∃ line : Nat, entry.2.line = line ∧ ShowsLine source row.number line) ∧
    (∀ check : Property, entry.2 = .check check → check.status = .uncovered → row.level = .low)

/-- The evidence of runs that is counted for a file. -/
def IsEvidence (unicode : Unicode) (sourcePath : Text → Text → Option Text) (runs : List RunEvidence)
    (filename : Text) (entry : Entry) : Prop :=
  entry.1 ∈ runs ∧
    match entry.2 with
    | .goal goal => entry.1.isLocated = true ∧ goal ∈ entry.1.rawGoals ∧
        goalFile sourcePath entry.1 goal = some filename
    | .check check => check ∈ runChecks unicode entry.1 ∧
        checkFile sourcePath entry.1 check = some filename

section

variable {unicode : Unicode} {root : Text} {sourcePath : Text → Text → Option Text}
  {found : List FoundPath} {runs : List RunEvidence} {filename : Text} {lines : LineMap}
  {source : Text} {entry : Entry}

/-- The map holds the evidence of the runs, at the lines of the claims. -/
theorem holds_iff {line : Int} :
    Holds (gatheredMap unicode root sourcePath found runs) filename line entry ↔
      IsEvidence unicode sourcePath runs filename entry ∧ entry.2.line = line := by
  constructor
  · apply forall_entries
    · intro run hrun goal hgoal file hfile
      have hcounted := mem_countedGoals.mp hgoal
      exact ⟨⟨hrun, hcounted.1, hcounted.2.1, hfile⟩, rfl⟩
    · intro run hrun check hcheck file hfile
      exact ⟨⟨hrun, hcheck, hfile⟩, rfl⟩
  · rintro ⟨⟨hrun, hclaim⟩, rfl⟩
    classical
    -- Count this entry: one of the passes has added it.
    let weight : Text → Int → Entry → Nat := fun file line other =>
      if file = filename ∧ line = entry.2.line ∧ other = entry then 1 else 0
    have hadded : entryWeight weight (some filename) entry = 1 := if_pos ⟨rfl, rfl, rfl⟩
    have hpos : 0 < weighMap weight (gatheredMap unicode root sourcePath found runs) := by
      rw [weighMap_gatheredMap]
      obtain ⟨run, claim⟩ := entry
      cases claim with
      | goal goal =>
          obtain ⟨hlocated, hgoal, hfile⟩ := hclaim
          have hcounted : goal ∈ countedGoals sourcePath run :=
            mem_countedGoals.mpr ⟨hlocated, hgoal, by rw [hfile]; rfl⟩
          apply Nat.add_pos_left
          refine List.sum_pos_iff_exists_pos_nat.mpr ⟨_, List.mem_map_of_mem hrun, ?_⟩
          refine List.sum_pos_iff_exists_pos_nat.mpr ⟨_, List.mem_map_of_mem hcounted, ?_⟩
          rw [hfile, hadded]
          exact Nat.one_pos
      | check check =>
          obtain ⟨hcheck, hfile⟩ := hclaim
          apply Nat.add_pos_right
          refine List.sum_pos_iff_exists_pos_nat.mpr ⟨_, List.mem_map_of_mem hrun, ?_⟩
          refine List.sum_pos_iff_exists_pos_nat.mpr ⟨_, List.mem_map_of_mem hcheck, ?_⟩
          rw [hfile, hadded]
          exact Nat.one_pos
    obtain ⟨file, line, other, hholds, hweight⟩ := exists_holds hpos
    obtain ⟨rfl, rfl, rfl⟩ : file = filename ∧ line = entry.2.line ∧ other = entry := by
      by_contra hnot
      exact absurd hweight (by simp only [weight, if_neg hnot]; decide)
    exact hholds

/-- The entries of a line are those that the map holds. -/
theorem mem_get_iff {mapped : EvidenceMap} (hfile : (filename, lines) ∈ mapped.items) {line : Int} :
    entry ∈ (lines.get line).getD [] ↔ Holds mapped filename line entry := by
  constructor
  · intro hentry
    cases hentries : lines.get line with
    | none =>
        rw [hentries] at hentry
        cases hentry
    | some entries =>
        rw [hentries] at hentry
        exact ⟨lines, entries, hfile, Dictionary.mem_items_iff.mpr hentries, hentry⟩
  · rintro ⟨lines', entries, hfile', hentries, hentry⟩
    obtain rfl : lines' = lines := Option.some.inj
      ((Dictionary.mem_items_iff.mp hfile').symm.trans (Dictionary.mem_items_iff.mp hfile))
    rw [Dictionary.mem_items_iff.mp hentries]
    exact hentry

theorem mem_lineEntries_iff {mapped : EvidenceMap} (hfile : (filename, lines) ∈ mapped.items) :
    entry ∈ lineEntries lines ↔ ∃ line, Holds mapped filename line entry := by
  unfold lineEntries
  rw [List.mem_flatMap]
  constructor
  · rintro ⟨⟨line, entries⟩, hentries, hentry⟩
    exact ⟨line, lines, entries, hfile, hentries, hentry⟩
  · rintro ⟨line, lines', entries, hfile', hentries, hentry⟩
    obtain rfl : lines' = lines := Option.some.inj
      ((Dictionary.mem_items_iff.mp hfile').symm.trans (Dictionary.mem_items_iff.mp hfile))
    exact ⟨(line, entries), hentries, hentry⟩

/-- There is a row for each line that `splitlines` finds. -/
theorem mem_sourceRows_iff {row : SourceRow} :
    row ∈ sourceRows lines source ↔ ∃ text, 1 ≤ row.number ∧
      (splitlines source)[row.number - 1]? = some text ∧ row = sourceRow lines text row.number := by
  unfold sourceRows
  rw [splitlines_universalNewlines, List.mem_map]
  constructor
  · rintro ⟨⟨text, number⟩, hmem, rfl⟩
    obtain ⟨hle, hget⟩ := List.mk_mem_zipIdx_iff_le_and_getElem?_sub.mp hmem
    exact ⟨text, hle, hget, rfl⟩
  · rintro ⟨text, hle, hget, hrow⟩
    exact ⟨(text, row.number), List.mk_mem_zipIdx_iff_le_and_getElem?_sub.mpr ⟨hle, hget⟩, hrow.symm⟩

/-- An entry is shown once, and beside its line, exactly if neither the line nor
one before it is divided. -/
theorem shownOnce_iff (hfile : (filename, lines) ∈
      (gatheredMap unicode root sourcePath found runs).items)
    (hevidence : IsEvidence unicode sourcePath runs filename entry) :
    ShownOnce lines source entry ↔ ∃ line : Nat, entry.2.line = line ∧ Undivided source line := by
  have hentries : ∀ number : Nat, entry ∈ (lines.get number).getD [] ↔ entry.2.line = number := by
    intro number
    rw [mem_get_iff hfile, holds_iff]
    exact and_iff_right hevidence
  constructor
  · rintro ⟨row, hrow, hentry, -, ⟨line, hline, hshows⟩, -⟩
    obtain ⟨text, -, -, heq⟩ := mem_sourceRows_iff.mp hrow
    rw [heq] at hentry
    have hnumber : (row.number : Int) = line := ((hentries row.number).mp hentry).symm.trans hline
    rw [Int.ofNat_inj.mp hnumber] at hshows
    exact ⟨line, hline, (showsLine_self_iff source line).mp hshows⟩
  · rintro ⟨line, hline, hundivided⟩
    have hshows := (showsLine_self_iff source line).mpr hundivided
    obtain ⟨hpos, hle⟩ := hshows.row_le
    obtain ⟨text, htext⟩ : ∃ text, (splitlines source)[line - 1]? = some text :=
      ⟨_, List.getElem?_eq_getElem (by omega)⟩
    have hmem : entry ∈ (sourceRow lines text line).entries := (hentries line).mpr hline
    refine ⟨sourceRow lines text line, mem_sourceRows_iff.mpr ⟨text, hpos, htext, rfl⟩, hmem, ?_,
      ⟨line, hline, hshows⟩, ?_⟩
    · intro other hother hentry
      obtain ⟨text', -, htext', heq⟩ := mem_sourceRows_iff.mp hother
      rw [heq] at hentry
      have hnumber : (other.number : Int) = line :=
        ((hentries other.number).mp hentry).symm.trans hline
      rw [Int.ofNat_inj.mp hnumber] at htext' heq
      rw [heq, Option.some.inj (htext'.symm.trans htext)]
    · intro check hcheck hstatus
      have hproperty : entry.2.isProperty = true := by rw [hcheck]; rfl
      have hstatus' : entry.2.status = .uncovered := by rw [hcheck]; exact hstatus
      exact lineLevel_of_uncovered (List.mem_map_of_mem hmem) hproperty hstatus'

/-- All evidence that is counted for a file is shown in its source view exactly
if its claims are about lines that are there, and no line up to these has another
boundary of `splitlines` inside it. -/
theorem evidence_shown_iff {bundles : List EvidenceBundle} {data : ReportData}
    (h : aggregate unicode root sourcePath found bundles = some data)
    (hfile : (filename, lines) ∈ data.mapped.items) (source : Text) :
    (∀ entry ∈ lineEntries lines, ShownOnce lines source entry) ↔
      ∀ entry, IsEvidence unicode sourcePath (runsOf bundles) filename entry →
        ∃ line : Nat, entry.2.line = line ∧ Undivided source line := by
  obtain ⟨-, -, -, hmapped⟩ := aggregate_eq_some h
  have hcounted : ∀ entry, entry ∈ lineEntries lines ↔
      IsEvidence unicode sourcePath (runsOf bundles) filename entry := by
    intro entry
    rw [mem_lineEntries_iff hfile, hmapped]
    simp [holds_iff]
  rw [hmapped] at hfile
  constructor
  · intro hall entry hevidence
    exact (shownOnce_iff hfile hevidence).mp (hall entry ((hcounted entry).mpr hevidence))
  · intro hall entry hentry
    have hevidence := (hcounted entry).mp hentry
    exact (shownOnce_iff hfile hevidence).mpr (hall entry hevidence)

end

section Example

def thirdLineGoal : Goal where
  isCovered := false
  file := "platform/demo/src/branch.cpp".toList
  line := 3
  condition := "x".toList
  line_pos := by decide
  kind := none

def failedRun : RunEvidence :=
  { exampleRun [thirdLineGoal] with
    proofStatus := .failed, proofLog := checkLog "FAILED" "1" "0" }

def divisionCheck : Property where
  file := "platform/demo/src/branch.cpp".toList
  line := 3
  function := "f".toList
  condition := "f.1: division".toList
  status := .uncovered

theorem failedRun_evidence :
    propertyEvidence .ascii failedRun.proofLog failedRun.proofStatus =
      some ([divisionCheck], []) := by
  decide +kernel

private theorem exists_example_lines {run : RunEvidence} (hreadable : run.IsReadable .ascii)
    (hlocated : run.isLocated = true) (hgoals : run.rawGoals = [thirdLineGoal]) :
    ∃ data lines, aggregate .ascii [] exampleSourcePath [] [⟨[run]⟩] = some data ∧
      ("platform/demo/src/branch.cpp".toList, lines) ∈ data.mapped.items := by
  obtain ⟨data, h⟩ := @exists_aggregate .ascii [] exampleSourcePath [] [⟨[run]⟩] (by
    intro other hother
    obtain rfl := List.mem_singleton.mp hother
    exact hreadable)
  obtain ⟨-, -, -, hmapped⟩ := aggregate_eq_some h
  have hevidence : IsEvidence .ascii exampleSourcePath [run]
      "platform/demo/src/branch.cpp".toList (run, .goal thirdLineGoal) :=
    ⟨List.mem_singleton_self _, hlocated, by rw [hgoals]; exact List.mem_singleton_self _, rfl⟩
  obtain ⟨lines, -, hlines, -⟩ :=
    (@holds_iff .ascii [] exampleSourcePath [] _ _ _ 3).mpr ⟨hevidence, rfl⟩
  exact ⟨data, lines, h, hmapped ▸ hlines⟩

/-- The third line of a source with both kinds of line ends. -/
private theorem undivided_third : Undivided "int a;\r\n\nint b;\n".toList 3 := by
  refine ⟨["int a;\r\n".toList, "\n".toList], "int b;\n".toList, [], rfl, rfl, ?_, ?_⟩
  · intro other hother
    rcases List.mem_cons.mp hother with rfl | hother
    · exact (length_splitlines_eq_one_iff (by decide)).mp (by decide)
    · obtain rfl := List.mem_singleton.mp hother
      exact (length_splitlines_eq_one_iff (by decide)).mp (by decide)
  · exact (length_splitlines_eq_one_iff (by decide)).mp (by decide)

/-- The goal and the failed property of the third line are shown in its row, which is red. -/
theorem evidence_shown_iff_failed_check : ∃ data lines,
    aggregate .ascii [] exampleSourcePath [] [⟨[failedRun]⟩] = some data ∧
      ("platform/demo/src/branch.cpp".toList, lines) ∈ data.mapped.items ∧
      (∀ entry ∈ lineEntries lines, ShownOnce lines "int a;\r\n\nint b;\n".toList entry) ∧
      ∃ row ∈ sourceRows lines "int a;\r\n\nint b;\n".toList,
        (failedRun, .goal thirdLineGoal) ∈ lineEntries lines ∧
        (failedRun, .check divisionCheck) ∈ row.entries ∧ row.level = .low := by
  have hchecks : runChecks .ascii failedRun = [divisionCheck] := by
    rw [runChecks, failedRun_evidence]
    rfl
  have hreadable : failedRun.IsReadable .ascii := by
    rw [RunEvidence.IsReadable, failedRun_evidence]
    rfl
  obtain ⟨data, lines, h, hfile⟩ := exists_example_lines hreadable rfl rfl
  have hshown := (evidence_shown_iff h hfile "int a;\r\n\nint b;\n".toList).mpr (by
    rintro ⟨run, claim⟩ ⟨hrun, hclaim⟩
    obtain rfl : run = failedRun := List.mem_singleton.mp hrun
    cases claim with
    | goal goal =>
        obtain rfl := List.mem_singleton.mp hclaim.2.1
        exact ⟨3, rfl, undivided_third⟩
    | check check =>
        have hcheck : check ∈ runChecks .ascii failedRun := hclaim.1
        rw [hchecks] at hcheck
        obtain rfl := List.mem_singleton.mp hcheck
        exact ⟨3, rfl, undivided_third⟩)
  obtain ⟨-, -, -, hmapped⟩ := aggregate_eq_some h
  have hentry : ∀ entry, IsEvidence .ascii exampleSourcePath [failedRun]
      "platform/demo/src/branch.cpp".toList entry → entry.2.line = 3 →
        entry ∈ lineEntries lines := by
    intro entry hevidence hline
    rw [mem_lineEntries_iff hfile, hmapped]
    exact ⟨3, holds_iff.mpr ⟨hevidence, hline⟩⟩
  have hgoal := hentry (failedRun, .goal thirdLineGoal)
    ⟨List.mem_singleton_self _, rfl, List.mem_singleton_self _, rfl⟩ rfl
  have hcheck := hentry (failedRun, .check divisionCheck)
    ⟨List.mem_singleton_self _, by rw [hchecks]; exact List.mem_singleton_self _, rfl⟩ rfl
  obtain ⟨row, hrow, hmem, -, -, hred⟩ := hshown _ hcheck
  exact ⟨data, lines, h, hfile, hshown, row, hrow, hgoal, hmem, hred divisionCheck rfl rfl⟩

/-- A form feed on the second line is a row of its own, so the third row, where
the goal of the third line is shown, is the empty rest of the second line. -/
theorem evidence_beside_another_line : ∃ data lines,
    aggregate .ascii [] exampleSourcePath [] [⟨[exampleRun [thirdLineGoal]]⟩] = some data ∧
      ("platform/demo/src/branch.cpp".toList, lines) ∈ data.mapped.items ∧
      splitlines (universalNewlines "int a;\n\x0c\nint b;\n".toList) =
        ["int a;".toList, [], [], "int b;".toList] ∧
      ¬∀ entry ∈ lineEntries lines, ShownOnce lines "int a;\n\x0c\nint b;\n".toList entry := by
  obtain ⟨data, lines, h, hfile⟩ :=
    exists_example_lines (exampleRun_isReadable [thirdLineGoal]) rfl rfl
  obtain ⟨-, -, -, hmapped⟩ := aggregate_eq_some h
  have hevidence : IsEvidence .ascii exampleSourcePath [exampleRun [thirdLineGoal]]
      "platform/demo/src/branch.cpp".toList (exampleRun [thirdLineGoal], .goal thirdLineGoal) :=
    ⟨List.mem_singleton_self _, rfl, List.mem_singleton_self _, rfl⟩
  have hentry : (exampleRun [thirdLineGoal], .goal thirdLineGoal) ∈ lineEntries lines := by
    rw [mem_lineEntries_iff hfile, hmapped]
    exact ⟨3, holds_iff.mpr ⟨hevidence, rfl⟩⟩
  refine ⟨data, lines, h, hfile, by decide, fun hall => ?_⟩
  rw [hmapped] at hfile
  obtain ⟨line, hline, before, shown, after, hsplit, hnumber, hbefore, -⟩ :=
    (shownOnce_iff hfile hevidence).mp (hall _ hentry)
  have hthree : line = 3 := (Int.ofNat_inj.mp hline).symm
  have hlines : linesWithEnds "int a;\n\x0c\nint b;\n".toList =
      ["int a;\n".toList, "\x0c\n".toList, "int b;\n".toList] := by decide
  rw [hlines] at hsplit
  have hsecond : "\x0c\n".toList ∈ before := by
    have hget : before[1]? = some "\x0c\n".toList := by
      rw [← List.getElem?_append_left (by omega), ← hsplit]
      rfl
    exact List.mem_of_getElem? hget
  exact absurd ((length_splitlines_eq_one_iff (by decide)).mpr (hbefore _ hsecond)) (by decide)

end Example

end AdaptivePi.Report
