import AdaptivePi.Report.ReportTotals

/-!
Report totals are conserved, in whatever order the runs come, unless a goal has
a member `kind` of its own. `render` marks properties with this member, so that
the tables and the source view take such a goal for a property.
-/

namespace AdaptivePi.Report

open Foundation Foundation.PythonText

/-- The same bundles in another order, with their runs in another order. -/
def Reordered (bundles bundles' : List EvidenceBundle) : Prop :=
  ∃ middle, bundles.Perm middle ∧
    List.Forall₂ (fun bundle bundle' => bundle.runs.Perm bundle'.runs) middle bundles'

theorem Reordered.runsOf_perm {bundles bundles' : List EvidenceBundle}
    (h : Reordered bundles bundles') : (runsOf bundles).Perm (runsOf bundles') := by
  obtain ⟨middle, hperm, hruns⟩ := h
  have hmiddle : (runsOf middle).Perm (runsOf bundles') := by
    clear hperm
    induction hruns with
    | nil => exact .nil
    | cons hbundle _ ih =>
        unfold runsOf at ih ⊢
        rw [List.flatMap_cons, List.flatMap_cons]
        exact hbundle.append ih
  exact (hperm.flatMap_right _).trans hmiddle

/-- The totals of the rows with a name. -/
def namedTotals (name : Text) (rows : List TotalsRow) : Tally × Tally :=
  rowTotals (rows.filter fun row => row.name = name)

/-- Two reports have the same totals: overall, for each component, for each file,
and of what is excluded. -/
structure SameTotals (data data' : ReportData) : Prop where
  branches : data.branches = data'.branches
  checks : data.checks = data'.checks
  excluded : data.excluded = data'.excluded
  components : ∀ name, namedTotals name data.componentRows = namedTotals name data'.componentRows
  files : ∀ name, namedTotals name data.fileRows = namedTotals name data'.fileRows

section

variable (unicode : Unicode) (root : Text) (sourcePath : Text → Text → Option Text)
  (found : List FoundPath)

/-- The overall totals are those of both tables, they account for the goals of
all located runs, and they do not depend on the order. -/
structure TotalsConserved (bundles : List EvidenceBundle) (data : ReportData) : Prop where
  branchesByComponent : data.branches = (rowTotals data.componentRows).1
  branchesByFile : (rowTotals data.componentRows).1 = (rowTotals data.fileRows).1
  checksByComponent : data.checks = (rowTotals data.componentRows).2
  checksByFile : (rowTotals data.componentRows).2 = (rowTotals data.fileRows).2
  located : (((runsOf bundles).filter (·.isLocated)).map (·.rawGoals.length)).sum =
    data.branches.2 + data.excluded
  unlocated : ∀ run goal, (run, .goal goal) ∈ data.entries → run.isLocated = true
  order : ∀ bundles', Reordered bundles bundles' → ∃ data',
    aggregate unicode root sourcePath found bundles' = some data' ∧ SameTotals data data'

end

section

variable {unicode : Unicode} {root : Text} {sourcePath : Text → Text → Option Text}
  {found : List FoundPath} {bundles bundles' : List EvidenceBundle} {data data' : ReportData}

/-- What a report is made of. -/
theorem aggregate_eq_some (h : aggregate unicode root sourcePath found bundles = some data) :
    (∀ run ∈ runsOf bundles, run.IsReadable unicode) ∧
      data.runs = (runsOf bundles).map (fun run => (countRun sourcePath run).1) ∧
      data.excluded = ((runsOf bundles).map fun run => (countRun sourcePath run).2).sum ∧
      data.mapped = gatheredMap unicode root sourcePath found (runsOf bundles) := by
  rcases @aggregate_spec unicode root sourcePath found bundles with
    ⟨hreadable, errors, -, hsome⟩ | ⟨-, hnone⟩
  · rw [h] at hsome
    obtain rfl := Option.some.inj hsome
    exact ⟨hreadable, rfl, rfl, rfl⟩
  · rw [h] at hnone
    cases hnone

theorem exists_aggregate (h : ∀ run ∈ runsOf bundles, run.IsReadable unicode) :
    ∃ data, aggregate unicode root sourcePath found bundles = some data := by
  rcases @aggregate_spec unicode root sourcePath found bundles with ⟨-, errors, -, hsome⟩ | ⟨hnot, -⟩
  · exact ⟨_, hsome⟩
  · exact absurd h hnot

/-- A weight of the map does not depend on the order of the runs. -/
theorem weighMap_perm {M : Type} [AddCommMonoid M] (weight : Text → Int → Entry → M)
    {runs runs' : List RunEvidence} (hperm : runs.Perm runs') :
    weighMap weight (gatheredMap unicode root sourcePath found runs) =
      weighMap weight (gatheredMap unicode root sourcePath found runs') := by
  rw [weighMap_gatheredMap, weighMap_gatheredMap, (hperm.map _).sum_eq,
    (hperm.map (checksWeight weight unicode sourcePath)).sum_eq]

theorem goalTally_perm {runs runs' : List RunEvidence} (hperm : runs.Perm runs') :
    goalTally (allGoals sourcePath runs) = goalTally (allGoals sourcePath runs') := by
  have hgoals : (allGoals sourcePath runs).Perm (allGoals sourcePath runs') :=
    hperm.flatMap_right _
  unfold goalTally
  rw [hgoals.countP_eq, hgoals.length_eq]

/-- Nor does it for the totals. -/
theorem sameTotals_of_perm (h : aggregate unicode root sourcePath found bundles = some data)
    (h' : aggregate unicode root sourcePath found bundles' = some data')
    (hperm : (runsOf bundles).Perm (runsOf bundles')) : SameTotals data data' := by
  obtain ⟨-, hruns, hexcluded, hmapped⟩ := aggregate_eq_some h
  obtain ⟨-, hruns', hexcluded', hmapped'⟩ := aggregate_eq_some h'
  refine ⟨?_, ?_, ?_, ?_, ?_⟩
  · rw [branches_eq data hruns, branches_eq data' hruns']
    exact goalTally_perm hperm
  · rw [checks_eq, checks_eq, hmapped, hmapped', weighMap_perm _ hperm]
  · rw [hexcluded, hexcluded']
    exact (hperm.map _).sum_eq
  · intro name
    have hrows := fun data => rowTotals_componentRows data fun other => other = name
    unfold namedTotals
    rw [hrows, hrows, hmapped, hmapped', weighMap_perm _ hperm]
  · intro name
    have hrows := fun data => rowTotals_fileRows data fun other => other = name
    unfold namedTotals
    rw [hrows, hrows, hmapped, hmapped', weighMap_perm _ hperm]

/-- Both tables add up to the map. -/
theorem rowTotals_eq (data : ReportData) :
    rowTotals data.componentRows = weighMap (totalsWeight fun _ => true) data.mapped ∧
      rowTotals data.fileRows = weighMap (totalsWeight fun _ => true) data.mapped := by
  have hall : ∀ rows : List TotalsRow, rows.filter (fun _ => true) = rows := fun rows =>
    List.filter_true rows
  constructor
  · rw [← hall data.componentRows]
    exact rowTotals_componentRows data fun _ => true
  · rw [← hall data.fileRows]
    exact rowTotals_fileRows data fun _ => true

/-- The goals of the located runs are counted or excluded. -/
theorem sum_located (runs : List RunEvidence) :
    ((runs.filter (·.isLocated)).map (·.rawGoals.length)).sum =
      (allGoals sourcePath runs).length + (runs.map fun run => (countRun sourcePath run).2).sum := by
  rw [sum_filter]
  unfold allGoals
  induction runs with
  | nil => rfl
  | cons run runs ih =>
      obtain ⟨-, hrun⟩ := @countRun_spec sourcePath run
      rw [List.map_cons, List.sum_cons, ih, ← hrun, List.flatMap_cons, List.length_append,
        List.map_cons, List.sum_cons]
      omega

theorem holds_of_mem_entries {entry : Entry} (hentry : entry ∈ data.entries) :
    ∃ filename line, Holds data.mapped filename line entry := by
  obtain ⟨⟨filename, lines⟩, hlines, hmem⟩ := List.mem_flatMap.mp hentry
  obtain ⟨⟨line, entries⟩, hentries, hmem⟩ := List.mem_flatMap.mp hmem
  exact ⟨filename, line, lines, entries, hlines, hentries, hmem⟩

/-- A goal in the map is one of a located run. -/
theorem isLocated_of_mem_entries
    (hmapped : data.mapped = gatheredMap unicode root sourcePath found (runsOf bundles))
    {run : RunEvidence} {goal : Goal} (hentry : (run, .goal goal) ∈ data.entries) :
    run.isLocated = true := by
  obtain ⟨filename, line, hholds⟩ := holds_of_mem_entries hentry
  rw [hmapped] at hholds
  have hall := @forall_entries unicode sourcePath
    (fun _ _ entry => ∀ goal, entry.2 = .goal goal → entry.1.isLocated = true) root found
    (runsOf bundles) ?_ ?_ filename line _ hholds
  · exact hall goal rfl
  · intro run _ goal hgoal _ _ _ _
    exact (mem_countedGoals.mp hgoal).1
  · intro run _ check _ _ _ goal hgoal
    cases hgoal

/-- The overall branches are those in the map exactly if no counted goal has the
member `kind` of a property. -/
theorem branches_eq_iff (h : aggregate unicode root sourcePath found bundles = some data) :
    data.branches = (rowTotals data.componentRows).1 ↔
      ∀ run ∈ runsOf bundles, run.isLocated = true → ∀ goal ∈ run.rawGoals,
        (goalFile sourcePath run goal).isSome = true →
          goal.kind.any (·.equalsText "property".toList) = false := by
  obtain ⟨-, hruns, -, hmapped⟩ := aggregate_eq_some h
  rw [branches_eq data hruns, (rowTotals_eq data).1, hmapped, branches_weighMap, tally_goals_eq_iff]
  unfold allGoals
  constructor
  · intro hall run hrun hlocated goal hgoal hfile
    exact hall goal (List.mem_flatMap.mpr ⟨run, hrun, mem_countedGoals.mpr ⟨hlocated, hgoal, hfile⟩⟩)
  · intro hall goal hgoal
    obtain ⟨run, hrun, hmem⟩ := List.mem_flatMap.mp hgoal
    obtain ⟨hlocated, hraw, hfile⟩ := mem_countedGoals.mp hmem
    exact hall run hrun hlocated goal hraw hfile

/-- The totals are conserved exactly if no counted goal has the member `kind`
with the value `property`. -/
theorem totals_conserved_iff (h : aggregate unicode root sourcePath found bundles = some data) :
    TotalsConserved unicode root sourcePath found bundles data ↔
      ∀ run ∈ runsOf bundles, run.isLocated = true → ∀ goal ∈ run.rawGoals,
        (goalFile sourcePath run goal).isSome = true →
          goal.kind.any (·.equalsText "property".toList) = false := by
  rw [← branches_eq_iff h]
  obtain ⟨hreadable, hruns, hexcluded, hmapped⟩ := aggregate_eq_some h
  obtain ⟨hcomponents, hfiles⟩ := rowTotals_eq data
  refine ⟨fun hconserved => hconserved.branchesByComponent, fun hbranches => ?_⟩
  refine ⟨hbranches, by rw [hcomponents, hfiles], by rw [checks_eq, hcomponents],
    by rw [hcomponents, hfiles], ?_, fun run goal => isLocated_of_mem_entries hmapped, ?_⟩
  · rw [sum_located, branches_eq data hruns, hexcluded]
    rfl
  · intro bundles' hreordered
    have hperm := hreordered.runsOf_perm
    have hreadable' : ∀ run ∈ runsOf bundles', run.IsReadable unicode :=
      fun run hrun => hreadable run (hperm.mem_iff.mpr hrun)
    obtain ⟨data', h'⟩ := @exists_aggregate unicode root sourcePath found bundles' hreadable'
    exact ⟨data', h', sameTotals_of_perm h h' hperm⟩

end

section Example

/-- A claim with a member `kind` of its own, which `parse_coverage` accepts. -/
def markedClaim : Json := .object [("status".toList, .string "covered".toList),
  ("file".toList, .string "platform/demo/src/branch.cpp".toList), ("line".toList, .int 2),
  ("condition".toList, .string "x".toList), ("kind".toList, .string "property".toList)]

def markedGoal : Goal where
  isCovered := true
  file := "platform/demo/src/branch.cpp".toList
  line := 2
  condition := "x".toList
  line_pos := by decide
  kind := some (.string "property".toList)

def exampleRun (goals : List Goal) : RunEvidence where
  name := "demo".toList
  exceptions := "OFF".toList
  unwind := "4".toList
  directory := "/p".toList
  proofDirectory := none
  proofStatus := .passed
  proofLog := []
  coverage := some ⟨goals.length, goals⟩
  error := []

def exampleSourcePath (filename _ : Text) : Option Text := some filename

theorem exampleRun_isReadable (goals : List Goal) : (exampleRun goals).IsReadable .ascii := by
  change (propertyEvidence .ascii [] .passed).isSome = true
  decide +kernel

/-- The log of a proof with one located property. -/
def checkLog (result failed passed : String) : Text :=
  "platform/demo/src/branch.cpp, function f\n  ".toList ++ result.toList ++
    " [f.1] line 3 division\n** ".toList ++ failed.toList ++
    " of 1 properties failed, ".toList ++ passed.toList ++ " passed\n".toList

/-- The production sources are those below `platform` and `apps`. -/
def productionPath (filename _ : Text) : Option Text :=
  if "platform/".toList.isPrefixOf filename || "apps/".toList.isPrefixOf filename then
    some filename
  else none

/-- Two bundles. Of the first one, a goal in a header of the system is excluded, and a run
has a goal without a location. -/
def severalBundles : List EvidenceBundle :=
  let branch := { markedGoal with kind := none }
  let header := { branch with file := "/usr/include/vector".toList }
  let tool := { branch with file := "apps/tool/main.cpp".toList, isCovered := false }
  [⟨[{ exampleRun [branch, header] with proofLog := checkLog "PASSED" "0" "1" },
      { exampleRun [branch] with coverage := some ⟨2, [branch]⟩ }]⟩,
    ⟨[{ exampleRun [tool, branch] with
        proofStatus := .failed, proofLog := checkLog "FAILED" "1" "0" }]⟩]

/-- The totals of the example, and that they are conserved. -/
theorem totals_conserved_iff_several :
    ∃ data, aggregate .ascii [] productionPath [] severalBundles = some data ∧
      data.branches = (2, 3) ∧ data.checks = (1, 2) ∧ data.excluded = 1 ∧
      rowTotals data.componentRows = ((2, 3), (1, 2)) ∧
      TotalsConserved .ascii [] productionPath [] severalBundles data := by
  have hnumbers : (aggregate .ascii [] productionPath [] severalBundles).map
      (fun data => (data.branches, data.checks, data.excluded)) =
        some ((2, 3), (1, 2), 1) := by
    decide +kernel
  obtain ⟨data, h, hdata⟩ := Option.map_eq_some_iff.mp hnumbers
  obtain ⟨hbranches, hrest⟩ := Prod.ext_iff.mp hdata
  obtain ⟨hchecks, hexcluded⟩ := Prod.ext_iff.mp hrest
  have hconserved : TotalsConserved .ascii [] productionPath [] severalBundles data := by
    apply (totals_conserved_iff h).mpr
    intro run hrun _ goal hgoal _
    have hunmarked : ∀ run ∈ runsOf severalBundles, ∀ goal ∈ run.rawGoals, goal.kind = none := by
      simp [runsOf, severalBundles, RunEvidence.rawGoals, exampleRun]
    rw [hunmarked run hrun goal hgoal]
    rfl
  refine ⟨data, h, hbranches, hchecks, hexcluded, ?_, hconserved⟩
  exact Prod.ext (hconserved.branchesByComponent.symm.trans hbranches)
    (hconserved.checksByComponent.symm.trans hchecks)

/-- One branch is reached overall, and none in the table of components, where it
is a passed check. -/
theorem goal_taken_for_property :
    (∀ python, isInvalidClaim python markedClaim = .ok false) ∧ markedGoal.Reads markedClaim ∧
      ∃ data, aggregate .ascii [] exampleSourcePath [] [⟨[exampleRun [markedGoal]]⟩] = some data ∧
        data.branches = (1, 1) ∧ rowTotals data.componentRows = ((0, 0), (1, 1)) ∧
        ¬TotalsConserved .ascii [] exampleSourcePath [] [⟨[exampleRun [markedGoal]]⟩] data := by
  refine ⟨fun _ => rfl, ⟨_, rfl, ⟨_, rfl, rfl, rfl, rfl, rfl⟩, rfl⟩, ?_⟩
  obtain ⟨data, h⟩ : ∃ data, aggregate .ascii [] exampleSourcePath []
      [⟨[exampleRun [markedGoal]]⟩] = some data := ⟨_, rfl⟩
  obtain ⟨-, hruns, -, hmapped⟩ := aggregate_eq_some h
  have hbranches : data.branches = (1, 1) := by
    rw [branches_eq data hruns]
    decide +kernel
  have hcomponents : rowTotals data.componentRows = ((0, 0), (1, 1)) := by
    rw [(rowTotals_eq data).1, hmapped]
    decide +kernel
  refine ⟨data, h, hbranches, hcomponents, fun hconserved => ?_⟩
  have heq := hconserved.branchesByComponent
  rw [hbranches, hcomponents] at heq
  cases heq

end Example

end AdaptivePi.Report
