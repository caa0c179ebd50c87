import AdaptivePi.Report.EvidenceMap
import Mathlib.Algebra.BigOperators.Group.List.Lemmas
import Mathlib.Algebra.Group.Prod

namespace AdaptivePi.Report

open Foundation Foundation.PythonText

abbrev Tally := Nat × Nat

/-- `Path(filename).parts`, for a relative path. -/
def pathParts (filename : Text) : List Text :=
  (filename.splitOnP (· == '/')).filter fun part => part ≠ [] && part ≠ ".".toList

/-- `"/".join(Path(filename).parts[:2])` -/
def component (filename : Text) : Text :=
  "/".toList.intercalate ((pathParts filename).take 2)

/-- The order of strings, by code points. -/
def precedes : Text → Text → Bool
  | [], _ => true
  | _ :: _, [] => false
  | first :: left, second :: right =>
      first.toNat < second.toNat || (first.toNat == second.toNat && precedes left right)

/-- `sorted(d.items())` -/
def sortedItems {ν : Type} (dictionary : Dictionary Text ν) : List (Text × ν) :=
  dictionary.items.mergeSort fun left right => precedes left.1 right.1

def isBranch (claim : ReportClaim) : Bool := !claim.isProperty

def tally (select : ReportClaim → Bool) (claims : List ReportClaim) : Tally :=
  let selected := claims.filter select
  (selected.countP (·.status = .covered), selected.length)

def lineClaims (lines : LineMap) : List ReportClaim :=
  lines.items.flatMap fun item => item.2.map Prod.snd

/-- The numbers in a row of a table. -/
structure TotalsRow where
  name : Text
  branches : Tally
  checks : Tally

def totalsRow (name : Text) (claims : List ReportClaim) : TotalsRow where
  name := name
  branches := tally isBranch claims
  checks := tally ReportClaim.isProperty claims

namespace ReportData

variable (data : ReportData)

def branches : Tally :=
  (((data.runs.filterMap (·.coverage)).map (·.covered)).sum,
    ((data.runs.filterMap (·.coverage)).map (·.total)).sum)

def properties : List ReportClaim :=
  (data.mapped.items.flatMap fun item => lineClaims item.2).filter ReportClaim.isProperty

def checks : Tally :=
  (data.properties.countP (·.status = .covered), data.properties.length)

def components : Dictionary Text (List ReportClaim) :=
  data.mapped.items.foldl (fun components item =>
    components.access (component item.1) [] (· ++ lineClaims item.2)) .empty

def componentRows : List TotalsRow :=
  (sortedItems data.components).map fun item => totalsRow item.1 item.2

def fileRows : List TotalsRow :=
  (sortedItems data.mapped).map fun item => totalsRow item.1 (lineClaims item.2)

def entries : List Entry :=
  data.mapped.items.flatMap fun item => item.2.items.flatMap Prod.snd

end ReportData

/-- The totals of branches and of checks over rows. -/
def rowTotals (rows : List TotalsRow) : Tally × Tally :=
  (rows.map fun row => (row.branches, row.checks)).sum

section Tally

/-- What a claim adds to the numbers of the selected claims. -/
def claimTally (select : ReportClaim → Bool) (claim : ReportClaim) : Tally :=
  if select claim then (if claim.status = .covered then 1 else 0, 1) else 0

/-- A tally adds up its claims. -/
theorem tally_eq_sum (select : ReportClaim → Bool) (claims : List ReportClaim) :
    tally select claims = (claims.map (claimTally select)).sum := by
  induction claims with
  | nil => rfl
  | cons claim claims ih =>
      rw [List.map_cons, List.sum_cons, ← ih]
      unfold tally claimTally
      by_cases hselect : select claim = true
      · simp [hselect, List.countP_cons, add_comm]
      · simp [hselect]

def claimTotals (claim : ReportClaim) : Tally × Tally :=
  (claimTally isBranch claim, claimTally ReportClaim.isProperty claim)

theorem totalsRow_eq_sum (name : Text) (claims : List ReportClaim) :
    ((totalsRow name claims).branches, (totalsRow name claims).checks) =
      (claims.map claimTotals).sum := by
  unfold totalsRow
  dsimp only
  rw [tally_eq_sum, tally_eq_sum]
  induction claims with
  | nil => rfl
  | cons claim claims ih =>
      simp only [List.map_cons, List.sum_cons]
      rw [← ih]
      rfl

theorem sum_filter {α M : Type} [AddCommMonoid M] (p : α → Bool) (f : α → M) (items : List α) :
    ((items.filter p).map f).sum = (items.map fun item => if p item then f item else 0).sum := by
  induction items with
  | nil => rfl
  | cons item items ih =>
      by_cases hitem : p item = true
      · simp [hitem, ih]
      · simp [hitem, ih]

end Tally

section Tables

variable (data : ReportData)

/-- The weight of an entry in the rows whose names are selected by their files. -/
def totalsWeight (p : Text → Bool) (filename : Text) (_ : Int) (entry : Entry) : Tally × Tally :=
  if p filename then claimTotals entry.2 else 0

/-- The totals of claims, if their name is selected. -/
def selectedTotals (p : Text → Bool) (name : Text) (claims : List ReportClaim) : Tally × Tally :=
  if p name then (claims.map claimTotals).sum else 0

theorem sum_lineClaims {M : Type} [AddCommMonoid M] (f : ReportClaim → M) (lines : LineMap) :
    ((lineClaims lines).map f).sum =
      lines.weigh fun _ entries => (entries.map fun entry => f entry.2).sum := by
  unfold lineClaims Dictionary.weigh
  induction lines.items with
  | nil => rfl
  | cons item items ih =>
      rw [List.flatMap_cons, List.map_append, List.sum_append, ih, List.map_cons, List.sum_cons,
        List.map_map]
      rfl

/-- The totals of the selected files. -/
theorem sum_files (p : Text → Bool) (mapped : EvidenceMap) :
    (mapped.items.map fun item => selectedTotals p item.1 (lineClaims item.2)).sum =
      weighMap (totalsWeight p) mapped := by
  have hitem : ∀ item : Text × LineMap,
      (item.2.weigh fun line entries => (entries.map (totalsWeight p item.1 line)).sum) =
        selectedTotals p item.1 (lineClaims item.2) := by
    intro item
    unfold totalsWeight selectedTotals
    split
    · exact (sum_lineClaims claimTotals item.2).symm
    · simp [Dictionary.weigh]
  unfold weighMap
  rw [Dictionary.weigh]
  simp only [hitem]

theorem rowTotals_filter (p : Text → Bool) {ν : Type} (claims : ν → List ReportClaim)
    (items : List (Text × ν)) :
    rowTotals ((items.map fun item => totalsRow item.1 (claims item.2)).filter fun row => p row.name) =
      (items.map fun item => selectedTotals p item.1 (claims item.2)).sum := by
  rw [rowTotals, sum_filter, List.map_map]
  congr 1
  apply List.map_congr_left
  intro item _
  simp only [Function.comp_apply, totalsRow_eq_sum]
  rfl

theorem perm_sortedItems {ν : Type} (dictionary : Dictionary Text ν) :
    (sortedItems dictionary).Perm dictionary.items :=
  List.mergeSort_perm _ _

/-- The totals of the rows of selected files. -/
theorem rowTotals_fileRows (p : Text → Bool) :
    rowTotals (data.fileRows.filter fun row => p row.name) =
      weighMap (totalsWeight p) data.mapped := by
  rw [← sum_files, ReportData.fileRows, rowTotals_filter p lineClaims]
  exact ((perm_sortedItems data.mapped).map _).sum_eq

/-- The totals of the rows of selected components. -/
theorem rowTotals_componentRows (p : Text → Bool) :
    rowTotals (data.componentRows.filter fun row => p row.name) =
      weighMap (totalsWeight fun filename => p (component filename)) data.mapped := by
  have hstep : ∀ (components : Dictionary Text (List ReportClaim)) (item : Text × LineMap),
      (components.access (component item.1) [] (· ++ lineClaims item.2)).weigh (selectedTotals p) =
        components.weigh (selectedTotals p) +
          selectedTotals p (component item.1) (lineClaims item.2) := by
    intro components item
    apply Dictionary.weigh_access
    · unfold selectedTotals
      split <;> rfl
    · intro claims
      unfold selectedTotals
      split
      · rw [List.map_append, List.sum_append]
      · exact (add_zero _).symm
  have hcomponents : data.components.weigh (selectedTotals p) =
      0 + (data.mapped.items.map fun item =>
        selectedTotals p (component item.1) (lineClaims item.2)).sum :=
    @measure_foldl _ _ _ _ _ (fun components => components.weigh (selectedTotals p)) _ hstep
      data.mapped.items Dictionary.empty
  have hfiles := sum_files (fun filename => p (component filename)) data.mapped
  rw [← hfiles]
  rw [zero_add] at hcomponents
  refine Eq.trans ?_ hcomponents
  exact (rowTotals_filter p id (sortedItems data.components)).trans
    ((perm_sortedItems data.components).map _).sum_eq

end Tables

section Overall

variable {unicode : Unicode} {root : Text} {sourcePath : Text → Text → Option Text}
  {found : List FoundPath}

def RunEvidence.rawGoals (run : RunEvidence) : List Goal :=
  match run.coverage with
  | none => []
  | some coverage => coverage.claims

/-- The locations of the goals are complete. -/
def RunEvidence.isLocated (run : RunEvidence) : Bool :=
  run.coverage.any fun coverage => coverage.IsLocated

/-- The goals of a located run in production sources are counted, the others are
excluded. -/
theorem countRun_spec (run : RunEvidence) :
    countedGoals sourcePath run =
        (if run.isLocated then production sourcePath run run.rawGoals else []) ∧
      (countRun sourcePath run).2 + (countedGoals sourcePath run).length =
        (if run.isLocated then run.rawGoals.length else 0) := by
  unfold countedGoals countRun RunEvidence.isLocated RunEvidence.rawGoals
  cases run.coverage with
  | none => exact ⟨rfl, rfl⟩
  | some coverage =>
      by_cases hlocated : coverage.IsLocated
      · have hle : (production sourcePath run coverage.claims).length ≤ coverage.claims.length :=
          List.length_filter_le _ _
        simp [hlocated, ReportRun.goals]
        omega
      · simp [hlocated, ReportRun.goals]

theorem mem_countedGoals {run : RunEvidence} {goal : Goal} :
    goal ∈ countedGoals sourcePath run ↔
      run.isLocated = true ∧ goal ∈ run.rawGoals ∧ (goalFile sourcePath run goal).isSome = true := by
  rw [(countRun_spec run).1]
  by_cases hlocated : run.isLocated = true
  · simp [hlocated, production, goalFile]
  · simp [hlocated]

theorem countRun_coverage (run : RunEvidence) :
    (∀ coverage ∈ (countRun sourcePath run).1.coverage,
      coverage.covered = coverage.claims.countP (·.isCovered) ∧
      coverage.total = coverage.claims.length) := by
  unfold countRun
  split
  · simp
  · split
    · simp
    · intro coverage hcoverage
      obtain rfl := Option.some.inj hcoverage
      exact ⟨rfl, rfl⟩

/-- The goals that are counted in the overall numbers. -/
def allGoals (sourcePath : Text → Text → Option Text) (runs : List RunEvidence) : List Goal :=
  runs.flatMap (countedGoals sourcePath)

def goalTally (goals : List Goal) : Tally := (goals.countP (·.isCovered), goals.length)

/-- The overall branches are the goals that are counted. -/
theorem branches_eq (data : ReportData) {runs : List RunEvidence}
    (hruns : data.runs = runs.map fun run => (countRun sourcePath run).1) :
    data.branches = goalTally (allGoals sourcePath runs) := by
  unfold ReportData.branches goalTally allGoals
  rw [hruns]
  clear hruns
  induction runs with
  | nil => rfl
  | cons run runs ih =>
      obtain ⟨hcovered, htotal⟩ := Prod.mk.inj ih
      rw [List.map_cons, List.flatMap_cons, List.countP_append, List.length_append]
      have hrun := @countRun_coverage sourcePath run
      cases hcoverage : (countRun sourcePath run).1.coverage with
      | none =>
          rw [List.filterMap_cons_none hcoverage, hcovered, htotal]
          simp [countedGoals, ReportRun.goals, hcoverage]
      | some coverage =>
          obtain ⟨hcovered', htotal'⟩ := hrun coverage hcoverage
          rw [List.filterMap_cons_some hcoverage, List.map_cons, List.map_cons, List.sum_cons,
            List.sum_cons, hcovered, htotal, hcovered', htotal']
          simp [countedGoals, ReportRun.goals, hcoverage]

theorem checks_eq (data : ReportData) :
    data.checks = (weighMap (totalsWeight fun _ => true) data.mapped).2 := by
  have hclaims := totalsRow_eq_sum [] (data.mapped.items.flatMap fun item => lineClaims item.2)
  have hsum : ((data.mapped.items.flatMap fun item => lineClaims item.2).map claimTotals).sum =
      (data.mapped.items.map fun item =>
        selectedTotals (fun _ => true) item.1 (lineClaims item.2)).sum := by
    induction data.mapped.items with
    | nil => rfl
    | cons item items ih =>
        rw [List.flatMap_cons, List.map_append, List.sum_append, ih, List.map_cons, List.sum_cons]
        rfl
  rw [← sum_files, ← hsum, ← hclaims]
  rfl

/-- The branches in the map are the counted goals that are not taken for
properties. -/
theorem branches_weighMap (root : Text) (found : List FoundPath) (runs : List RunEvidence) :
    (weighMap (totalsWeight fun _ => true) (gatheredMap unicode root sourcePath found runs)).1 =
      tally isBranch ((allGoals sourcePath runs).map .goal) := by
  have hgoals : ∀ run, goalsWeight (totalsWeight fun _ => true) sourcePath run =
      (((countedGoals sourcePath run).map ReportClaim.goal).map claimTotals).sum := by
    intro run
    unfold goalsWeight
    rw [List.map_map]
    congr 1
    apply List.map_congr_left
    intro goal hgoal
    obtain ⟨filename, hfilename⟩ := Option.isSome_iff_exists.mp (mem_countedGoals.mp hgoal).2.2
    rw [hfilename]
    rfl
  have hchecks : ∀ run,
      (checksWeight (totalsWeight fun _ => true) unicode sourcePath run).1 = 0 := by
    intro run
    unfold checksWeight
    induction runChecks unicode run with
    | nil => rfl
    | cons check checks ih =>
        rw [List.map_cons, List.sum_cons, Prod.fst_add, ih, add_zero]
        cases checkFile sourcePath run check with
        | none => rfl
        | some filename => rfl
  have hfst : ∀ claims, tally isBranch claims = (claims.map claimTotals).sum.1 := by
    intro claims
    rw [← totalsRow_eq_sum []]
    rfl
  rw [weighMap_gatheredMap, hfst, Prod.fst_add, allGoals]
  induction runs with
  | nil => rfl
  | cons run runs ih =>
      rw [List.map_cons, List.map_cons, List.sum_cons, List.sum_cons, List.flatMap_cons,
        List.map_append, List.map_append, List.sum_append, Prod.fst_add, Prod.fst_add, Prod.fst_add,
        hchecks, zero_add, hgoals, ← ih, add_assoc]

theorem status_goal_eq_covered (goal : Goal) :
    decide ((ReportClaim.goal goal).status = .covered) = goal.isCovered := by
  cases hcovered : goal.isCovered with
  | false => simp [ReportClaim.status, hcovered]
  | true => simp [ReportClaim.status, hcovered]

/-- The two numbers agree exactly if no goal is taken for a property. -/
theorem tally_goals_eq_iff (goals : List Goal) :
    goalTally goals = tally isBranch (goals.map .goal) ↔
      ∀ goal ∈ goals, (ReportClaim.goal goal).isProperty = false := by
  have hselected : (goals.map ReportClaim.goal).filter isBranch = goals.map .goal ↔
      ∀ goal ∈ goals, (ReportClaim.goal goal).isProperty = false := by
    rw [List.filter_eq_self]
    simp [isBranch]
  rw [← hselected]
  unfold tally
  constructor
  · intro h
    have hlength : goals.length = ((goals.map ReportClaim.goal).filter isBranch).length :=
      congrArg Prod.snd h
    rw [← List.length_map ReportClaim.goal] at hlength
    exact List.Sublist.eq_of_length List.filter_sublist hlength.symm
  · intro h
    dsimp only
    rw [h, List.countP_map, List.length_map, goalTally]
    congr 2
    funext goal
    exact (status_goal_eq_covered goal).symm

end Overall

end AdaptivePi.Report
