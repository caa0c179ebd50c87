import AdaptivePi.Foundation.Dictionary
import AdaptivePi.Report.CoverageReport
import AdaptivePi.Report.PropertyEvidence

/-!
What `render` of `esbmc_cov_to_html.py` gathers. The goals of each run are
reduced to production sources; then the goals and the located properties of all
runs go into one map of files and lines, in two passes with different base
directories, and files without evidence are added.
-/

namespace AdaptivePi.Report

open Foundation Foundation.PythonText

/-- A claim about a branch that `parse_coverage` has accepted. It may have a
member `kind`, as it may have any other. -/
structure Goal extends BranchClaim where
  kind : Option Json

structure GoalCoverage where
  total : Int
  claims : List Goal

structure RunEvidence where
  name : Text
  exceptions : Text
  unwind : Text
  directory : Text
  proofDirectory : Option Text
  proofStatus : ProofStatus
  proofLog : Text
  coverage : Option GoalCoverage
  error : Text

structure EvidenceBundle where
  runs : List RunEvidence

/-- All goals have a location. -/
def GoalCoverage.IsLocated (coverage : GoalCoverage) : Prop :=
  (coverage.claims.length : Int) = coverage.total

instance (coverage : GoalCoverage) : Decidable coverage.IsLocated :=
  inferInstanceAs (Decidable (_ = _))

/-- A claim says this of a goal. -/
def Goal.Reads (goal : Goal) (claim : Json) : Prop :=
  ∃ members, claim = .object members ∧ Describes claim goal.toBranchClaim ∧
    goal.kind = Json.member members "kind".toList

inductive ReportClaim where
  | goal (goal : Goal)
  | check (check : Property)

namespace ReportClaim

/-- `claim.get("kind") == "property"` -/
def isProperty : ReportClaim → Bool
  | .goal branch => branch.kind.any (·.equalsText "property".toList)
  | .check _ => true

def status : ReportClaim → Status
  | .goal branch => if branch.isCovered then .covered else .uncovered
  | .check property => property.status

def line : ReportClaim → Int
  | .goal branch => branch.line
  | .check property => property.line

def condition : ReportClaim → Text
  | .goal branch => branch.condition
  | .check property => property.condition

end ReportClaim

structure CountedCoverage where
  total : Nat
  covered : Nat
  claims : List Goal

structure ReportRun where
  evidence : RunEvidence
  coverage : Option CountedCoverage
  error : Text

/-- The entries of a line: runs and claims. -/
abbrev Entry := RunEvidence × ReportClaim

abbrev LineMap := Dictionary Int (List Entry)

abbrev EvidenceMap := Dictionary Text LineMap

section Source

-- `sourcePath` is `source_path` of a file and a directory; its root is fixed.
variable (unicode : Unicode) (root : Text) (sourcePath : Text → Text → Option Text)

def sourceFile (filename directory : Text) : Option Text :=
  (sourcePath filename directory).filter fun path => !path.isEmpty

def incompleteLocations : Text :=
  "Production coverage unavailable: source locations are incomplete.".toList

def production (run : RunEvidence) (claims : List Goal) : List Goal :=
  claims.filter fun goal => (sourceFile sourcePath goal.file run.directory).isSome

/-- A run as it is counted, and the number of its goals that are not. -/
def countRun (run : RunEvidence) : ReportRun × Nat :=
  match run.coverage with
  | none => (⟨run, none, run.error⟩, 0)
  | some coverage =>
      if ¬coverage.IsLocated then (⟨run, none, incompleteLocations⟩, 0)
      else
        let counted := production sourcePath run coverage.claims
        (⟨run, some ⟨counted.length, counted.countP (·.isCovered), counted⟩, run.error⟩,
          coverage.claims.length - counted.length)

/-- The loops over the bundles and their runs: `runs` and `excluded`. -/
def gather (bundles : List EvidenceBundle) : List ReportRun × Nat :=
  bundles.foldl (fun state bundle => bundle.runs.foldl (fun (runs, excluded) run =>
    let (counted, more) := countRun sourcePath run
    (runs ++ [counted], excluded + more)) state) ([], 0)

/-- `mapped[filename][claim["line"]].append((run, claim))`, if there is a file. -/
def addEvidence (mapped : EvidenceMap) (filename : Option Text) (entry : Entry) : EvidenceMap :=
  match filename with
  | none => mapped
  | some filename =>
      mapped.access filename .empty fun lines => lines.access entry.2.line [] (· ++ [entry])

def goalFile (run : RunEvidence) (goal : Goal) : Option Text :=
  sourceFile sourcePath goal.file run.directory

def checkFile (run : RunEvidence) (check : Property) : Option Text :=
  sourceFile sourcePath check.file (run.proofDirectory.getD run.directory)

def ReportRun.goals (run : ReportRun) : List Goal :=
  match run.coverage with
  | none => []
  | some coverage => coverage.claims

def addGoals (mapped : EvidenceMap) (run : ReportRun) : EvidenceMap :=
  run.goals.foldl (fun mapped goal =>
    addEvidence mapped (goalFile sourcePath run.evidence goal) (run.evidence, .goal goal)) mapped

def addChecks (mapped : EvidenceMap) (run : ReportRun) (checks : List Property) : EvidenceMap :=
  checks.foldl (fun mapped check =>
    addEvidence mapped (checkFile sourcePath run.evidence check) (run.evidence, .check check)) mapped

/-- The map and the values of `run["property_error"]`, with `none` for a
`ValueError`. -/
def addRunChecks (state : EvidenceMap × List Text) (run : ReportRun) :
    Option (EvidenceMap × List Text) := do
  let (checks, error) ← propertyEvidence unicode run.evidence.proofLog run.evidence.proofStatus
  pure (addChecks sourcePath state.1 run checks, state.2 ++ [error])

structure FoundPath where
  path : Text
  isFile : Bool

/-- `mapped.setdefault(filename, {})` for a file in production sources. -/
def addFile (mapped : EvidenceMap) (found : FoundPath) : EvidenceMap :=
  match sourceFile sourcePath found.path root with
  | none => mapped
  | some filename => if found.isFile then mapped.setDefault filename .empty else mapped

structure ReportData where
  runs : List ReportRun
  excluded : Nat
  propertyErrors : List Text
  mapped : EvidenceMap

/-- The first part of `render`; the paths are those below `apps` and `platform`. -/
def aggregate (found : List FoundPath) (bundles : List EvidenceBundle) : Option ReportData := do
  let (runs, excluded) := gather sourcePath bundles
  let mapped := runs.foldl (addGoals sourcePath) .empty
  let (mapped, propertyErrors) ← runs.foldlM (addRunChecks unicode sourcePath) (mapped, [])
  pure ⟨runs, excluded, propertyErrors, found.foldl (addFile root sourcePath) mapped⟩

end Source

def runsOf (bundles : List EvidenceBundle) : List RunEvidence := bundles.flatMap (·.runs)

section Gathering

variable {unicode : Unicode} {root : Text} {sourcePath : Text → Text → Option Text}

/-- The loop over the runs counts each by itself. -/
private theorem foldl_countRun (runs : List RunEvidence) (state : List ReportRun × Nat) :
    runs.foldl (fun (runs, excluded) run =>
        let (counted, more) := countRun sourcePath run
        (runs ++ [counted], excluded + more)) state =
      (state.1 ++ runs.map fun run => (countRun sourcePath run).1,
        state.2 + (runs.map fun run => (countRun sourcePath run).2).sum) := by
  induction runs generalizing state with
  | nil => simp
  | cons run runs ih =>
      rw [List.foldl_cons, ih]
      simp [List.append_assoc, Nat.add_assoc]

/-- The loops treat the runs one by one. -/
theorem gather_eq (bundles : List EvidenceBundle) :
    gather sourcePath bundles = ((runsOf bundles).map fun run => (countRun sourcePath run).1,
      ((runsOf bundles).map fun run => (countRun sourcePath run).2).sum) := by
  suffices hloop : ∀ state : List ReportRun × Nat,
      bundles.foldl (fun state bundle => bundle.runs.foldl (fun (runs, excluded) run =>
          let (counted, more) := countRun sourcePath run
          (runs ++ [counted], excluded + more)) state) state =
        (state.1 ++ (runsOf bundles).map fun run => (countRun sourcePath run).1,
          state.2 + ((runsOf bundles).map fun run => (countRun sourcePath run).2).sum) by
    simpa [gather] using hloop ([], 0)
  intro state
  induction bundles generalizing state with
  | nil => simp [runsOf]
  | cons bundle bundles ih =>
      rw [List.foldl_cons, ih, foldl_countRun]
      simp [runsOf, List.append_assoc, Nat.add_assoc]

theorem countRun_evidence (run : RunEvidence) : (countRun sourcePath run).1.evidence = run := by
  unfold countRun
  split
  · rfl
  · split <;> rfl

def countedGoals (sourcePath : Text → Text → Option Text) (run : RunEvidence) : List Goal :=
  (countRun sourcePath run).1.goals

def runChecks (unicode : Unicode) (run : RunEvidence) : List Property :=
  ((propertyEvidence unicode run.proofLog run.proofStatus).map Prod.fst).getD []

/-- `int` reads the numbers in the log of the run. -/
def RunEvidence.IsReadable (unicode : Unicode) (run : RunEvidence) : Prop :=
  (propertyEvidence unicode run.proofLog run.proofStatus).isSome = true

/-- The loop over the properties fails exactly if a log cannot be read. -/
private theorem foldlM_addRunChecks (runs : List ReportRun) (state : EvidenceMap × List Text) :
    ((∀ run ∈ runs, run.evidence.IsReadable unicode) ∧
        ∃ errors, errors.length = state.2.length + runs.length ∧
        runs.foldlM (addRunChecks unicode sourcePath) state =
          some (runs.foldl (fun mapped run =>
            addChecks sourcePath mapped run (runChecks unicode run.evidence)) state.1, errors)) ∨
      ((¬∀ run ∈ runs, run.evidence.IsReadable unicode) ∧
        runs.foldlM (addRunChecks unicode sourcePath) state = none) := by
  induction runs generalizing state with
  | nil => exact .inl ⟨by simp, state.2, rfl, rfl⟩
  | cons run runs ih =>
      rw [List.foldlM_cons]
      cases hevidence : propertyEvidence unicode run.evidence.proofLog run.evidence.proofStatus with
      | none =>
          refine .inr ⟨?_, ?_⟩
          · intro h
            have hreadable := h run List.mem_cons_self
            rw [RunEvidence.IsReadable, hevidence] at hreadable
            cases hreadable
          · rw [addRunChecks, hevidence]
            rfl
      | some evidence =>
          have hchecks : runChecks unicode run.evidence = evidence.1 := by
            rw [runChecks, hevidence]
            rfl
          have hreadable : run.evidence.IsReadable unicode := by
            rw [RunEvidence.IsReadable, hevidence]
            rfl
          have hstep : addRunChecks unicode sourcePath state run =
              some (addChecks sourcePath state.1 run evidence.1, state.2 ++ [evidence.2]) := by
            rw [addRunChecks, hevidence]
            rfl
          rw [hstep, List.foldl_cons, hchecks]
          refine (ih (addChecks sourcePath state.1 run evidence.1, state.2 ++ [evidence.2])).imp ?_ ?_
          · rintro ⟨hall, errors, hlength, hrun⟩
            refine ⟨List.forall_mem_cons.mpr ⟨hreadable, hall⟩, errors, ?_, hrun⟩
            rw [hlength, List.length_append, List.length_singleton, List.length_cons]
            omega
          · rintro ⟨hnot, hrun⟩
            exact ⟨fun h => hnot (List.forall_mem_cons.mp h).2, hrun⟩

def gatheredMap (unicode : Unicode) (root : Text) (sourcePath : Text → Text → Option Text)
    (found : List FoundPath) (runs : List RunEvidence) : EvidenceMap :=
  let counted := runs.map fun run => (countRun sourcePath run).1
  found.foldl (addFile root sourcePath) <|
    counted.foldl (fun mapped run =>
      addChecks sourcePath mapped run (runChecks unicode run.evidence)) <|
    counted.foldl (addGoals sourcePath) .empty

/-- A report is written exactly if `int` reads all numbers. -/
theorem aggregate_spec (found : List FoundPath) (bundles : List EvidenceBundle) :
    ((∀ run ∈ runsOf bundles, run.IsReadable unicode) ∧
        ∃ errors, errors.length = (runsOf bundles).length ∧
        aggregate unicode root sourcePath found bundles =
          some ⟨(runsOf bundles).map fun run => (countRun sourcePath run).1,
            ((runsOf bundles).map fun run => (countRun sourcePath run).2).sum, errors,
            gatheredMap unicode root sourcePath found (runsOf bundles)⟩) ∨
      ((¬∀ run ∈ runsOf bundles, run.IsReadable unicode) ∧
        aggregate unicode root sourcePath found bundles = none) := by
  have hall : (∀ run ∈ (runsOf bundles).map (fun run => (countRun sourcePath run).1),
      run.evidence.IsReadable unicode) ↔ ∀ run ∈ runsOf bundles, run.IsReadable unicode := by
    simp [countRun_evidence]
  unfold aggregate
  rw [gather_eq, ← hall]
  rcases @foldlM_addRunChecks unicode sourcePath
    ((runsOf bundles).map fun run => (countRun sourcePath run).1)
    (((runsOf bundles).map fun run => (countRun sourcePath run).1).foldl (addGoals sourcePath) .empty,
      []) with ⟨hreadable, errors, hlength, hrun⟩ | ⟨hnot, hrun⟩
  · refine .inl ⟨hreadable, errors, by simpa using hlength, ?_⟩
    dsimp only
    rw [hrun]
    rfl
  · refine .inr ⟨hnot, ?_⟩
    dsimp only
    rw [hrun]
    rfl

end Gathering

section Weights

variable {M : Type} [AddCommMonoid M]

/-- The sum of what the entries of a map weigh. -/
def weighMap (weight : Text → Int → Entry → M) (mapped : EvidenceMap) : M :=
  mapped.weigh fun filename lines =>
    lines.weigh fun line entries => (entries.map (weight filename line)).sum

variable (weight : Text → Int → Entry → M)

/-- What an entry adds to the map, if it has a file. -/
def entryWeight (filename : Option Text) (entry : Entry) : M :=
  match filename with
  | none => 0
  | some filename => weight filename entry.2.line entry

theorem weighMap_addEvidence (mapped : EvidenceMap) (filename : Option Text) (entry : Entry) :
    weighMap weight (addEvidence mapped filename entry) =
      weighMap weight mapped + entryWeight weight filename entry := by
  cases filename with
  | none => exact (add_zero _).symm
  | some filename =>
      unfold addEvidence weighMap
      apply Dictionary.weigh_access
      · rfl
      · intro lines
        apply Dictionary.weigh_access
        · rfl
        · intro entries
          rw [List.map_append, List.sum_append, List.map_singleton, List.sum_singleton]
          rfl

variable (unicode : Unicode) (sourcePath : Text → Text → Option Text)

/-- What the goals of a run add. -/
def goalsWeight (run : RunEvidence) : M :=
  ((countedGoals sourcePath run).map fun goal =>
    entryWeight weight (goalFile sourcePath run goal) (run, .goal goal)).sum

/-- What the properties of a run add. -/
def checksWeight (run : RunEvidence) : M :=
  ((runChecks unicode run).map fun check =>
    entryWeight weight (checkFile sourcePath run check) (run, .check check)).sum

variable {unicode sourcePath}

theorem weighMap_addFile (root : Text) (mapped : EvidenceMap) (found : FoundPath) :
    weighMap weight (addFile root sourcePath mapped found) = weighMap weight mapped := by
  unfold addFile
  split
  · rfl
  · split
    · exact Dictionary.weigh_setDefault _ rfl
    · rfl

/-- The map weighs what the runs add in both passes. -/
theorem weighMap_gatheredMap (root : Text) (found : List FoundPath) (runs : List RunEvidence) :
    weighMap weight (gatheredMap unicode root sourcePath found runs) =
      (runs.map (goalsWeight weight sourcePath)).sum +
        (runs.map (checksWeight weight unicode sourcePath)).sum := by
  have hgoals : ∀ mapped (run : ReportRun), weighMap weight (addGoals sourcePath mapped run) =
      weighMap weight mapped + (run.goals.map fun goal =>
        entryWeight weight (goalFile sourcePath run.evidence goal) (run.evidence, .goal goal)).sum :=
    fun mapped run => measure_foldl (fun mapped goal => weighMap_addEvidence weight mapped
      (goalFile sourcePath run.evidence goal) (run.evidence, .goal goal)) _ _
  have hchecks : ∀ mapped (run : ReportRun),
      weighMap weight (addChecks sourcePath mapped run (runChecks unicode run.evidence)) =
        weighMap weight mapped + checksWeight weight unicode sourcePath run.evidence :=
    fun mapped run => measure_foldl (fun mapped check => weighMap_addEvidence weight mapped
      (checkFile sourcePath run.evidence check) (run.evidence, .check check)) _ _
  have hfiles : ∀ mapped (path : FoundPath), weighMap weight (addFile root sourcePath mapped path) =
      weighMap weight mapped + 0 := by
    intro mapped path
    rw [add_zero]
    exact weighMap_addFile weight root mapped path
  unfold gatheredMap
  dsimp only
  rw [measure_foldl hfiles, measure_foldl hchecks, measure_foldl hgoals]
  have hempty : weighMap weight .empty = 0 := rfl
  rw [hempty, zero_add]
  simp only [List.map_map, Function.comp_def, countRun_evidence, List.map_const', List.sum_replicate,
    nsmul_zero, add_zero]
  rfl

/-- An entry of a line of a file. -/
def Holds (mapped : EvidenceMap) (filename : Text) (line : Int) (entry : Entry) : Prop :=
  ∃ lines entries, (filename, lines) ∈ mapped.items ∧ (line, entries) ∈ lines.items ∧ entry ∈ entries

theorem weight_eq_zero {weight : Text → Int → Entry → Nat} {mapped : EvidenceMap}
    (hzero : weighMap weight mapped = 0) {filename : Text} {line : Int} {entry : Entry}
    (hentry : Holds mapped filename line entry) : weight filename line entry = 0 := by
  obtain ⟨lines, entries, hlines, hentries, hmem⟩ := hentry
  unfold weighMap Dictionary.weigh at hzero
  have hfile := List.sum_eq_zero_iff_forall_eq_nat.mp hzero _ (List.mem_map_of_mem hlines)
  have hline := List.sum_eq_zero_iff_forall_eq_nat.mp hfile _ (List.mem_map_of_mem hentries)
  exact List.sum_eq_zero_iff_forall_eq_nat.mp hline _ (List.mem_map_of_mem hmem)

/-- A sum that is positive has an entry that weighs something. -/
theorem exists_holds {weight : Text → Int → Entry → Nat} {mapped : EvidenceMap}
    (hpos : 0 < weighMap weight mapped) :
    ∃ filename line entry, Holds mapped filename line entry ∧ 0 < weight filename line entry := by
  unfold weighMap Dictionary.weigh at hpos
  obtain ⟨_, hfile, hpos⟩ := List.sum_pos_iff_exists_pos_nat.mp hpos
  obtain ⟨⟨filename, lines⟩, hlines, rfl⟩ := List.mem_map.mp hfile
  obtain ⟨_, hline, hpos⟩ := List.sum_pos_iff_exists_pos_nat.mp hpos
  obtain ⟨⟨line, entries⟩, hentries, rfl⟩ := List.mem_map.mp hline
  obtain ⟨_, hentry, hpos⟩ := List.sum_pos_iff_exists_pos_nat.mp hpos
  obtain ⟨entry, hmem, rfl⟩ := List.mem_map.mp hentry
  exact ⟨filename, line, entry, ⟨lines, entries, hlines, hentries, hmem⟩, hpos⟩

/-- What holds of all evidence of the runs holds of all entries of the map. -/
theorem forall_entries {P : Text → Int → Entry → Prop} {root : Text} {found : List FoundPath}
    {runs : List RunEvidence}
    (hgoals : ∀ run ∈ runs, ∀ goal ∈ countedGoals sourcePath run,
      ∀ filename ∈ goalFile sourcePath run goal, P filename goal.line (run, .goal goal))
    (hchecks : ∀ run ∈ runs, ∀ check ∈ runChecks unicode run,
      ∀ filename ∈ checkFile sourcePath run check, P filename check.line (run, .check check))
    {filename : Text} {line : Int} {entry : Entry}
    (hentry : Holds (gatheredMap unicode root sourcePath found runs) filename line entry) :
    P filename line entry := by
  classical
  -- Count the entries for which `P` fails.
  have hweight : ∀ (file : Option Text) (entry : Entry),
      (∀ filename ∈ file, P filename entry.2.line entry) →
        entryWeight (fun filename line entry => if P filename line entry then 0 else 1) file entry =
          0 := by
    intro file entry h
    cases file with
    | none => rfl
    | some filename => exact if_pos (h filename rfl)
  have hzero : weighMap (fun filename line entry => if P filename line entry then 0 else 1)
      (gatheredMap unicode root sourcePath found runs) = 0 := by
    rw [weighMap_gatheredMap, Nat.add_eq_zero_iff, List.sum_eq_zero_iff_forall_eq_nat,
      List.sum_eq_zero_iff_forall_eq_nat]
    constructor
    · intro n hn
      obtain ⟨run, hrun, rfl⟩ := List.mem_map.mp hn
      apply List.sum_eq_zero_iff_forall_eq_nat.mpr
      intro m hm
      obtain ⟨goal, hgoal, rfl⟩ := List.mem_map.mp hm
      exact hweight _ _ (hgoals run hrun goal hgoal)
    · intro n hn
      obtain ⟨run, hrun, rfl⟩ := List.mem_map.mp hn
      apply List.sum_eq_zero_iff_forall_eq_nat.mpr
      intro m hm
      obtain ⟨check, hcheck, rfl⟩ := List.mem_map.mp hm
      exact hweight _ _ (hchecks run hrun check hcheck)
  have hone := weight_eq_zero hzero hentry
  by_contra hnot
  rw [if_neg hnot] at hone
  cases hone

end Weights

end AdaptivePi.Report
