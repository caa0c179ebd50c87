import AdaptivePi.Foundation.FixedText
import AdaptivePi.Report.TotalsConserved

/-!
The metrics of a report. Their colours compare the percentage as it is, but the
text has it rounded to one decimal, so that a ratio short of full by no more than
one in two thousand is shown as full.
-/

namespace AdaptivePi.Report

open Foundation Foundation.PythonText

def Level.name : Level → Text
  | .none => []
  | .low => "low".toList
  | .unknown => "unknown".toList
  | .medium => "medium".toList
  | .high => "high".toList

/-- `percentage`, as an exact number. -/
def percentage (covered total : Nat) : ℚ := covered * 100 / total

/-- `percentage`, as the quotient of two integers is. -/
def floatPercentage (covered total : Nat) : ℚ := FloatFormat.binary64.nearest (percentage covered total)

def percentageLevel (percentage : ℚ) : Level :=
  if 90 ≤ percentage then .high else if 75 ≤ percentage then .medium else .low

def openSpan (level : Level) : Text := "<span class=\"".toList ++ level.name ++ "\">".toList

/-- `ratio`, for either percentage. -/
def ratio (percentage : Nat → Nat → ℚ) (covered total : Nat) : Text :=
  if total = 0 then "<span class=\"unknown\">N/A (0 goals)</span>".toList
  else
    let percentage := percentage covered total
    openSpan (percentageLevel percentage) ++ Nat.toDigits 10 covered ++ " / ".toList ++
      Nat.toDigits 10 total ++ " (".toList ++ fixedText 1 percentage ++ "%)</span>".toList ++
      "<meter min=\"0\" max=\"".toList ++ Nat.toDigits 10 total ++ "\" value=\"".toList ++
      Nat.toDigits 10 covered ++ "\"></meter>".toList

/-- A half of a tenth is rounded to even, but the quotient is a little larger. -/
example : ratio percentage 1 2000 = ("<span class=\"low\">1 / 2000 (0.0%)</span>".toList ++
      "<meter min=\"0\" max=\"2000\" value=\"1\"></meter>".toList) ∧
    ratio floatPercentage 1 2000 = ("<span class=\"low\">1 / 2000 (0.1%)</span>".toList ++
      "<meter min=\"0\" max=\"2000\" value=\"1\"></meter>".toList) := by
  decide +kernel

section Metrics

variable (percentage : Nat → Nat → ℚ)

def noBranchGoals : Text := "<span class=\"unknown\">No branch goals</span>".toList

def unavailable : Text := "<span class=\"unknown\">Unavailable</span>".toList

def branchMetric (branches : Tally) : Text :=
  if branches.2 = 0 then noBranchGoals else ratio percentage branches.1 branches.2

def rowMetrics (row : TotalsRow) : List Text :=
  [branchMetric percentage row.branches, ratio percentage row.checks.1 row.checks.2]

def runMetric (run : ReportRun) : Text :=
  match run.coverage with
  | none => unavailable
  | some coverage => ratio percentage coverage.covered coverage.total

/-- All metrics that are printed: overall, for the components, for the runs and
for the files. -/
def ReportData.metrics (data : ReportData) : List Text :=
  [ratio percentage data.checks.1 data.checks.2, ratio percentage data.branches.1 data.branches.2] ++
    data.componentRows.flatMap (rowMetrics percentage) ++ data.runs.map (runMetric percentage) ++
    data.fileRows.flatMap (rowMetrics percentage)

/-- The metric is that of some claims of which some are covered, or a remark that
there are none. -/
def IsMetric (metric : Text) : Prop :=
  metric = noBranchGoals ∨ metric = unavailable ∨
    ∃ covered total, covered ≤ total ∧ metric = ratio percentage covered total

variable {unicode : Unicode} {root : Text} {sourcePath : Text → Text → Option Text}
  {found : List FoundPath} {bundles : List EvidenceBundle} {data : ReportData}

theorem tally_le (select : ReportClaim → Bool) (claims : List ReportClaim) :
    (tally select claims).1 ≤ (tally select claims).2 :=
  List.countP_le_length

theorem isMetric_of_mem_rowMetrics {name : Text} {claims : List ReportClaim} {metric : Text}
    (hmetric : metric ∈ rowMetrics percentage (totalsRow name claims)) :
    IsMetric percentage metric := by
  rcases List.mem_cons.mp hmetric with rfl | hchecks
  · unfold branchMetric
    split
    · exact .inl rfl
    · exact .inr (.inr ⟨_, _, tally_le isBranch claims, rfl⟩)
  · obtain rfl := List.mem_singleton.mp hchecks
    exact .inr (.inr ⟨_, _, tally_le ReportClaim.isProperty claims, rfl⟩)

/-- No metric of a report has more covered than there are. -/
theorem isMetric_of_mem_metrics (h : aggregate unicode root sourcePath found bundles = some data)
    {metric : Text} (hmetric : metric ∈ data.metrics percentage) : IsMetric percentage metric := by
  obtain ⟨-, hruns, -, -⟩ := aggregate_eq_some h
  unfold ReportData.metrics at hmetric
  simp only [List.mem_append, List.mem_flatMap, List.mem_map, List.mem_cons,
    List.not_mem_nil, or_false] at hmetric
  rcases hmetric with (((rfl | rfl) | ⟨row, hrow, hmetric⟩) | ⟨run, hrun, rfl⟩) |
      ⟨row, hrow, hmetric⟩
  · exact .inr (.inr ⟨_, _, List.countP_le_length, rfl⟩)
  · refine .inr (.inr ⟨_, _, ?_, rfl⟩)
    rw [branches_eq data hruns]
    exact List.countP_le_length
  · obtain ⟨item, -, rfl⟩ := List.mem_map.mp hrow
    exact isMetric_of_mem_rowMetrics percentage hmetric
  · rw [hruns] at hrun
    obtain ⟨evidence, -, rfl⟩ := List.mem_map.mp hrun
    unfold runMetric
    split
    · exact .inr (.inl rfl)
    · rename_i coverage hcoverage
      obtain ⟨hcovered, htotal⟩ := countRun_coverage evidence coverage hcoverage
      exact .inr (.inr ⟨_, _, by rw [hcovered, htotal]; exact List.countP_le_length, rfl⟩)
  · obtain ⟨item, -, rfl⟩ := List.mem_map.mp hrow
    exact isMetric_of_mem_rowMetrics percentage hmetric

end Metrics

section Faithful

/-- The metric is shown as full exactly if all are covered, and its colour is that
of the exact ratio. -/
structure IsFaithful (covered total : Nat) : Prop where
  full : "100.0%".toList <:+: ratio percentage covered total ↔ covered = total
  high : openSpan .high <+: ratio percentage covered total ↔ 9 * total ≤ 10 * covered
  low : openSpan .low <+: ratio percentage covered total ↔ 4 * covered < 3 * total

variable {covered total : Nat}

theorem percentage_nonneg : 0 ≤ percentage covered total := by
  unfold percentage
  positivity

theorem percentage_le (hle : covered ≤ total) (hpos : 0 < total) : percentage covered total ≤ 100 := by
  have hle' : (covered : ℚ) ≤ total := by exact_mod_cast hle
  rw [percentage, div_le_iff₀ (by exact_mod_cast hpos)]
  linarith

/-- Bounds of the percentage, in whole numbers. -/
theorem le_percentage_iff {bound : Nat} (hpos : 0 < total) :
    (bound : ℚ) ≤ percentage covered total ↔ bound * total ≤ covered * 100 := by
  rw [percentage, le_div_iff₀ (by exact_mod_cast hpos)]
  exact_mod_cast Iff.rfl

theorem Level.name_injective {level level' : Level} (h : level.name = level'.name) :
    level = level' := by
  cases level <;> cases level' <;> first | rfl | exact absurd h (by decide)

/-- A span starts with its own class only. -/
theorem openSpan_prefix_iff {level level' : Level} {rest : Text} :
    openSpan level <+: openSpan level' ++ rest ↔ level' = level := by
  constructor
  · rintro ⟨after, h⟩
    have hquote : ∀ level : Level, '"' ∉ level.name := by
      intro level
      cases level <;> decide
    unfold openSpan at h
    simp only [List.append_assoc] at h
    exact Level.name_injective
      (append_cons_inj_left (hquote _) (hquote _) (List.append_cancel_left h)).1.symm
  · rintro rfl
    exact List.prefix_append _ _

/-- A metric has the class of its level. -/
theorem openSpan_prefix_ratio_iff (hpos : 0 < total) {level : Level} :
    openSpan level <+: ratio percentage covered total ↔
      percentageLevel (percentage covered total) = level := by
  unfold ratio
  rw [if_neg hpos.ne']
  simp only [List.append_assoc]
  exact openSpan_prefix_iff

/-- At least nine of ten. -/
theorem percentageLevel_eq_high (hpos : 0 < total) :
    percentageLevel (percentage covered total) = .high ↔ 9 * total ≤ 10 * covered := by
  have hhigh : 90 ≤ percentage covered total ↔ 90 * total ≤ covered * 100 := le_percentage_iff hpos
  have hscale : 90 * total ≤ covered * 100 ↔ 9 * total ≤ 10 * covered := by omega
  rw [← hscale, ← hhigh]
  unfold percentageLevel
  split_ifs <;> simp_all

theorem percentageLevel_eq_low (hpos : 0 < total) :
    percentageLevel (percentage covered total) = .low ↔ 4 * covered < 3 * total := by
  have hmedium : 75 ≤ percentage covered total ↔ 75 * total ≤ covered * 100 :=
    le_percentage_iff hpos
  have hscale : ¬75 * total ≤ covered * 100 ↔ 4 * covered < 3 * total := by omega
  rw [← hscale, ← hmedium]
  unfold percentageLevel
  split_ifs with hhigh hmiddle
  · have hmiddle : (75 : ℚ) ≤ percentage covered total := by linarith
    simp [hmiddle]
  · simp [hmiddle]
  · simp [hmiddle]

/-- The text is full from half a tenth of a percent below. -/
theorem fixedText_percentage_iff (hle : covered ≤ total) (hpos : 0 < total) :
    fixedText 1 (percentage covered total) = "100.0".toList ↔ 2000 * (total - covered) ≤ total := by
  have hfull : roundHalfEven (100 * 10 ^ 1) = 1000 :=
    (roundHalfEven_eq_iff (by norm_num) (by norm_num)).mpr (by norm_num)
  have htext : fixedText 1 100 = "100.0".toList := by
    rw [fixedText, hfull]
    rfl
  have hnonneg : 0 ≤ percentage covered total * 10 ^ 1 := by
    have hpercentage := @percentage_nonneg covered total
    positivity
  have hupper := percentage_le hle hpos
  have hlower : (1000 : ℚ) ≤ percentage covered total * 10 ^ 1 + 1 / 2 ↔
      2000 * (total - covered) ≤ total := by
    have hscale : (1000 : ℚ) ≤ percentage covered total * 10 ^ 1 + 1 / 2 ↔
        (1999 / 20 : ℚ) ≤ percentage covered total := by
      constructor <;> intro h <;> linarith
    rw [hscale, percentage, le_div_iff₀ (by exact_mod_cast hpos)]
    have hnat : 1999 * total ≤ 2000 * covered ↔ 2000 * (total - covered) ≤ total := by omega
    rw [← hnat]
    have hcast : (1999 * total ≤ 2000 * covered) ↔ (1999 * (total : ℚ) ≤ 2000 * covered) := by
      exact_mod_cast Iff.rfl
    rw [hcast]
    constructor <;> intro h <;> linarith
  rw [← htext, fixedText_eq_iff, hfull, roundHalfEven_eq_iff hnonneg (by norm_num), ← hlower]
  push_cast
  refine and_iff_left ?_
  linarith

/-- What is before and after the only `%` of a metric. -/
theorem ratio_eq (hpos : 0 < total) : ∃ head rest, ratio percentage covered total =
    (head ++ '(' :: fixedText 1 (percentage covered total)) ++ '%' :: rest ∧
      '%' ∉ head ∧ '%' ∉ rest := by
  have hdigits : ∀ n, '%' ∉ Nat.toDigits 10 n :=
    fun n hmem => absurd (isDigit_of_mem_toDigits_ten hmem) (by decide)
  refine ⟨openSpan (percentageLevel (percentage covered total)) ++ Nat.toDigits 10 covered ++
      " / ".toList ++ Nat.toDigits 10 total ++ " ".toList, ")</span>".toList ++
      "<meter min=\"0\" max=\"".toList ++ Nat.toDigits 10 total ++ "\" value=\"".toList ++
      Nat.toDigits 10 covered ++ "\"></meter>".toList, ?_, ?_, ?_⟩
  · unfold ratio
    rw [if_neg hpos.ne']
    simp only [List.append_assoc]
    rfl
  · have hspan : ∀ level, '%' ∉ openSpan level := by
      intro level
      cases level <;> decide
    simp [hspan, hdigits]
  · simp [hdigits]

/-- The percentage is a text of its own, and no longer than that of 100. -/
theorem suffix_percentage_iff {head word text : Text} (hbracket : '(' ∉ word)
    (hlength : text.length ≤ word.length) : word <:+ head ++ '(' :: text ↔ text = word := by
  constructor
  · intro hsuffix
    have htail : '(' :: text <:+ head ++ '(' :: text := List.suffix_append _ _
    rcases List.suffix_or_suffix_of_suffix hsuffix htail with hshort | hlong
    · rcases List.suffix_cons_iff.mp hshort with heq | hinside
      · exact absurd (heq ▸ List.mem_cons_self) hbracket
      · exact (hinside.eq_of_length_le hlength).symm
    · exact absurd (hlong.subset List.mem_cons_self) hbracket
  · rintro rfl
    exact (List.suffix_cons _ _).trans (List.suffix_append _ _)

/-- A metric is shown as full if no more than one in two thousand is missing. -/
theorem shows_full_iff (hle : covered ≤ total) (hpos : 0 < total) :
    "100.0%".toList <:+: ratio percentage covered total ↔ 2000 * (total - covered) ≤ total := by
  obtain ⟨head, rest, hratio, hhead, hrest⟩ := @ratio_eq covered total hpos
  have hpercent : '%' ∉ head ++ '(' :: fixedText 1 (percentage covered total) := by
    intro hmem
    rcases List.mem_append.mp hmem with hmem | hmem
    · exact hhead hmem
    · rcases List.mem_cons.mp hmem with heq | hmem
      · exact absurd heq (by decide)
      · rcases mem_fixedText hmem with hdigit | hpoint
        · exact absurd hdigit (by decide)
        · exact absurd hpoint (by decide)
  have hlength : (fixedText 1 (percentage covered total)).length ≤ "100.0".toList.length := by
    have hscaled : roundHalfEven (percentage covered total * 10 ^ 1) ≤ 1000 := by
      have hnonneg := @percentage_nonneg covered total
      have hupper := percentage_le hle hpos
      apply roundHalfEven_le (by positivity)
      push_cast
      linarith
    exact @fixedText_length_le 1 3 _ (by decide) (by decide) (by omega)
  rw [hratio, ← fixedText_percentage_iff hle hpos]
  exact (@snoc_occurs_iff _ _ "100.0".toList _ _ (by decide) hpercent hrest).trans
    (suffix_percentage_iff (by decide) hlength)

/-- The colours agree with the ratio always, the text unless the ratio is nearly
full. -/
theorem isFaithful_iff (hle : covered ≤ total) (hpos : 0 < total) :
    IsFaithful covered total ↔ covered = total ∨ total < 2000 * (total - covered) := by
  constructor
  · intro hfaithful
    by_cases heq : covered = total
    · exact .inl heq
    · refine .inr (Nat.lt_of_not_le fun hnear => heq ?_)
      exact hfaithful.full.mp ((shows_full_iff hle hpos).mpr hnear)
  · intro hcondition
    refine ⟨?_, ?_, ?_⟩
    · rw [shows_full_iff hle hpos]
      omega
    · rw [openSpan_prefix_ratio_iff hpos, percentageLevel_eq_high hpos]
    · rw [openSpan_prefix_ratio_iff hpos, percentageLevel_eq_low hpos]

end Faithful

/-- All metrics are ratios of what is covered and what there is, and of these the
faithful ones are those that are full or short of it by more than one in two
thousand. -/
theorem metrics_faithful_iff (unicode : Unicode) (root : Text)
    (sourcePath : Text → Text → Option Text) :
    (∀ covered total, covered ≤ total → 0 < total →
      (IsFaithful covered total ↔ covered = total ∨ total < 2000 * (total - covered))) ∧
    ∀ found bundles data, aggregate unicode root sourcePath found bundles = some data →
      ∀ divide, ∀ metric ∈ data.metrics divide, IsMetric divide metric :=
  ⟨fun _ _ hle hpos => isFaithful_iff hle hpos,
    fun _ _ _ h divide _ hmetric => isMetric_of_mem_metrics divide h hmetric⟩

/-- One of ten thousand goals is missing, and the metric is shown as full. -/
theorem ratio_shows_full :
    ratio percentage 9999 10000 = ("<span class=\"high\">9999 / 10000 (100.0%)</span>".toList ++
      "<meter min=\"0\" max=\"10000\" value=\"9999\"></meter>".toList) ∧
    ¬IsFaithful 9999 10000 := by
  refine ⟨by decide +kernel, fun hfaithful => ?_⟩
  have heq := hfaithful.full.mp ((shows_full_iff (by decide) (by decide)).mpr (by decide))
  exact absurd heq (by decide)

end AdaptivePi.Report
