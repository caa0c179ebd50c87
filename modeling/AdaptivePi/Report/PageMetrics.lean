import AdaptivePi.Report.PageLinks

namespace AdaptivePi.Report

open Foundation Foundation.PythonText
open Foundation.Html (values)

/-- The metrics are parts of the text, one after the other. -/
def Shows (metrics : List Text) (text : Text) : Prop :=
  ∃ parts : List Text, parts.flatten = text ∧ metrics.Sublist parts

namespace Shows

variable {metrics more : List Text} {text rest metric : Text}

theorem none : Shows [] text := ⟨[text], by simp, List.nil_sublist _⟩

theorem append (hleft : Shows metrics text) (hright : Shows more rest) :
    Shows (metrics ++ more) (text ++ rest) := by
  obtain ⟨parts, rfl, hparts⟩ := hleft
  obtain ⟨others, rfl, hothers⟩ := hright
  exact ⟨parts ++ others, List.flatten_append, hparts.append hothers⟩

theorem left (h : Shows metrics text) : Shows metrics (text ++ rest) := by
  have happend := h.append (@none rest)
  rwa [List.append_nil] at happend

theorem right (h : Shows metrics rest) : Shows metrics (text ++ rest) :=
  (@none text).append h

/-- The last metric is the end of the text. -/
theorem snoc (h : Shows metrics text) : Shows (metrics ++ [metric]) (text ++ metric) :=
  h.append ⟨[metric], by simp, List.Sublist.refl _⟩

theorem single : Shows [metric] (text ++ metric) := none.snoc

theorem row {stop start second : Text} :
    Shows [metric, second] (text ++ metric ++ stop ++ start ++ second) :=
  single.left.left.snoc

theorem flatMap {ι : Type} {metrics : ι → List Text} {write : ι → Text}
    (h : ∀ item, Shows (metrics item) (write item)) (items : List ι) :
    Shows (items.flatMap metrics) (items.flatMap write) := by
  induction items with
  | nil => exact none
  | cons item items ih =>
      rw [List.flatMap_cons, List.flatMap_cons]
      exact (h item).append ih

end Shows

section Text

variable {unicode : Unicode} {root : Text} {sourcePath : Text → Text → Option Text}
  {found : List FoundPath} {bundles : List PrintedBundle} {data : ReportData}

theorem shows_totalsChunk (data : ReportData) :
    Shows [ratio floatPercentage data.checks.1 data.checks.2,
      ratio floatPercentage data.branches.1 data.branches.2] (totalsChunk data) := by
  unfold totalsChunk
  iterate 5 apply Shows.left
  exact Shows.single.left.snoc

theorem shows_componentChunk (row : TotalsRow) :
    Shows (rowMetrics floatPercentage row) (componentChunk row) := by
  unfold componentChunk
  exact .left (.left .row)

theorem shows_runChunk (run : PageRun) :
    Shows [runMetric floatPercentage run.counted] (runChunk run) := by
  unfold runChunk
  iterate 18 apply Shows.left
  exact .single

theorem shows_fileChunk (surroundings : Surroundings) (file : Text × LineMap) :
    Shows (rowMetrics floatPercentage (totalsRow file.1 (lineClaims file.2)))
      (fileChunk surroundings file) := by
  unfold fileChunk
  dsimp only
  iterate 5 apply Shows.left
  exact .row

/-- The runs on the page are those that were counted. -/
theorem counted_pageRuns
    (h : aggregate unicode root sourcePath found (bundles.map PrintedBundle.evidence) = some data) :
    (pageRuns bundles data).map PageRun.counted = data.runs := by
  have hprinted : (runsOf (bundles.map PrintedBundle.evidence)).length =
      (bundles.flatMap (·.runs)).length := by
    unfold runsOf PrintedBundle.evidence
    simp [List.flatMap_map, List.length_flatMap]
  have hlengths : data.runs.length = (bundles.flatMap (·.runs)).length ∧
      data.propertyErrors.length = data.runs.length := by
    rcases @aggregate_spec unicode root sourcePath found (bundles.map PrintedBundle.evidence) with
      ⟨-, errors, herrors, hsome⟩ | ⟨-, hnone⟩
    · rw [h] at hsome
      obtain rfl := Option.some.inj hsome
      simp only [List.length_map]
      exact ⟨hprinted, herrors⟩
    · rw [h] at hnone
      cases hnone
  have hcounted : (pageRuns bundles data).map PageRun.counted =
      (((bundles.flatMap (·.runs)).zip (data.runs.zip data.propertyErrors)).map Prod.snd).map Prod.fst := by
    unfold pageRuns
    rw [List.map_map, List.map_map]
    rfl
  rw [hcounted, List.map_snd_zip, List.map_fst_zip]
  · rw [hlengths.2]
  · rw [List.length_zip, hlengths.1]
    exact Nat.min_le_left _ _

/-- The metrics stand in the page. -/
theorem shows_metrics
    (h : aggregate unicode root sourcePath found (bundles.map PrintedBundle.evidence) = some data)
    (surroundings : Surroundings) :
    Shows (data.metrics floatPercentage)
      ("\n".toList.intercalate (chunks surroundings (pageRuns bundles data) data)) := by
  have hchunks : ∀ {ι : Type} {metrics : ι → List Text} {write : ι → Text},
      (∀ item, Shows (metrics item) (write item)) → ∀ items : List ι,
        Shows (items.flatMap metrics) (onNewLines (items.map write)) := by
    intro ι metrics write hitem items
    unfold onNewLines
    rw [List.flatMap_map]
    exact Shows.flatMap (fun item => @Shows.right _ ['\n'] _ (hitem item)) items
  have hcomponents := hchunks shows_componentChunk data.componentRows
  have hruns := hchunks shows_runChunk (pageRuns bundles data)
  have hfiles := hchunks (shows_fileChunk surroundings) (sortedItems data.mapped)
  have hmetrics : data.metrics floatPercentage =
      [ratio floatPercentage data.checks.1 data.checks.2,
        ratio floatPercentage data.branches.1 data.branches.2] ++
      (data.componentRows.flatMap (rowMetrics floatPercentage) ++
      ((pageRuns bundles data).flatMap (fun run => [runMetric floatPercentage run.counted]) ++
      (sortedItems data.mapped).flatMap fun file =>
        rowMetrics floatPercentage (totalsRow file.1 (lineClaims file.2)))) := by
    unfold ReportData.metrics ReportData.fileRows
    rw [← counted_pageRuns h, List.flatMap_map, List.map_map, List.map_eq_flatMap]
    simp only [List.append_assoc]
    rfl
  rw [hmetrics]
  unfold chunks
  simp only [List.cons_append, List.nil_append]
  rw [intercalate_eq_onNewLines]
  simp only [onNewLines_append, onNewLines_cons, onNewLines_nil, List.nil_append, List.append_assoc]
  iterate 4 apply Shows.right
  apply (shows_totalsChunk data).append
  iterate 7 apply Shows.right
  apply hcomponents.append
  iterate 4 apply Shows.right
  apply hruns.append
  iterate 2 apply Shows.right
  exact hfiles.left

end Text

section Meters

/-- What is counted for the metrics: what is covered, and what there is. -/
def ReportData.tallies (data : ReportData) : List Tally :=
  [data.checks, data.branches] ++ data.componentRows.flatMap (fun row => [row.branches, row.checks]) ++
    data.runs.flatMap runTally ++ data.fileRows.flatMap fun row => [row.branches, row.checks]

/-- A metric has a meter unless there is nothing to cover. -/
def ReportData.metered (data : ReportData) : List Tally := data.tallies.filter (·.2 ≠ 0)

variable {data : ReportData} {runs : List PageRun} {key : String}

theorem flatMap_meterValues (tallies : List Tally) :
    tallies.flatMap (meterValues "max") = (tallies.filter (·.2 ≠ 0)).map (fun tally => number tally.2) ∧
      tallies.flatMap (meterValues "value") =
        (tallies.filter (·.2 ≠ 0)).map fun tally => number tally.1 := by
  induction tallies with
  | nil => exact ⟨rfl, rfl⟩
  | cons tally tallies ih =>
      rw [List.flatMap_cons, List.flatMap_cons, ih.1, ih.2]
      by_cases hnone : tally.2 = 0
      · simp [meterValues, hnone]
      · simp [meterValues, hnone]

/-- The meters of a document are those of the counted runs. -/
theorem values_document_meter (hkey : key = "max" ∨ key = "value") (surroundings : Surroundings)
    (hruns : runs.map PageRun.counted = data.runs) :
    (document surroundings runs data).values key = data.tallies.flatMap (meterValues key) := by
  have hlink : ∀ id, idValues key id = [] ∧ linkValues key id = [] := by
    intro id
    unfold idValues linkValues
    rcases hkey with rfl | rfl <;> simp
  have hsection : ∀ file, sectionValues key surroundings file = [] := by
    intro file
    unfold sectionValues
    simp [hlink]
  have hkeys : IsKey key := .inr (.inr hkey)
  have hrow : rowValues key = fun row => meterValues key row.branches ++ meterValues key row.checks := rfl
  unfold ReportData.tallies ReportData.fileRows
  rw [values_document hkeys, flatMap_eq_nil hsection, ← hruns]
  simp [hlink, List.flatMap_map, List.flatMap_assoc, hrow]

/-- The numbers of the meters are read as they are. -/
theorem meters_read (surroundings : Surroundings) (hruns : runs.map PageRun.counted = data.runs) :
    (document surroundings runs data).asRead.values "max" =
        data.metered.map (fun tally => number tally.2) ∧
      (document surroundings runs data).asRead.values "value" =
        data.metered.map fun tally => number tally.1 := by
  obtain ⟨hmax, hvalue⟩ := flatMap_meterValues data.tallies
  rw [← values_document_meter (.inl rfl) surroundings hruns] at hmax
  rw [← values_document_meter (.inr rfl) surroundings hruns] at hvalue
  constructor
  · rw [Html.values_asRead, hmax]
    · rfl
    · intro value hmem
      rw [hmax, List.mem_map] at hmem
      obtain ⟨tally, -, rfl⟩ := hmem
      exact isKeptText_number _
  · rw [Html.values_asRead, hvalue]
    · rfl
    · intro value hmem
      rw [hvalue, List.mem_map] at hmem
      obtain ⟨tally, -, rfl⟩ := hmem
      exact isKeptText_number _

end Meters

/-- The page has all metrics of its data, overall, for the components, for the runs and
for the files, in this order, and the meters that are read from it have their numbers:
no text of a log or a source makes another one. -/
theorem page_shows_metrics (unicode : Unicode) (root : Text) (sourcePath : Text → Text → Option Text)
    (found : List FoundPath) (bundles : List PrintedBundle) (surroundings : Surroundings) {text : Text}
    (htext : render unicode root sourcePath found bundles surroundings = some text) :
    ∃ data page, aggregate unicode root sourcePath found (bundles.map PrintedBundle.evidence) = some data ∧
      Html.parse text = some page ∧
      Shows (data.metrics floatPercentage) text ∧
      page.values "max" = data.metered.map (fun tally => number tally.2) ∧
      page.values "value" = data.metered.map fun tally => number tally.1 := by
  unfold render at htext
  rw [Option.map_eq_some_iff] at htext
  obtain ⟨data, hdata, rfl⟩ := htext
  obtain ⟨hmax, hvalue⟩ := meters_read surroundings (counted_pageRuns hdata)
  exact ⟨data, _, hdata, parse_chunks surroundings _ data, shows_metrics hdata surroundings, hmax, hvalue⟩

section Example

/-- The log of the run has the text of a meter. -/
def imitatingRun : PrintedRun :=
  { examplePrintedRun with coverageLog := "<meter min=\"0\" max=\"1\" value=\"1\"></meter>".toList }

/-- The text of a meter in a log counts for nothing. -/
theorem covered_imitatingRun {data : ReportData}
    (h : aggregate .ascii [] exampleSourcePath [] [⟨[imitatingRun.toRunEvidence]⟩] = some data) :
    (0, 2) ∈ data.metered ∧ ∀ tally ∈ data.metered, tally.1 = 0 := by
  obtain ⟨-, hruns, -, hmapped⟩ := aggregate_eq_some h
  have htotals : data.checks.1 = 0 ∧ data.branches = (0, 2) := by
    unfold ReportData.checks ReportData.properties ReportData.branches
    rw [hruns, hmapped]
    decide +kernel
  have hcomponents : ∀ item ∈ data.components.items,
      (tally isBranch item.2).1 = 0 ∧ (tally ReportClaim.isProperty item.2).1 = 0 := by
    unfold ReportData.components
    rw [hmapped]
    decide +kernel
  have hcounted : ∀ tally ∈ data.runs.flatMap runTally, tally.1 = 0 := by
    rw [hruns]
    decide +kernel
  have hfiles : ∀ item ∈ data.mapped.items, (tally isBranch (lineClaims item.2)).1 = 0 ∧
      (tally ReportClaim.isProperty (lineClaims item.2)).1 = 0 := by
    rw [hmapped]
    decide +kernel
  refine ⟨List.mem_filter.mpr ⟨?_, rfl⟩, fun tally htally => ?_⟩
  · unfold ReportData.tallies
    rw [htotals.2]
    simp
  have hmem := (List.mem_filter.mp htally).1
  unfold ReportData.tallies ReportData.componentRows ReportData.fileRows at hmem
  simp only [List.mem_append, List.mem_flatMap, List.mem_map, List.mem_cons, List.not_mem_nil,
    or_false, (perm_sortedItems _).mem_iff] at hmem
  rcases hmem with (((rfl | rfl) | ⟨row, ⟨item, hitem, rfl⟩, rfl | rfl⟩) | hrun) |
      ⟨row, ⟨item, hitem, rfl⟩, rfl | rfl⟩
  · exact htotals.1
  · rw [htotals.2]
  · exact (hcomponents item hitem).1
  · exact (hcomponents item hitem).2
  · exact hcounted tally (List.mem_flatMap.mpr hrun)
  · exact (hfiles item hitem).1
  · exact (hfiles item hitem).2

/-- The metrics are shown, and the log of the run adds no meter to theirs. -/
theorem page_shows_metrics_imitation : ∃ text, ∃ data : ReportData, ∃ page,
    render .ascii [] exampleSourcePath [] [⟨[imitatingRun]⟩] exampleSurroundings = some text ∧
      Html.parse text = some page ∧ Shows (data.metrics floatPercentage) text ∧
      page.values "value" = data.metered.map (fun tally => number tally.1) ∧
      "0".toList ∈ page.values "value" ∧ "1".toList ∉ page.values "value" := by
  obtain ⟨data, h⟩ := @exists_aggregate .ascii [] exampleSourcePath []
    [⟨[imitatingRun.toRunEvidence]⟩] (by
      intro run hrun
      obtain rfl := List.mem_singleton.mp hrun
      exact exampleRun_isReadable _)
  have htext : render .ascii [] exampleSourcePath [] [⟨[imitatingRun]⟩] exampleSurroundings =
      some ("\n".toList.intercalate
        (chunks exampleSurroundings (pageRuns [⟨[imitatingRun]⟩] data) data)) :=
    Option.map_eq_some_iff.mpr ⟨data, h, rfl⟩
  obtain ⟨data', page, h', hpage, hshows, -, hvalue⟩ :=
    page_shows_metrics .ascii [] exampleSourcePath [] [⟨[imitatingRun]⟩] exampleSurroundings htext
  obtain ⟨hbranches, hcovered⟩ := covered_imitatingRun h'
  refine ⟨_, data', page, htext, hpage, hshows, hvalue, ?_, ?_⟩
  · rw [hvalue]
    exact List.mem_map.mpr ⟨_, hbranches, rfl⟩
  · intro hone
    rw [hvalue, List.mem_map] at hone
    obtain ⟨tally, htally, hnumber⟩ := hone
    rw [hcovered tally htally] at hnumber
    exact absurd hnumber (by decide)

end Example

end AdaptivePi.Report
