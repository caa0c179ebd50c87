import AdaptivePi.Report.PageDocument

namespace AdaptivePi.Report

open Foundation Foundation.PythonText
open Foundation.Html (node leaf rawNode values)

def IsKey (key : String) : Prop := key = "id" ∨ key = "href" ∨ key = "max" ∨ key = "value"

section Expected

variable (key : String)

def meterValues (tally : Tally) : List Text :=
  if tally.2 = 0 then []
  else if key = "max" then [number tally.2]
  else if key = "value" then [number tally.1]
  else []

def rowValues (row : TotalsRow) : List Text :=
  meterValues key row.branches ++ meterValues key row.checks

def runTally (run : ReportRun) : List Tally :=
  run.coverage.toList.map fun coverage => (coverage.covered, coverage.total)

def idValues (id : Text) : List Text := if key = "id" then [id] else []

def linkValues (id : Text) : List Text := if key = "href" then ['#' :: id] else []

def lineAnchors (surroundings : Surroundings) (file : Text × LineMap) : List Text :=
  match surroundings.source file.1 with
  | none => []
  | some source => (sourceRows file.2 source).map fun row =>
      lineAnchor (anchor surroundings file.1) row.number

def sectionValues (surroundings : Surroundings) (file : Text × LineMap) : List Text :=
  idValues key (anchor surroundings file.1) ++ linkValues key "files".toList ++
    (lineAnchors surroundings file).flatMap fun id => idValues key id ++ linkValues key id

end Expected

section Values

variable {key : String}

theorem flatMap_eq_nil {ι : Type} {write : ι → List Text} (hnil : ∀ item, write item = [])
    (items : List ι) : items.flatMap write = [] :=
  List.flatMap_eq_nil_iff.mpr fun item _ => hnil item

@[simp] theorem values_words (text : String) : (words text).values key = [] :=
  Html.values_ofText _

@[simp] theorem values_newline : newline.values key = [] := rfl

theorem values_tableHead (titles : List String) : (tableHead titles).values key = [] := by
  unfold tableHead
  simp

theorem values_table (attributes : List (String × Text)) (titles : List String) (rows : List Html)
    (valid : Html.isTag .normal "table".toList ((Html.pairs attributes).map Prod.fst) = true) :
    (table attributes titles rows valid).values key =
      (attributes.filter (·.1 = key)).map Prod.snd ++ rows.flatMap (values key) := by
  unfold table tableBody
  simp [values_tableHead, List.flatMap_map]

variable (hkey : IsKey key)

include hkey

theorem values_span (level : Level) (content : Html) :
    (span level content).values key = content.values key := by
  unfold span
  rcases hkey with rfl | rfl | rfl | rfl <;> simp

/-- A metric has a meter, unless there is nothing to cover. -/
theorem values_ratioNode (covered total : Nat) :
    (ratioNode covered total).values key = meterValues key (covered, total) := by
  unfold ratioNode meterValues
  split
  · rw [values_span hkey, values_words]
  · dsimp only
    rw [Html.values_append, values_span hkey, Html.values_ofText, List.nil_append]
    rcases hkey with rfl | rfl | rfl | rfl <;> simp

theorem values_branchNode (branches : Tally) :
    (branchNode branches).values key = meterValues key branches := by
  unfold branchNode
  split
  · rename_i hnone
    rw [values_span hkey, values_words, meterValues, if_pos hnone]
  · exact values_ratioNode hkey _ _

theorem values_runNode (run : ReportRun) :
    (runNode run).values key = (runTally run).flatMap (meterValues key) := by
  unfold runNode runTally
  cases run.coverage with
  | none => exact values_span hkey _ _
  | some coverage =>
      dsimp only [Option.toList, List.map]
      rw [values_ratioNode hkey, List.flatMap_singleton]

theorem values_headerNode (surroundings : Surroundings) (data : ReportData) :
    (headerNode surroundings data).values key =
      meterValues key data.checks ++ meterValues key data.branches := by
  unfold headerNode revisionNode totalsNode detailsNode
  simp [values_ratioNode hkey, values_span hkey]

theorem values_noticeNodes (data : ReportData) (errors : List Text) :
    (noticeNodes data errors).values key = [] := by
  unfold noticeNodes
  split
  · rcases hkey with rfl | rfl | rfl | rfl <;> simp
  · rfl

theorem values_componentNode (row : TotalsRow) : (componentNode row).values key = rowValues key row := by
  unfold componentNode rowValues
  simp [values_ratioNode hkey, values_branchNode hkey]

theorem values_runRow (run : PageRun) :
    (runRow run).values key = (runTally run.counted).flatMap (meterValues key) := by
  have hbound : (boundNode run.printed.toRunEvidence).values key = [] := by
    unfold boundNode
    split
    · simp [values_span hkey]
    · rfl
  unfold runRow
  simp [hbound, values_runNode hkey, values_span hkey]

theorem values_detailsNodes (row : SourceRow) : (detailsNodes row).values key = [] := by
  have hitem : ∀ item : RowItem, (itemNode item).values key = [] := by
    intro item
    unfold itemNode
    rcases hkey with rfl | rfl | rfl | rfl <;> simp
  have hproof : (node "span" [("class", "no-proof".toList)] (words "No proof evidence")).values key =
      [] := by
    rcases hkey with rfl | rfl | rfl | rfl <;> simp
  have hrows : (Html.join (row.items.map itemNode)).values key = [] := by
    rw [Html.values_join, List.flatMap_map]
    exact flatMap_eq_nil hitem _
  unfold detailsNodes
  rw [Html.values_append, List.append_eq_nil_iff]
  constructor
  · split
    · exact hproof
    · rfl
  · split
    · rfl
    · simp [-Html.values_join, hrows]

theorem values_headNode : headNode.values key = [] := by
  unfold headNode
  rcases hkey with rfl | rfl | rfl | rfl <;> simp

theorem values_link (target : Text) (content : Html) :
    (link target content).values key = linkValues key target ++ content.values key := by
  unfold link linkValues
  rcases hkey with rfl | rfl | rfl | rfl <;> simp

variable (surroundings : Surroundings)

theorem values_fileRow (file : Text × LineMap) :
    (fileRow surroundings file).values key = linkValues key (anchor surroundings file.1) ++
      rowValues key (totalsRow file.1 (lineClaims file.2)) := by
  unfold fileRow rowValues
  simp [values_link hkey, values_ratioNode hkey, values_branchNode hkey]

theorem values_sourceLine (anchor : Text) (row : SourceRow) :
    (sourceLine anchor row).values key = idValues key (lineAnchor anchor row.number) ++
      linkValues key (lineAnchor anchor row.number) := by
  have hlink := @values_link _ hkey
  have hdetails := values_detailsNodes hkey row
  unfold sourceLine idValues
  rcases hkey with rfl | rfl | rfl | rfl <;> simp [hlink, hdetails]

/-- A section has its anchor and those of its lines. -/
theorem values_sectionNode (file : Text × LineMap) :
    (sectionNode surroundings file).values key = sectionValues key surroundings file := by
  have hlines : (sourceLines surroundings file).flatMap (values key) =
      (lineAnchors surroundings file).flatMap fun id => idValues key id ++ linkValues key id := by
    unfold sourceLines lineAnchors
    cases surroundings.source file.1 with
    | none => rcases hkey with rfl | rfl | rfl | rfl <;> simp
    | some source =>
        dsimp only
        rw [List.flatMap_map, List.flatMap_map]
        exact List.flatMap_congr fun row _ => values_sourceLine hkey _ row
  have hlink := @values_link _ hkey
  unfold sectionNode sectionValues
  rw [← hlines]
  unfold idValues
  rcases hkey with rfl | rfl | rfl | rfl <;> simp [values_table, hlink]

/-- The values of the whole document. -/
theorem values_document (runs : List PageRun) (data : ReportData) :
    (document surroundings runs data).values key =
      meterValues key data.checks ++ meterValues key data.branches ++
      data.componentRows.flatMap (rowValues key) ++
      (runs.flatMap fun run => (runTally run.counted).flatMap (meterValues key)) ++
      idValues key "filter".toList ++ idValues key "files".toList ++
      ((sortedItems data.mapped).flatMap fun file => linkValues key (anchor surroundings file.1) ++
        rowValues key (totalsRow file.1 (lineClaims file.2))) ++
      (sortedItems data.mapped).flatMap (sectionValues key surroundings) := by
  have hcomponents : data.componentRows.flatMap (fun row => (componentNode row).values key) =
      data.componentRows.flatMap (rowValues key) :=
    List.flatMap_congr fun row _ => values_componentNode hkey row
  have hruns : runs.flatMap (fun run => (runRow run).values key) =
      runs.flatMap fun run => (runTally run.counted).flatMap (meterValues key) :=
    List.flatMap_congr fun run _ => values_runRow hkey run
  have hfiles := List.flatMap_congr fun file (_ : file ∈ sortedItems data.mapped) =>
    values_fileRow hkey surroundings file
  have hsections := List.flatMap_congr fun file (_ : file ∈ sortedItems data.mapped) =>
    values_sectionNode hkey surroundings file
  have hheader := values_headerNode hkey surroundings data
  have hnotice := values_noticeNodes hkey data surroundings.errors
  have hhead := values_headNode hkey
  unfold document bodyNode idValues
  rcases hkey with rfl | rfl | rfl | rfl <;>
    simp [values_table, hhead, hheader, hnotice, hcomponents, hruns, hfiles, hsections,
      List.flatMap_map]

end Values

end AdaptivePi.Report
