import AdaptivePi.Report.PageValues

namespace AdaptivePi.Report

open Foundation Foundation.PythonText
open Foundation.Html (values)

def identifiers (surroundings : Surroundings) (files : List (Text × LineMap)) : List Text :=
  ["filter".toList, "files".toList] ++
    files.flatMap fun file => anchor surroundings file.1 :: lineAnchors surroundings file

section Links

variable (surroundings : Surroundings)

/-- The meters have no identifiers and no links. -/
theorem values_document_link {key : String} (hkey : key = "id" ∨ key = "href") (runs : List PageRun)
    (data : ReportData) :
    (document surroundings runs data).values key =
      idValues key "filter".toList ++ idValues key "files".toList ++
      ((sortedItems data.mapped).flatMap fun file => linkValues key (anchor surroundings file.1)) ++
      (sortedItems data.mapped).flatMap (sectionValues key surroundings) := by
  have hmeter : ∀ tally, meterValues key tally = [] := by
    intro tally
    unfold meterValues
    rcases hkey with rfl | rfl <;> simp
  have hrow : ∀ row, rowValues key row = [] := by
    intro row
    rw [rowValues, hmeter, hmeter, List.nil_append]
  have hruns := flatMap_eq_nil (fun run : PageRun => flatMap_eq_nil hmeter (runTally run.counted)) runs
  have hkeys : IsKey key := hkey.imp_right .inl
  rw [values_document hkeys, hmeter, hmeter, flatMap_eq_nil hrow, hruns]
  simp only [hrow, List.append_nil, List.nil_append]

/-- The identifiers of the document, in order. -/
theorem ids_document (runs : List PageRun) (data : ReportData) :
    (document surroundings runs data).values "id" =
      identifiers surroundings (sortedItems data.mapped) := by
  have hlinks : (sortedItems data.mapped).flatMap
      (fun file => linkValues "id" (anchor surroundings file.1)) = [] :=
    flatMap_eq_nil (fun _ => rfl) _
  rw [values_document_link surroundings (.inl rfl), hlinks]
  unfold identifiers sectionValues
  simp [idValues, linkValues]

theorem links_document (runs : List PageRun) (data : ReportData) :
    (document surroundings runs data).values "href" =
      (sortedItems data.mapped).map (fun file => '#' :: anchor surroundings file.1) ++
        (sortedItems data.mapped).flatMap fun file =>
          "#files".toList :: (lineAnchors surroundings file).map ('#' :: ·) := by
  rw [values_document_link surroundings (.inr rfl)]
  unfold sectionValues
  simp [idValues, linkValues, List.map_eq_flatMap]

/-- Every link of a document is to one of its identifiers. -/
theorem link_leads {runs : List PageRun} {data : ReportData} {target : Text}
    (hlink : target ∈ (document surroundings runs data).values "href") :
    ∃ id ∈ (document surroundings runs data).values "id", target = '#' :: id := by
  rw [ids_document]
  unfold identifiers
  rw [links_document, List.mem_append, List.mem_map, List.mem_flatMap] at hlink
  rcases hlink with ⟨file, hfile, rfl⟩ | ⟨file, hfile, htarget⟩
  · refine ⟨_, List.mem_append_right _ ?_, rfl⟩
    exact List.mem_flatMap.mpr ⟨file, hfile, List.mem_cons_self⟩
  · rw [List.mem_cons, List.mem_map] at htarget
    rcases htarget with rfl | ⟨id, hid, rfl⟩
    · exact ⟨"files".toList, List.mem_append_left _ (by simp), rfl⟩
    · refine ⟨id, List.mem_append_right _ ?_, rfl⟩
      exact List.mem_flatMap.mpr ⟨file, hfile, List.mem_cons_of_mem _ hid⟩

end Links

section Distinct

variable (surroundings : Surroundings)

theorem length_anchor (filename : Text) : (anchor surroundings filename).length = 21 := by
  unfold anchor
  rw [List.length_append, List.length_take, Esbmc.Sha256.length_digest]
  rfl

/-- Lines of one file have different anchors. -/
theorem lineAnchor_injective {anchor : Text} {line line' : Nat}
    (h : lineAnchor anchor line = lineAnchor anchor line') : line = line' :=
  toDigits_ten_injective (List.append_cancel_left h)

theorem nodup_lineAnchors (file : Text × LineMap) : (lineAnchors surroundings file).Nodup := by
  unfold lineAnchors
  cases surroundings.source file.1 with
  | none => exact List.nodup_nil
  | some source =>
      have hnumbers : (sourceRows file.2 source).map SourceRow.number =
          List.range' 1 (splitlines (universalNewlines source)).length := by
        unfold sourceRows
        rw [List.map_map, ← List.zipIdx_map_snd]
        rfl
      have hnodup : ((sourceRows file.2 source).map SourceRow.number).Nodup := by
        rw [hnumbers]
        exact List.nodup_range'
      have hmap := hnodup.map (f := lineAnchor (anchor surroundings file.1))
        fun _ _ h => lineAnchor_injective h
      rwa [List.map_map] at hmap

/-- An identifier in the section of a file begins with the anchor of the file. -/
theorem take_of_mem_lineAnchors {file : Text × LineMap} {id : Text}
    (hid : id ∈ lineAnchors surroundings file) :
    id.take 21 = anchor surroundings file.1 ∧ 21 < id.length := by
  unfold lineAnchors at hid
  cases hsource : surroundings.source file.1 with
  | none =>
      rw [hsource] at hid
      cases hid
  | some source =>
      rw [hsource, List.mem_map] at hid
      obtain ⟨row, -, rfl⟩ := hid
      unfold lineAnchor
      rw [List.append_assoc, ← length_anchor surroundings file.1, List.take_left, List.length_append]
      exact ⟨rfl, by simp⟩

def sectionIds (file : Text × LineMap) : List Text :=
  anchor surroundings file.1 :: lineAnchors surroundings file

/-- The identifiers of a section begin with its anchor. -/
theorem take_of_mem_sectionIds {file : Text × LineMap} {id : Text}
    (hid : id ∈ sectionIds surroundings file) :
    id.take 21 = anchor surroundings file.1 ∧ 21 ≤ id.length := by
  rcases List.mem_cons.mp hid with rfl | hline
  · rw [← length_anchor surroundings file.1, List.take_length]
    exact ⟨rfl, le_refl _⟩
  · exact (take_of_mem_lineAnchors surroundings hline).imp_right le_of_lt

theorem nodup_sectionIds (file : Text × LineMap) : (sectionIds surroundings file).Nodup := by
  unfold sectionIds
  apply List.Nodup.cons _ (nodup_lineAnchors surroundings file)
  intro hmem
  have hlength := (take_of_mem_lineAnchors surroundings hmem).2
  rw [length_anchor] at hlength
  exact lt_irrefl _ hlength

/-- Two sections share identifiers exactly if they share the anchor. -/
theorem disjoint_sectionIds_iff {file file' : Text × LineMap} :
    List.Disjoint (sectionIds surroundings file) (sectionIds surroundings file') ↔
      anchor surroundings file.1 ≠ anchor surroundings file'.1 := by
  constructor
  · intro h heq
    have hmem : anchor surroundings file.1 ∈ sectionIds surroundings file' := by
      rw [heq]
      exact List.mem_cons_self
    exact h List.mem_cons_self hmem
  · intro hne id hid hid'
    have hanchor := (take_of_mem_sectionIds surroundings hid).1
    rw [(take_of_mem_sectionIds surroundings hid').1] at hanchor
    exact hne hanchor.symm

/-- The identifiers are distinct if the anchors of the files are. -/
theorem nodup_identifiers_iff (files : List (Text × LineMap)) :
    (identifiers surroundings files).Nodup ↔ (files.map fun file => anchor surroundings file.1).Nodup := by
  have hfixed : ∀ id ∈ ["filter".toList, "files".toList], id ∉ files.flatMap (sectionIds surroundings) := by
    intro id hid hmem
    obtain ⟨file, -, hfile⟩ := List.mem_flatMap.mp hmem
    have hlong := (take_of_mem_sectionIds surroundings hfile).2
    have hshort : ∀ id ∈ ["filter".toList, "files".toList], id.length < 21 := by decide
    exact absurd (hshort id hid) (not_lt_of_ge hlong)
  have hfirst : ["filter".toList, "files".toList].Nodup := by decide
  change (["filter".toList, "files".toList] ++ files.flatMap (sectionIds surroundings)).Nodup ↔ _
  rw [List.nodup_append', List.nodup_flatMap, List.Nodup, List.pairwise_map]
  constructor
  · rintro ⟨-, ⟨-, hpairwise⟩, -⟩
    exact hpairwise.imp (disjoint_sectionIds_iff surroundings).mp
  · intro h
    refine ⟨hfirst, ⟨?_, ?_⟩, fun id hid hmem => hfixed id hid hmem⟩
    · intro file _
      exact nodup_sectionIds surroundings file
    · exact h.imp (disjoint_sectionIds_iff surroundings).mpr

end Distinct

section Kept

variable (surroundings : Surroundings)

theorem isKeptText_anchor (filename : Text) :
    Html.isKeptText (anchor surroundings filename) = true := by
  have hprefix : Html.isKeptText "file-".toList = true := by decide
  have hhash : Html.isKeptText ((surroundings.sha256.digest filename).take 16) = true := by
    unfold Html.isKeptText
    rw [List.all_eq_true]
    intro char hchar
    have hmem := List.mem_of_mem_take hchar
    unfold Html.isKeptChar
    rw [Bool.and_eq_true, decide_eq_true_eq, decide_eq_true_eq]
    constructor
    · rintro rfl
      exact Esbmc.not_mem_digest filename (by decide) hmem
    · rintro rfl
      exact Esbmc.not_mem_digest filename (by decide) hmem
  unfold anchor
  unfold Html.isKeptText at *
  rw [List.all_append, hprefix, hhash]
  rfl

theorem isKeptText_number (n : Nat) : Html.isKeptText (number n) = true := by
  unfold Html.isKeptText
  rw [List.all_eq_true]
  intro char hchar
  have hdigit := isDigit_of_mem_toDigits_ten hchar
  unfold Html.isKeptChar
  rw [Bool.and_eq_true, decide_eq_true_eq, decide_eq_true_eq]
  constructor
  all_goals
    rintro rfl
    cases hdigit

theorem isKeptText_lineAnchor (filename : Text) (line : Nat) :
    Html.isKeptText (lineAnchor (anchor surroundings filename) line) = true := by
  have hanchor := isKeptText_anchor surroundings filename
  have hnumber := isKeptText_number line
  unfold lineAnchor
  unfold Html.isKeptText at *
  rw [List.all_append, List.all_append, hanchor, hnumber]
  rfl

/-- Identifiers are read as they are written. -/
theorem isKeptText_of_mem_identifiers {files : List (Text × LineMap)} {id : Text}
    (hid : id ∈ identifiers surroundings files) : Html.isKeptText id = true := by
  rcases List.mem_append.mp hid with hfixed | hfile
  · have hall : ∀ id ∈ ["filter".toList, "files".toList], Html.isKeptText id = true := by decide
    exact hall id hfixed
  · obtain ⟨file, -, hmem⟩ := List.mem_flatMap.mp hfile
    rcases List.mem_cons.mp hmem with rfl | hline
    · exact isKeptText_anchor surroundings file.1
    · unfold lineAnchors at hline
      cases hsource : surroundings.source file.1 with
      | none =>
          rw [hsource] at hline
          cases hline
      | some source =>
          rw [hsource, List.mem_map] at hline
          obtain ⟨row, -, rfl⟩ := hline
          exact isKeptText_lineAnchor surroundings file.1 row.number

/-- The identifiers and the links are read as they are. -/
theorem values_asRead_document {key : String} (hkey : key = "id" ∨ key = "href") (runs : List PageRun)
    (data : ReportData) :
    (document surroundings runs data).asRead.values key = (document surroundings runs data).values key := by
  apply Html.values_asRead
  intro value hvalue
  rcases hkey with rfl | rfl
  · rw [ids_document] at hvalue
    exact isKeptText_of_mem_identifiers surroundings hvalue
  · obtain ⟨id, hid, rfl⟩ := link_leads surroundings hvalue
    rw [ids_document] at hid
    change Html.isKeptText id = true
    exact isKeptText_of_mem_identifiers surroundings hid

end Kept

/-- Every link of a page leads to an element of it, and to one only if no two files
have the same first sixteen digits of a hash. -/
theorem page_links_lead (unicode : Unicode) (root : Text) (sourcePath : Text → Text → Option Text)
    (found : List FoundPath) (bundles : List PrintedBundle) (surroundings : Surroundings) {text : Text}
    (htext : render unicode root sourcePath found bundles surroundings = some text) :
    ∃ data page, aggregate unicode root sourcePath found (bundles.map PrintedBundle.evidence) = some data ∧
      Html.parse text = some page ∧
      (∀ target ∈ page.values "href", ∃ id ∈ page.values "id", target = '#' :: id) ∧
      ((page.values "id").Nodup ↔
        ((sortedItems data.mapped).map fun file => anchor surroundings file.1).Nodup) := by
  unfold render at htext
  rw [Option.map_eq_some_iff] at htext
  obtain ⟨data, hdata, rfl⟩ := htext
  refine ⟨data, _, hdata, parse_chunks surroundings _ data, ?_, ?_⟩
  · rw [values_asRead_document surroundings (.inl rfl), values_asRead_document surroundings (.inr rfl)]
    intro target htarget
    exact link_leads surroundings htarget
  · rw [values_asRead_document surroundings (.inl rfl), ids_document]
    exact nodup_identifiers_iff surroundings _

section Example

def secondFileGoal : Goal := { thirdLineGoal with file := "apps/demo/src/main.cpp".toList }

def examplePrintedRun : PrintedRun where
  toRunEvidence := exampleRun [thirdLineGoal, secondFileGoal]
  version := "ESBMC version 7.9.0".toList
  timeout := 30
  proofExit := .code 0
  coverageExit := .code 0
  command := ["esbmc".toList, "demo.cpp".toList]
  coverageCommand := ["esbmc".toList, "--branch-coverage".toList, "demo.cpp".toList]
  coverageLog := "x < 4 && \"quoted\"".toList

/-- The hashes are those of the two files. -/
def exampleSurroundings : Surroundings where
  revision := "unknown".toList
  errors := []
  generated := ⟨2026, 9, 1, 12, 0, 0⟩
  source := fun _ => some "int a;\n\nint b;\n".toList
  sha256 := ⟨fun text =>
    if text = "platform/demo/src/branch.cpp".toList then
      0x5302c59094c0d84ba5da0a44ac94eb7b402e6c05e6ba59939ef031150b9c4ed2
    else 0x344446cccbd399e7bf816bf2baa6d4ee37a4b3eff321bb9d37b6ebeef2626677⟩

theorem exampleFiles {data : ReportData}
    (h : aggregate .ascii [] exampleSourcePath [] [⟨[examplePrintedRun.toRunEvidence]⟩] = some data) :
    data.mapped.items.map Prod.fst =
      ["platform/demo/src/branch.cpp".toList, "apps/demo/src/main.cpp".toList] := by
  obtain ⟨-, -, -, hmapped⟩ := aggregate_eq_some h
  rw [hmapped]
  decide +kernel

/-- Two files with different anchors: the links lead to different elements. -/
theorem page_links_lead_two_files : ∃ text page,
    render .ascii [] exampleSourcePath [] [⟨[examplePrintedRun]⟩] exampleSurroundings = some text ∧
      Html.parse text = some page ∧
      (∀ target ∈ page.values "href", ∃ id ∈ page.values "id", target = '#' :: id) ∧
      (page.values "id").Nodup := by
  obtain ⟨data, h⟩ := @exists_aggregate .ascii [] exampleSourcePath []
    [⟨[examplePrintedRun.toRunEvidence]⟩] (by
      intro run hrun
      obtain rfl := List.mem_singleton.mp hrun
      exact exampleRun_isReadable _)
  have htext : render .ascii [] exampleSourcePath [] [⟨[examplePrintedRun]⟩] exampleSurroundings =
      some ("\n".toList.intercalate
        (chunks exampleSurroundings (pageRuns [⟨[examplePrintedRun]⟩] data) data)) :=
    Option.map_eq_some_iff.mpr ⟨data, h, rfl⟩
  obtain ⟨data', page, h', hpage, hlinks, hids⟩ :=
    page_links_lead .ascii [] exampleSourcePath [] [⟨[examplePrintedRun]⟩] exampleSurroundings htext
  have hanchors : ((data'.mapped.items.map Prod.fst).map (anchor exampleSurroundings)).Nodup := by
    rw [exampleFiles h']
    decide +kernel
  rw [List.map_map] at hanchors
  have hsorted := (perm_sortedItems data'.mapped).map (anchor exampleSurroundings ∘ Prod.fst)
  exact ⟨_, page, htext, hpage, hlinks, hids.mpr (hsorted.nodup_iff.mpr hanchors)⟩

end Example

end AdaptivePi.Report
