import AdaptivePi.Esbmc.Fingerprint
import AdaptivePi.Report.ReportPage
import Mathlib.Data.Bool.AllAny

/-!
The document that a report is. Its elements are put together from the data without
any text of HTML, and the page that `render` writes is read as this document,
whatever the runs, the logs, the sources and the errors contain.
-/

namespace AdaptivePi.Report

open Foundation Foundation.PythonText
open Foundation.Html (escape node leaf rawNode pairs writeStart writeAttribute writeStop)

section Constants

variable {p : Char → Bool}

/-- A literal is `String.ofList` of its characters. -/
theorem all_ofList {chars : List Char} (h : chars.all p = true) :
    (String.ofList chars).toList.all p = true := by
  rw [String.toList_ofList]
  exact h

theorem all_parts_cons {part : String} {parts : List String} (hpart : part.toList.all p = true)
    (hparts : (parts.flatMap String.toList).all p = true) :
    ((part :: parts).flatMap String.toList).all p = true := by
  rw [List.flatMap_cons, List.all_append, hpart, hparts]
  rfl

theorem styleSheet_isRaw : styleSheet.all Html.isRawChar = true := by
  unfold styleSheet
  repeat refine all_parts_cons (all_ofList rfl) ?_
  rfl

theorem filterScript_isRaw : filterScript.all Html.isRawChar = true := by
  unfold filterScript
  repeat refine all_parts_cons (all_ofList rfl) ?_
  rfl

theorem escape_boundsNote : escape boundsNote = boundsNote := by
  apply Html.escape_of_isPlain
  unfold boundsNote
  repeat refine all_parts_cons (all_ofList rfl) ?_
  rfl

theorem escape_detailsNote : escape detailsNote = detailsNote := by
  apply Html.escape_of_isPlain
  unfold detailsNote
  repeat refine all_parts_cons (all_ofList rfl) ?_
  rfl

theorem escape_incompleteNote : escape incompleteNote = incompleteNote := by
  apply Html.escape_of_isPlain
  unfold incompleteNote
  repeat refine all_parts_cons (all_ofList rfl) ?_
  rfl

theorem escape_footerNote : escape footerNote = footerNote := by
  apply Html.escape_of_isPlain
  unfold footerNote
  repeat refine all_parts_cons (all_ofList rfl) ?_
  rfl

end Constants

section Document

def words (text : String) : Html := .ofText text.toList

def newline : Html := .ofText ['\n']

def tableBody (rows : List Html) : Html :=
  node "tbody" [] (Html.join (rows.map (newline ++ ·)) ++ newline)

def tableHead (titles : List String) : Html :=
  node "thead" [] (node "tr" [] (Html.join (titles.map fun title => node "th" [] (words title))))

def table (attributes : List (String × Text)) (titles : List String) (rows : List Html)
    (valid : Html.isTag .normal "table".toList ((pairs attributes).map Prod.fst) = true := by
      simp only [pairs, List.map]; rfl) : Html :=
  node "table" attributes (tableHead titles ++ tableBody rows) valid

def span (level : Level) (content : Html) : Html := node "span" [("class", level.name)] content

def ratioNode (covered total : Nat) : Html :=
  if total = 0 then span .unknown (words "N/A (0 goals)")
  else
    let percentage := floatPercentage covered total
    span (percentageLevel percentage) (.ofText (number covered ++ " / ".toList ++ number total ++
      " (".toList ++ fixedText 1 percentage ++ "%)".toList)) ++
    node "meter" [("min", "0".toList), ("max", number total), ("value", number covered)] .nil

def branchNode (branches : Tally) : Html :=
  if branches.2 = 0 then span .unknown (words "No branch goals")
  else ratioNode branches.1 branches.2

def runNode (run : ReportRun) : Html :=
  match run.coverage with
  | none => span .unknown (words "Unavailable")
  | some coverage => ratioNode coverage.covered coverage.total

def totalsNode (data : ReportData) : Html :=
  node "p" [] <|
    words "Safety proofs passed: " ++
    .ofText (number (data.runs.countP (·.evidence.proofStatus = .passed))) ++ words " / " ++
    .ofText (number data.runs.length) ++ words " · Production safety checks passed: " ++
    ratioNode data.checks.1 data.checks.2 ++ words " · Branch goals reached: " ++
    ratioNode data.branches.1 data.branches.2 ++ words " · Coverage runs unavailable: " ++
    .ofText (number (data.runs.countP (·.coverage.isNone))) ++
    words " · Located safety-property inventories unavailable: " ++
    .ofText (number (data.propertyErrors.countP (· ≠ [])))

def revisionNode (revision : Text) (generated : Moment) : Html :=
  node "p" [] (words "Revision: " ++ node "code" [] (.ofText revision) ++ words " · Generated: " ++
    .ofText generated.isoformat)

def detailsNode : Html :=
  node "p" [] (.ofText detailsNote ++ span .low (words "<75%") ++ words " " ++
    span .medium (words "75–<90%") ++ words " " ++ span .high (words "≥90%") ++ words ".")

def headerNode (surroundings : Surroundings) (data : ReportData) : Html :=
  node "header" [] <|
    newline ++ revisionNode surroundings.revision surroundings.generated ++
    newline ++ totalsNode data ++
    newline ++ node "p" [] (.ofText boundsNote) ++
    newline ++ detailsNode

def noticeNodes (data : ReportData) (errors : List Text) : Html :=
  if data.isIncomplete errors then
    newline ++ node "p" [("class", "notice".toList)]
      (.ofText incompleteNote ++ .ofText ("; ".toList.intercalate errors))
  else .nil

def componentNode (row : TotalsRow) : Html :=
  node "tr" [] (node "td" [] (.ofText row.name) ++ node "td" [] (branchNode row.branches) ++
    node "td" [] (ratioNode row.checks.1 row.checks.2))

def boundNode (run : RunEvidence) : Html :=
  if run.proofStatus ≠ .passed && reportsUnwinding run.proofLog then
    leaf "br" [] ++ span .medium (words "Unwinding limit reported; inspect safety log")
  else .nil

def runLog (run : PageRun) : Text :=
  "\n".toList.intercalate [run.printed.version, run.counted.error, run.propertyError,
    "Safety exit: ".toList ++ run.printed.proofExit.text,
    shlexJoin run.printed.command, run.printed.proofLog,
    "Coverage exit: ".toList ++ run.printed.coverageExit.text,
    shlexJoin run.printed.coverageCommand, run.printed.coverageLog]

def runRow (run : PageRun) : Html :=
  node "tr" [] <|
    node "td" [] (.ofText run.printed.name ++ leaf "br" [] ++ words "Exceptions: " ++
      .ofText run.printed.exceptions) ++
    node "td" [] (span run.printed.proofStatus.level (.ofText run.printed.proofStatus.text)) ++
    node "td" [] (runNode run.counted) ++
    node "td" [] (words "Unwind: " ++ .ofText run.printed.unwind ++ words "; timeout: " ++
      .ofText (number run.printed.timeout) ++ words "s per analysis" ++
      boundNode run.printed.toRunEvidence ++
      node "details" [] (node "summary" [] (words "Commands and logs") ++
        node "pre" [] (.ofText (runLog run))))

section Files

variable (surroundings : Surroundings)

def link (target : Text) (content : Html) : Html := node "a" [("href", '#' :: target)] content

def fileRow (file : Text × LineMap) : Html :=
  let row := totalsRow file.1 (lineClaims file.2)
  node "tr" [] (node "td" [] (link (anchor surroundings file.1) (.ofText file.1)) ++
    node "td" [] (branchNode row.branches) ++
    node "td" [] (ratioNode row.checks.1 row.checks.2) ++
    node "td" [] (.ofText (number file.2.items.length)))

def itemNode (item : RowItem) : Html :=
  node "li" [] (node "span" [("class", item.badge)] (.ofText item.label) ++
    .ofText (": ".toList ++ item.condition ++ " (".toList ++ item.name ++ ", exceptions ".toList ++
      item.exceptions ++ ", unwind ".toList ++ item.unwind ++ ")".toList))

def detailsNodes (row : SourceRow) : Html :=
  (if row.withoutProof then node "span" [("class", "no-proof".toList)] (words "No proof evidence")
    else .nil) ++
  if row.entries = [] then .nil
  else node "details" [] (node "summary" [] (.ofText ("; ".toList.intercalate row.summaries)) ++
    node "ul" [] (Html.join (row.items.map itemNode)))

def lineAnchor (anchor : Text) (line : Nat) : Text := anchor ++ "-L".toList ++ number line

def sourceLine (anchor : Text) (row : SourceRow) : Html :=
  node "tr" [("id", lineAnchor anchor row.number), ("class", row.level.name)]
    (node "td" [("class", "number".toList)]
        (link (lineAnchor anchor row.number) (.ofText (number row.number))) ++
      node "td" [("class", "goals".toList)] (detailsNodes row) ++
      node "td" [] (node "code" [] (.ofText row.text)))

def sourceLines (file : Text × LineMap) : List Html :=
  match surroundings.source file.1 with
  | none => [node "tr" [] (node "td" [("colspan", "3".toList)] (words "Source unavailable"))]
  | some source => (sourceRows file.2 source).map (sourceLine (anchor surroundings file.1))

def sectionNode (file : Text × LineMap) : Html :=
  node "section" [("id", anchor surroundings file.1)] <|
    node "h3" [] (.ofText file.1) ++ link "files".toList (words "Back to files") ++
    node "div" [("class", "scroll".toList)] (table [("class", "source".toList)]
      ["Line", "Checks / goals", "Source"] (sourceLines surroundings file))

end Files

def headNode : Html :=
  node "head" [] <|
    leaf "meta" [("charset", "utf-8".toList)] ++ newline ++
    leaf "meta" [("name", "viewport".toList),
      ("content", "width=device-width,initial-scale=1".toList)] ++ newline ++
    rawNode "title" [] ⟨"ESBMC Proof and Branch Coverage Report".toList, by decide⟩ ++
    rawNode "style" [] ⟨styleSheet, styleSheet_isRaw⟩

def bodyNode (surroundings : Surroundings) (runs : List PageRun) (data : ReportData) : Html :=
  node "body" [] <|
    node "h1" [] (words "ESBMC Proof and Branch Coverage Report") ++ headerNode surroundings data ++
    noticeNodes data surroundings.errors ++ newline ++
    node "h2" [] (words "Components") ++
    table [] ["Component", "Branch goals reached", "Safety checks passed"]
      (data.componentRows.map componentNode) ++ newline ++
    node "h2" [] (words "Proof runs") ++
    table [] ["Harness / configuration", "Safety proof", "Branch goals reached", "Bounds / evidence"]
      (runs.map runRow) ++
    node "h2" [] (words "Source files") ++
    node "label" [] (words "Filter files " ++ leaf "input" [("id", "filter".toList),
      ("type", "search".toList), ("placeholder", "File or component name".toList)]) ++
    table [("id", "files".toList)] ["File / component", "Branch goals reached",
      "Safety checks passed", "Lines with evidence"]
      ((sortedItems data.mapped).map (fileRow surroundings)) ++
    Html.join ((sortedItems data.mapped).map fun file => newline ++ sectionNode surroundings file) ++
    newline ++ node "footer" [] (.ofText (number data.excluded) ++ .ofText footerNote) ++
    rawNode "script" [] ⟨filterScript, filterScript_isRaw⟩

/-- The document of a report. -/
def document (surroundings : Surroundings) (runs : List PageRun) (data : ReportData) : Html :=
  node "html" [("lang", "en".toList)] (headNode ++ bodyNode surroundings runs data)

end Document

section Writing

theorem escape_of_isDigit {text : Text} (hdigits : ∀ char ∈ text, char.isDigit = true ∨ char = '.') :
    escape text = text := by
  apply Html.escape_of_isPlain
  rw [List.all_eq_true]
  intro char hchar
  have hspecial : ∀ other ∈ Html.references.map Prod.snd, ¬(other.isDigit = true ∨ other = '.') :=
    List.all_iff_forall_prop.mp rfl
  rw [Html.isPlain, Bool.not_eq_true', ← Bool.not_eq_true, List.contains_iff_mem]
  exact fun hmem => hspecial char hmem (hdigits char hchar)

theorem escape_toDigits (n : Nat) : escape (Nat.toDigits 10 n) = Nat.toDigits 10 n :=
  escape_of_isDigit fun _ hchar => .inl (isDigit_of_mem_toDigits_ten hchar)

theorem escape_number (n : Nat) : escape (number n) = number n := escape_toDigits n

theorem escape_zeroPadded (width n : Nat) : escape (zeroPadded width n) = zeroPadded width n :=
  escape_of_isDigit fun _ hchar => .inl (isDigit_of_mem_zeroPadded hchar)

theorem escape_fixedText (decimals : Nat) (v : ℚ) :
    escape (fixedText decimals v) = fixedText decimals v :=
  escape_of_isDigit fun _ hchar => mem_fixedText hchar

theorem escape_isoformat (moment : Moment) : escape moment.isoformat = moment.isoformat := by
  unfold Moment.isoformat
  simp only [Html.escape_append, escape_zeroPadded]
  rfl

theorem write_words {text : String} (hplain : text.toList.all Html.isPlain = true) :
    (words text).write = text.toList := by
  unfold words
  rw [Html.write_ofText, Html.escape_of_isPlain hplain]

theorem write_newline : newline.write = "\n".toList := by
  unfold newline
  rw [Html.write_ofText]
  rfl

theorem write_span (level : Level) (content : Html) :
    (span level content).write = openSpan level ++ (content.write ++ "</span>".toList) := by
  unfold span
  rw [Html.write_node]
  cases level <;> rfl

/-- A start tag with an attribute that needs no reference. -/
theorem writeStart_one (name : Text) (key : String) {value : Text} (hvalue : escape value = value) :
    writeStart name (pairs [(key, value)]) =
      ('<' :: (name ++ ' ' :: (key.toList ++ "=\"".toList))) ++ (value ++ "\">".toList) := by
  have hpairs : pairs [(key, value)] = [(key.toList, value)] := rfl
  rw [hpairs]
  simp only [writeStart, writeAttribute, List.flatMap_cons, List.flatMap_nil, hvalue]
  simp

theorem writeStart_two (name : Text) (key other : String) {value last : Text}
    (hvalue : escape value = value) (hlast : escape last = last) :
    writeStart name (pairs [(key, value), (other, last)]) =
      ('<' :: (name ++ ' ' :: (key.toList ++ "=\"".toList))) ++ (value ++
        (('"' :: ' ' :: (other.toList ++ "=\"".toList)) ++ (last ++ "\">".toList))) := by
  have hpairs : pairs [(key, value), (other, last)] = [(key.toList, value), (other.toList, last)] := rfl
  rw [hpairs]
  simp only [writeStart, writeAttribute, List.flatMap_cons, List.flatMap_nil, hvalue, hlast]
  simp

/-- The nodes of a metric write its text. -/
theorem write_ratioNode (covered total : Nat) :
    (ratioNode covered total).write = ratio floatPercentage covered total := by
  unfold ratioNode ratio
  split
  · rw [write_span, write_words (by decide)]
    rfl
  · have hpairs : pairs [("min", "0".toList), ("max", number total), ("value", number covered)] =
        [("min".toList, "0".toList), ("max".toList, number total), ("value".toList, number covered)] :=
      rfl
    have hmeter : writeStart "meter".toList
          (pairs [("min", "0".toList), ("max", number total), ("value", number covered)]) =
        "<meter min=\"0\" max=\"".toList ++ (number total ++ ("\" value=\"".toList ++
          (number covered ++ "\">".toList))) := by
      rw [hpairs]
      simp only [writeStart, writeAttribute, List.flatMap_cons, List.flatMap_nil, escape_number]
      simp [escape, Html.escapeChar, Html.references]
    dsimp only
    rw [Html.write_append, write_span, Html.write_ofText, Html.write_node, hmeter]
    simp only [Html.escape_append, escape_number, escape_fixedText, Html.write_nil, List.append_assoc]
    rfl

theorem write_branchNode (branches : Tally) :
    (branchNode branches).write = branchMetric floatPercentage branches := by
  unfold branchNode branchMetric
  split
  · rw [write_span, write_words (by decide)]
    rfl
  · rw [write_ratioNode]

theorem write_runNode (run : ReportRun) : (runNode run).write = runMetric floatPercentage run := by
  unfold runNode runMetric
  cases run.coverage with
  | none =>
      dsimp only
      rw [write_span, write_words (by decide)]
      rfl
  | some coverage => exact write_ratioNode _ _

theorem write_totalsNode (data : ReportData) : (totalsNode data).write = totalsChunk data := by
  unfold totalsNode totalsChunk
  simp (disch := exact all_ofList rfl) only [Html.write_node, Html.write_append, Html.write_ofText,
    write_words, write_ratioNode, escape_number, List.append_assoc]
  rfl

theorem write_componentNode (row : TotalsRow) : (componentNode row).write = componentChunk row := by
  unfold componentNode componentChunk
  simp only [Html.write_node, Html.write_append, Html.write_ofText, write_branchNode, write_ratioNode,
    List.append_assoc]
  rfl

theorem write_boundNode (run : RunEvidence) : (boundNode run).write = boundNote run := by
  unfold boundNode boundNote
  split
  · simp (disch := exact all_ofList rfl) only [Html.write_append, Html.write_leaf, write_span, write_words,
      List.append_assoc]
    rfl
  · rfl

theorem escape_runLog (run : PageRun) : escape (runLog run) = logText run := by
  unfold runLog logText
  simp only [List.intercalate_cons_cons, List.intercalate_singleton, Html.escape_append,
    List.append_assoc]
  rfl

theorem write_runRow (run : PageRun) : (runRow run).write = runChunk run := by
  unfold runRow runChunk
  simp (disch := exact all_ofList rfl) only [Html.write_node, Html.write_append, Html.write_ofText,
    Html.write_leaf, write_runNode, write_span, write_words, write_boundNode, escape_number,
    escape_runLog, List.append_assoc]
  rfl

section Files

variable (surroundings : Surroundings)

/-- A hash is hexadecimal digits. -/
theorem escape_anchor (filename : Text) :
    escape (anchor surroundings filename) = anchor surroundings filename := by
  have hspecial : ∀ other ∈ Html.references.map Prod.snd,
      "0123456789abcdef".toList.contains other = false :=
    List.all_iff_forall_prop.mp rfl
  have hhash : escape ((surroundings.sha256.digest filename).take 16) =
      (surroundings.sha256.digest filename).take 16 := by
    apply Html.escape_of_isPlain
    rw [List.all_eq_true]
    intro char hchar
    rw [Html.isPlain, Bool.not_eq_true', ← Bool.not_eq_true, List.contains_iff_mem]
    intro hmem
    exact Esbmc.not_mem_digest filename (hspecial char hmem) (List.mem_of_mem_take hchar)
  unfold anchor
  rw [Html.escape_append, hhash]
  rfl

theorem escape_lineAnchor {anchor : Text} (hanchor : escape anchor = anchor) (line : Nat) :
    escape (lineAnchor anchor line) = lineAnchor anchor line := by
  unfold lineAnchor
  simp only [Html.escape_append, hanchor, escape_number]
  rfl

theorem write_link {target : Text} (htarget : escape target = target) (content : Html) :
    (link target content).write =
      ("<a href=\"#".toList ++ target ++ "\">".toList) ++ (content.write ++ "</a>".toList) := by
  have hvalue : escape ('#' :: target) = '#' :: target := by
    rw [← List.singleton_append, Html.escape_append, htarget]
    rfl
  unfold link
  rw [Html.write_node, writeStart_one _ _ hvalue]
  simp only [List.append_assoc]
  rfl

theorem write_fileRow (file : Text × LineMap) :
    (fileRow surroundings file).write = fileChunk surroundings file := by
  unfold fileRow fileChunk
  simp only [Html.write_node, Html.write_append, Html.write_ofText, write_branchNode, write_ratioNode,
    escape_number, write_link (escape_anchor surroundings file.1), List.append_assoc]
  rfl

theorem write_itemNode (entry : Entry) : (itemNode (rowItem entry)).write = itemText (rowItem entry) := by
  have hbadge : escape (rowItem entry).badge = (rowItem entry).badge := by
    cases hstatus : entry.2.status <;> simp only [rowItem, hstatus] <;> rfl
  have hlabel : escape (rowItem entry).label = (rowItem entry).label := by
    cases hstatus : entry.2.status <;> cases hproperty : entry.2.isProperty <;>
      simp only [rowItem, hstatus, hproperty] <;> rfl
  unfold itemNode itemText
  simp only [Html.write_node, Html.write_append, Html.write_ofText, Html.escape_append, hlabel,
    writeStart_one _ _ hbadge, List.append_assoc]
  rfl

/-- The summaries of a line are made of numbers and of words. -/
theorem escape_entrySummaries (claims : List ReportClaim) :
    escape ("; ".toList.intercalate (entrySummaries claims)) =
      "; ".toList.intercalate (entrySummaries claims) := by
  unfold entrySummaries
  dsimp only
  split
  all_goals
    split
    all_goals
      simp only [List.nil_append, List.append_nil, List.singleton_append, List.intercalate_nil,
        List.intercalate_singleton, List.intercalate_cons_cons, Html.escape_append, escape_toDigits]
      rfl

theorem write_items (row : SourceRow) :
    (Html.join (row.items.map itemNode)).write = row.items.flatMap itemText := by
  unfold SourceRow.items
  rw [Html.write_join, List.flatMap_map, List.flatMap_map, List.flatMap_map]
  apply List.flatMap_congr
  intro entry _
  exact write_itemNode entry

theorem write_detailsNodes (lines : LineMap) (text : Text) (line : Nat) :
    (detailsNodes (sourceRow lines text line)).write = details (sourceRow lines text line) := by
  have hsummaries : escape ("; ".toList.intercalate (sourceRow lines text line).summaries) =
      "; ".toList.intercalate (sourceRow lines text line).summaries :=
    escape_entrySummaries _
  unfold detailsNodes details
  rw [Html.write_append]
  congr 1
  · split
    · rw [Html.write_node, write_words (by decide), List.append_assoc]
      rfl
    · rfl
  · split
    · rfl
    · simp only [Html.write_node, Html.write_append, Html.write_ofText, write_items, hsummaries,
        List.append_assoc]
      rfl

/-- A line of a source writes its chunk. -/
theorem write_sourceLine {anchor : Text} (hanchor : escape anchor = anchor) {row : SourceRow}
    (hdetails : (detailsNodes row).write = details row) :
    (sourceLine anchor row).write = rowChunk anchor row := by
  have hline := escape_lineAnchor hanchor row.number
  have hlevel : escape row.level.name = row.level.name := by
    cases row.level <;> rfl
  unfold sourceLine rowChunk
  simp only [Html.write_node, Html.write_append, Html.write_ofText, writeStart_two _ _ _ hline hlevel,
    write_link hline, hdetails, escape_number, List.append_assoc]
  unfold lineAnchor
  simp only [List.append_assoc]
  rfl

theorem write_sourceLines (file : Text × LineMap) :
    (sourceLines surroundings file).map Html.write = sourceChunks surroundings file := by
  unfold sourceLines sourceChunks
  cases surroundings.source file.1 with
  | none =>
      dsimp only [List.map]
      rw [Html.write_node, Html.write_node, write_words (by decide), List.append_assoc]
      rfl
  | some source =>
      dsimp only
      rw [List.map_map]
      apply List.map_congr_left
      intro row hrow
      obtain ⟨text, -, -, heq⟩ := mem_sourceRows_iff.mp hrow
      have hdetails := write_detailsNodes file.2 text row.number
      rw [← heq] at hdetails
      exact write_sourceLine (escape_anchor surroundings file.1) hdetails

def onNewLines (chunks : List Text) : Text := chunks.flatMap ('\n' :: ·)

theorem onNewLines_append (left right : List Text) :
    onNewLines (left ++ right) = onNewLines left ++ onNewLines right :=
  List.flatMap_append

theorem onNewLines_nil : onNewLines [] = [] := by
  unfold onNewLines
  exact List.flatMap_nil

theorem onNewLines_cons (chunk : Text) (chunks : List Text) :
    onNewLines (chunk :: chunks) = "\n".toList ++ (chunk ++ onNewLines chunks) := by
  unfold onNewLines
  rw [List.flatMap_cons]
  rfl

theorem intercalate_eq_onNewLines (first : Text) (rest : List Text) :
    "\n".toList.intercalate (first :: rest) = first ++ onNewLines rest := by
  induction rest generalizing first with
  | nil => simp [onNewLines]
  | cons second rest ih =>
      rw [List.intercalate_cons_cons, ih, onNewLines_cons, List.append_assoc]

theorem write_newline_join (rows : List Html) :
    (Html.join (rows.map (newline ++ ·))).write = onNewLines (rows.map Html.write) := by
  unfold onNewLines
  rw [Html.write_join, List.flatMap_map, List.flatMap_map]
  apply List.flatMap_congr
  intro row _
  rw [Html.write_append]
  rfl

theorem write_tableHead {titles : List String}
    (hplain : ∀ title ∈ titles, title.toList.all Html.isPlain = true) :
    (tableHead titles).write ++ "<tbody>".toList = headings titles := by
  have htitles : (Html.join (titles.map fun title => node "th" [] (words title))).write =
      titles.flatMap fun title => "<th>".toList ++ title.toList ++ "</th>".toList := by
    rw [Html.write_join, List.flatMap_map]
    apply List.flatMap_congr
    intro title htitle
    rw [Html.write_node, write_words (hplain title htitle), List.append_assoc]
    rfl
  unfold tableHead headings
  simp only [Html.write_node, htitles, List.append_assoc]
  rfl

theorem forall_isPlain_cons {title : String} {titles : List String}
    (htitle : title.toList.all Html.isPlain = true)
    (htitles : ∀ other ∈ titles, other.toList.all Html.isPlain = true) :
    ∀ other ∈ title :: titles, other.toList.all Html.isPlain = true :=
  List.forall_mem_cons.mpr ⟨htitle, htitles⟩

/-- A table, whose rows are chunks. -/
theorem write_table (attributes : List (String × Text)) {titles : List String}
    (hplain : ∀ title ∈ titles, title.toList.all Html.isPlain = true) (rows : List Html)
    (valid : Html.isTag .normal "table".toList ((pairs attributes).map Prod.fst) = true) :
    (table attributes titles rows valid).write =
      writeStart "table".toList (pairs attributes) ++ (headings titles ++
        (onNewLines (rows.map Html.write) ++ ("\n".toList ++ tableEnd))) := by
  rw [← write_tableHead hplain]
  unfold table tableBody tableEnd
  rw [Html.write_node, Html.write_append, Html.write_node, Html.write_append, write_newline_join,
    write_newline]
  simp only [List.append_assoc]
  rfl

/-- The section of a file writes its chunks. -/
theorem write_sectionNode (file : Text × LineMap) :
    onNewLines (sectionChunks surroundings file) =
      "\n".toList ++ (sectionNode surroundings file).write := by
  have hfiles : escape "files".toList = "files".toList := rfl
  have htitles : ∀ title ∈ ["Line", "Checks / goals", "Source"], title.toList.all Html.isPlain = true := by
    repeat refine forall_isPlain_cons (all_ofList rfl) ?_
    exact List.forall_mem_nil _
  unfold sectionNode sectionChunks
  simp (disch := exact all_ofList rfl) only [Html.write_node, Html.write_append, Html.write_ofText, write_words,
    write_link hfiles, writeStart_one _ _ (escape_anchor surroundings file.1),
    write_table _ htitles, write_sourceLines, onNewLines_append, onNewLines_cons, List.append_assoc]
  rfl

theorem write_noticeNodes (data : ReportData) (errors : List Text) :
    (noticeNodes data errors).write = onNewLines (noticeChunks data errors) := by
  unfold noticeNodes noticeChunks
  split
  · simp only [Html.write_append, Html.write_node, Html.write_ofText, escape_incompleteNote,
      onNewLines_cons, write_newline, List.append_assoc]
    rfl
  · rfl

theorem write_revisionNode (revision : Text) (generated : Moment) :
    (revisionNode revision generated).write = revisionChunk revision generated := by
  unfold revisionNode revisionChunk
  simp (disch := exact all_ofList rfl) only [Html.write_append, Html.write_node, Html.write_ofText,
    write_words, escape_isoformat, List.append_assoc]
  rfl

theorem write_detailsNode : detailsNode.write ++ "</header>".toList = detailsChunk := by
  have hlow : (words "<75%").write = "&lt;75%".toList := Html.write_ofText _
  have hmedium : (words "75–<90%").write = "75–&lt;90%".toList := Html.write_ofText _
  have hspans : openSpan .low = "<span class=\"low\">".toList ∧
      openSpan .medium = "<span class=\"medium\">".toList ∧
      openSpan .high = "<span class=\"high\">".toList := ⟨rfl, rfl, rfl⟩
  have hstart : writeStart "p".toList (pairs []) = "<p>".toList := rfl
  have hstop : writeStop "p".toList = "</p>".toList := rfl
  unfold detailsNode detailsChunk
  simp (disch := exact all_ofList rfl) only [Html.write_append, Html.write_node, Html.write_ofText,
    write_words, hlow, hmedium, hspans, hstart, hstop, write_span, escape_detailsNote,
    List.append_assoc]

theorem write_headerNode (data : ReportData) :
    (headerNode surroundings data).write =
      "<header>".toList ++ onNewLines [revisionChunk surroundings.revision surroundings.generated,
        totalsChunk data, boundsChunk, detailsChunk] := by
  rw [← write_detailsNode]
  unfold headerNode boundsChunk
  simp only [Html.write_append, Html.write_node, Html.write_ofText, write_revisionNode,
    write_totalsNode, escape_boundsNote, write_newline, onNewLines_cons, onNewLines_nil,
    List.append_nil, List.append_assoc]
  rfl

theorem write_headNode : Html.declaration ++ ("<html lang=\"en\">".toList ++ (headNode.write ++
    ("<body>".toList ++ ("<h1>".toList ++ ("ESBMC Proof and Branch Coverage Report".toList ++
      ("</h1>".toList ++ "<header>".toList)))))) = openingChunk := by
  unfold headNode openingChunk
  simp only [Html.write_append, Html.write_node, Html.write_leaf, Html.write_rawNode, write_newline,
    List.append_assoc]
  rfl

set_option maxRecDepth 2000 in
/-- The document is written as the chunks of the page are, one a line. -/
theorem write_document (runs : List PageRun) (data : ReportData) :
    Html.declaration ++ (document surroundings runs data).write =
      "\n".toList.intercalate (chunks surroundings runs data) := by
  have hcomponents : (data.componentRows.map componentNode).map Html.write =
      data.componentRows.map componentChunk := by
    rw [List.map_map]
    exact List.map_congr_left fun row _ => write_componentNode row
  have hruns : (runs.map runRow).map Html.write = runs.map runChunk := by
    rw [List.map_map]
    exact List.map_congr_left fun run _ => write_runRow run
  have hfiles : ((sortedItems data.mapped).map (fileRow surroundings)).map Html.write =
      (sortedItems data.mapped).map (fileChunk surroundings) := by
    rw [List.map_map]
    exact List.map_congr_left fun file _ => write_fileRow surroundings file
  have hsections : (Html.join ((sortedItems data.mapped).map fun file =>
        newline ++ sectionNode surroundings file)).write =
      onNewLines ((sortedItems data.mapped).flatMap (sectionChunks surroundings)) := by
    unfold onNewLines
    rw [Html.write_join, List.flatMap_map, List.flatMap_assoc]
    apply List.flatMap_congr
    intro file _
    rw [Html.write_append]
    exact (write_sectionNode surroundings file).symm
  have hcomponentTitles : ∀ title ∈ ["Component", "Branch goals reached", "Safety checks passed"],
      title.toList.all Html.isPlain = true := by
    repeat refine forall_isPlain_cons (all_ofList rfl) ?_
    exact List.forall_mem_nil _
  have hrunTitles : ∀ title ∈ ["Harness / configuration", "Safety proof", "Branch goals reached",
      "Bounds / evidence"], title.toList.all Html.isPlain = true := by
    repeat refine forall_isPlain_cons (all_ofList rfl) ?_
    exact List.forall_mem_nil _
  have hfileTitles : ∀ title ∈ ["File / component", "Branch goals reached", "Safety checks passed",
      "Lines with evidence"], title.toList.all Html.isPlain = true := by
    repeat refine forall_isPlain_cons (all_ofList rfl) ?_
    exact List.forall_mem_nil _
  unfold chunks
  simp only [List.cons_append, List.nil_append]
  rw [intercalate_eq_onNewLines, ← write_headNode]
  unfold document bodyNode componentsHeader runsHeader filesHeader closingChunk
  simp (disch := exact all_ofList rfl) only [Html.write_append, Html.write_node, Html.write_ofText,
    Html.write_leaf, Html.write_rawNode, write_words, write_newline, write_table _ hcomponentTitles,
    write_table _ hrunTitles, write_table _ hfileTitles, write_headerNode, write_noticeNodes, hcomponents, hruns, hfiles, hsections, escape_number, escape_footerNote,
    onNewLines_append, onNewLines_cons, onNewLines_nil, List.append_nil, List.append_assoc]
  rfl

end Files

end Writing

/-- A page is read as its document. -/
theorem parse_chunks (surroundings : Surroundings) (runs : List PageRun) (data : ReportData) :
    Html.parse ("\n".toList.intercalate (chunks surroundings runs data)) =
      some (document surroundings runs data).asRead := by
  rw [← write_document, Html.parse_write]

/-- The page of a report is read as its document: no text of a run, a log, a file or
an error is read as markup. Of the texts only carriage returns, NULs and a newline
that begins a log are not read as they were; a document without them is read as it
is. -/
theorem page_read_as_document (unicode : Unicode) (root : Text)
    (sourcePath : Text → Text → Option Text) (found : List FoundPath) (bundles : List PrintedBundle)
    (surroundings : Surroundings) :
    let page := (render unicode root sourcePath found bundles surroundings).bind Html.parse
    let documents := (aggregate unicode root sourcePath found (bundles.map PrintedBundle.evidence)).map
      fun data => document surroundings (pageRuns bundles data) data
    page = documents.map Html.asRead ∧
      ∀ tree, documents = some tree → tree.isKept false = true → page = some tree := by
  have hread : (render unicode root sourcePath found bundles surroundings).bind Html.parse =
      ((aggregate unicode root sourcePath found (bundles.map PrintedBundle.evidence)).map
        fun data => document surroundings (pageRuns bundles data) data).map Html.asRead := by
    unfold render
    cases aggregate unicode root sourcePath found (bundles.map PrintedBundle.evidence) with
    | none => rfl
    | some data =>
        rw [Option.map_some, Option.bind_some, Option.map_some, Option.map_some, parse_chunks]
  refine ⟨hread, fun tree htree hkept => ?_⟩
  rw [hread, htree, Option.map_some, Html.asRead_eq_self hkept]

end AdaptivePi.Report
