import AdaptivePi.Foundation.HtmlReader
import AdaptivePi.Report.Ratio
import AdaptivePi.Report.SourceView

/-!
The page that `render` of `esbmc_cov_to_html.py` writes, as the text that it is.
Chunks of HTML are joined by newlines; texts of runs, files and errors are escaped,
numbers and hashes are written as they are.
-/

namespace AdaptivePi.Report

open Foundation Foundation.PythonText
open Foundation.Html (escape)

/-- A run of a bundle, with all that is printed of it. -/
structure PrintedRun extends RunEvidence where
  version : Text
  timeout : Nat
  proofExit : ExitStatus
  coverageExit : ExitStatus
  command : List Text
  coverageCommand : List Text
  coverageLog : Text

structure PrintedBundle where
  runs : List PrintedRun

def PrintedBundle.evidence (bundle : PrintedBundle) : EvidenceBundle :=
  ⟨bundle.runs.map PrintedRun.toRunEvidence⟩

structure Moment where
  year : Nat
  month : Nat
  day : Nat
  hour : Nat
  minute : Nat
  second : Nat

def Moment.isoformat (moment : Moment) : Text :=
  zeroPadded 4 moment.year ++ "-".toList ++ zeroPadded 2 moment.month ++ "-".toList ++
    zeroPadded 2 moment.day ++ "T".toList ++ zeroPadded 2 moment.hour ++ ":".toList ++
    zeroPadded 2 moment.minute ++ ":".toList ++ zeroPadded 2 moment.second ++ "+00:00".toList

/-- What a report is made of, besides the evidence. -/
structure Surroundings where
  revision : Text
  errors : List Text
  generated : Moment
  /-- `(root / filename).read_text(errors="replace")`, unless there is an `OSError`. -/
  source : Text → Option Text
  sha256 : Esbmc.Sha256

structure PageRun where
  printed : PrintedRun
  counted : ReportRun
  propertyError : Text

def ProofStatus.text : ProofStatus → Text
  | .passed => "passed".toList
  | .failed => "failed".toList
  | .unknown => "unknown".toList

/-- `{"passed": "high", "failed": "low"}.get(status, "unknown")` -/
def ProofStatus.level : ProofStatus → Level
  | .passed => .high
  | .failed => .low
  | .unknown => .unknown

def matchesLetter (letter char : Char) : Bool :=
  char = letter || char = letter.toUpper ||
    (letter = 'i' && (char = '\u0130' || char = '\u0131')) || (letter = 's' && char = '\u017f')

def beginsWith : Text → Text → Bool
  | [], _ => true
  | _ :: _, [] => false
  | letter :: pattern, char :: text => matchesLetter letter char && beginsWith pattern text

/-- `re.search(r"unwinding assertion", log, re.I)` -/
def reportsUnwinding : Text → Bool
  | [] => false
  | char :: log => beginsWith "unwinding assertion".toList (char :: log) || reportsUnwinding log

section Constants

def styleSheet : Text := ["\n",
  "body\x7bfont:15px Arial,sans-serif;margin:20px;color:#17202a\x7dh1\x7btext-align:center\x7d\n",
  "a\x7bcolor:#0645ad\x7dtable\x7bborder-collapse:collapse;width:100%;margin:16px 0\x7d\n",
  "th\x7bbackground:#487fac;color:white;text-align:left\x7d",
  "th,td\x7bpadding:5px 9px;border:1px solid #d7e1ed\x7d\n",
  "tbody tr:nth-child(even)\x7bbackground:#edf3fa\x7d.high\x7bbackground:#86df87\x7d",
  ".medium\x7bbackground:#ffff70\x7d\n",
  ".low\x7bbackground:#ffacaa\x7d.unknown\x7bbackground:#e3e3e3\x7d",
  ".high,.medium,.low,.unknown\x7bpadding:2px 5px\x7d\n",
  "meter\x7bmargin-left:12px;width:130px\x7dsummary\x7bcursor:pointer\x7d",
  "pre\x7bwhite-space:pre-wrap;overflow-wrap:anywhere\x7d\n",
  ".source\x7bfont:13px monospace\x7d.source td\x7bpadding:2px 6px\x7d",
  ".source code\x7bwhite-space:pre\x7d\n",
  ".source tr.high\x7bbackground:#86df87\x7d.source tr.medium\x7bbackground:#ffff70\x7d\n",
  ".source tr.low\x7bbackground:#ffacaa\x7d.source tr.unknown\x7bbackground:#e3e3e3\x7d\n",
  ".source .number\x7bwidth:45px;background:#eee\x7d.source .goals\x7bwidth:260px\x7d\n",
  ".no-proof\x7bcolor:#725000;background:#fff1ca;padding:2px 5px;display:inline-block\x7d\n",
  ".scroll\x7boverflow:auto\x7dheader,footer\x7bborder-block:2px solid #487fac;padding:12px 0\x7d\n",
  "input\x7bpadding:8px;width:min(600px,90%)\x7d.notice\x7bpadding:10px;background:#fff1ca\x7d\n"].flatMap
    String.toList

def boundsNote : Text := [
  "Bounded reachability within registered harnesses and their assumptions. ",
  "A reached branch is not a safety proof. Counts sum goals across harnesses and ",
  "exception modes; they are not unique program branches. Only production sources ",
  "are counted; proof harnesses, tests, and external libraries are excluded. ",
  "Unreached means no witness ",
  "within this model and bound, not necessarily unreachable in the program."].flatMap String.toList

def detailsNote : Text := [
  "Source details distinguish safety properties from branch reachability. ",
  "Passed safety checks establish only the listed properties within the harness model and bounds, ",
  "not correctness of every operation on a line. No branch goals does not mean no proof evidence. ",
  "Instruction/line execution coverage is unavailable from this output. ",
  "No proof evidence means no located safety check was recorded, not a failed proof. ",
  "This label is not an executable-line classification; declarations may also lack checks. ",
  "Branch not reached means no witness within the model and bound, not a runtime hit count. ",
  "Thresholds: "].flatMap String.toList

def incompleteNote : Text := [
  "Incomplete report: missing or unsuccessful coverage runs ",
  "are excluded from percentages. Missing or incomplete located safety-property results ",
  "cannot establish source-level proof evidence. "].flatMap String.toList

def footerNote : Text := [
  " non-production goals excluded from all coverage totals ",
  "and source views. Bounds are recorded per run; this report ",
  "does not infer which unreached goals would become reachable with a larger bound."].flatMap
    String.toList

def filterScript : Text := [
  "document.getElementById(\"filter\").addEventListener(\"input\",function()\x7b",
  "for(const row of document.querySelectorAll(\"#files tbody tr\"))",
  "row.hidden=!row.cells[0].textContent.toLowerCase().includes(this.value.toLowerCase());",
  "\x7d);"].flatMap String.toList

end Constants

def number (n : Nat) : Text := Nat.toDigits 10 n

def revisionChunk (revision : Text) (generated : Moment) : Text :=
  "<p>".toList ++ "Revision: ".toList ++ "<code>".toList ++ escape revision ++ "</code>".toList ++
    " · Generated: ".toList ++ generated.isoformat ++ "</p>".toList

def totalsChunk (data : ReportData) : Text :=
  "<p>".toList ++ "Safety proofs passed: ".toList ++
    number (data.runs.countP (·.evidence.proofStatus = .passed)) ++ " / ".toList ++
    number data.runs.length ++ " · Production safety checks passed: ".toList ++
    ratio floatPercentage data.checks.1 data.checks.2 ++ " · Branch goals reached: ".toList ++
    ratio floatPercentage data.branches.1 data.branches.2 ++ " · Coverage runs unavailable: ".toList ++
    number (data.runs.countP (·.coverage.isNone)) ++
    " · Located safety-property inventories unavailable: ".toList ++
    number (data.propertyErrors.countP (· ≠ [])) ++ "</p>".toList

def boundsChunk : Text := "<p>".toList ++ boundsNote ++ "</p>".toList

def detailsChunk : Text :=
  "<p>".toList ++ detailsNote ++ "<span class=\"low\">".toList ++ "&lt;75%".toList ++
    "</span>".toList ++ " ".toList ++ "<span class=\"medium\">".toList ++ "75–&lt;90%".toList ++
    "</span>".toList ++ " ".toList ++ "<span class=\"high\">".toList ++ "≥90%".toList ++
    "</span>".toList ++ ".".toList ++ "</p>".toList ++ "</header>".toList

/-- `errors or unknown or property_unknown or not runs` -/
def ReportData.isIncomplete (data : ReportData) (errors : List Text) : Bool :=
  !errors.isEmpty || 0 < data.runs.countP (·.coverage.isNone) ||
    0 < data.propertyErrors.countP (· ≠ []) || data.runs.isEmpty

def noticeChunks (data : ReportData) (errors : List Text) : List Text :=
  if data.isIncomplete errors then
    ["<p class=\"notice\">".toList ++ incompleteNote ++ escape ("; ".toList.intercalate errors) ++
      "</p>".toList]
  else []

def componentChunk (row : TotalsRow) : Text :=
  "<tr>".toList ++ "<td>".toList ++ escape row.name ++ "</td>".toList ++ "<td>".toList ++
    branchMetric floatPercentage row.branches ++ "</td>".toList ++ "<td>".toList ++
    ratio floatPercentage row.checks.1 row.checks.2 ++ "</td>".toList ++ "</tr>".toList

def boundNote (run : RunEvidence) : Text :=
  if run.proofStatus ≠ .passed && reportsUnwinding run.proofLog then
    "<br>".toList ++ "<span class=\"medium\">".toList ++
      "Unwinding limit reported; inspect safety log".toList ++ "</span>".toList
  else []

def logText (run : PageRun) : Text :=
  escape run.printed.version ++ "\n".toList ++ escape run.counted.error ++ "\n".toList ++
    escape run.propertyError ++ "\n".toList ++
    "Safety exit: ".toList ++ escape run.printed.proofExit.text ++ "\n".toList ++
    escape (shlexJoin run.printed.command) ++ "\n".toList ++ escape run.printed.proofLog ++
    "\n".toList ++ "Coverage exit: ".toList ++ escape run.printed.coverageExit.text ++ "\n".toList ++
    escape (shlexJoin run.printed.coverageCommand) ++ "\n".toList ++
    escape run.printed.coverageLog

def runChunk (run : PageRun) : Text :=
  "<tr>".toList ++ "<td>".toList ++ escape run.printed.name ++ "<br>".toList ++
    "Exceptions: ".toList ++ escape run.printed.exceptions ++ "</td>".toList ++
    "<td>".toList ++ openSpan run.printed.proofStatus.level ++ escape run.printed.proofStatus.text ++
    "</span>".toList ++ "</td>".toList ++ "<td>".toList ++ runMetric floatPercentage run.counted ++ "</td>".toList ++
    "<td>".toList ++ "Unwind: ".toList ++ escape run.printed.unwind ++ "; timeout: ".toList ++
    escape (number run.printed.timeout) ++ "s per analysis".toList ++
    boundNote run.printed.toRunEvidence ++ "<details>".toList ++ "<summary>".toList ++
    "Commands and logs".toList ++ "</summary>".toList ++ "<pre>".toList ++ logText run ++
    "</pre>".toList ++ "</details>".toList ++ "</td>".toList ++ "</tr>".toList

section Files

variable (surroundings : Surroundings)

def anchor (filename : Text) : Text :=
  "file-".toList ++ (surroundings.sha256.digest filename).take 16

def fileChunk (file : Text × LineMap) : Text :=
  let row := totalsRow file.1 (lineClaims file.2)
  "<tr>".toList ++ "<td>".toList ++ ("<a href=\"#".toList ++ anchor surroundings file.1 ++
    "\">".toList) ++ escape file.1 ++ "</a>".toList ++ "</td>".toList ++
    "<td>".toList ++ branchMetric floatPercentage row.branches ++ "</td>".toList ++ "<td>".toList ++
    ratio floatPercentage row.checks.1 row.checks.2 ++ "</td>".toList ++ "<td>".toList ++
    number file.2.items.length ++ "</td>".toList ++ "</tr>".toList

def itemText (item : RowItem) : Text :=
  "<li>".toList ++ ("<span class=\"".toList ++ item.badge ++ "\">".toList) ++ item.label ++
    "</span>".toList ++ ": ".toList ++ escape item.condition ++ " (".toList ++ escape item.name ++
    ", exceptions ".toList ++ escape item.exceptions ++ ", unwind ".toList ++ escape item.unwind ++
    ")".toList ++ "</li>".toList

def details (row : SourceRow) : Text :=
  (if row.withoutProof then
    "<span class=\"no-proof\">".toList ++ "No proof evidence".toList ++ "</span>".toList
  else []) ++
  if row.entries = [] then []
  else
    "<details>".toList ++ "<summary>".toList ++ "; ".toList.intercalate row.summaries ++
      "</summary>".toList ++ "<ul>".toList ++ row.items.flatMap itemText ++ "</ul>".toList ++
      "</details>".toList

def rowChunk (anchor : Text) (row : SourceRow) : Text :=
  ("<tr id=\"".toList ++ anchor ++ "-L".toList ++ number row.number ++ "\" class=\"".toList ++
    row.level.name ++ "\">".toList) ++ "<td class=\"number\">".toList ++
    ("<a href=\"#".toList ++ anchor ++ "-L".toList ++ number row.number ++ "\">".toList) ++
    number row.number ++ "</a>".toList ++ "</td>".toList ++ "<td class=\"goals\">".toList ++
    details row ++ "</td>".toList ++ "<td>".toList ++ "<code>".toList ++ escape row.text ++
    "</code>".toList ++ "</td>".toList ++ "</tr>".toList

/-- The rows of a file, unless its source cannot be read. -/
def sourceChunks (file : Text × LineMap) : List Text :=
  match surroundings.source file.1 with
  | none => ["<tr>".toList ++ "<td colspan=\"3\">".toList ++ "Source unavailable".toList ++
      "</td>".toList ++ "</tr>".toList]
  | some source => (sourceRows file.2 source).map (rowChunk (anchor surroundings file.1))

def headings (titles : List String) : Text :=
  "<thead>".toList ++ "<tr>".toList ++
    titles.flatMap (fun title => "<th>".toList ++ title.toList ++ "</th>".toList) ++
    "</tr>".toList ++ "</thead>".toList ++ "<tbody>".toList

def sectionChunks (file : Text × LineMap) : List Text :=
  [("<section id=\"".toList ++ anchor surroundings file.1 ++ "\">".toList) ++ "<h3>".toList ++
    escape file.1 ++ "</h3>".toList ++ "<a href=\"#files\">".toList ++ "Back to files".toList ++
    "</a>".toList ++ "<div class=\"scroll\">".toList ++ "<table class=\"source\">".toList ++
    headings ["Line", "Checks / goals", "Source"]] ++
    sourceChunks surroundings file ++
    ["</tbody>".toList ++ "</table>".toList ++ "</div>".toList ++ "</section>".toList]

end Files

def openingChunk : Text :=
  "<!doctype html>".toList ++ "<html lang=\"en\">".toList ++ "<head>".toList ++
    "<meta charset=\"utf-8\">".toList ++ "\n".toList ++
    "<meta name=\"viewport\" content=\"width=device-width,initial-scale=1\">".toList ++ "\n".toList ++
    "<title>".toList ++ "ESBMC Proof and Branch Coverage Report".toList ++ "</title>".toList ++
    "<style>".toList ++ styleSheet ++ "</style>".toList ++ "</head>".toList ++ "<body>".toList ++
    "<h1>".toList ++ "ESBMC Proof and Branch Coverage Report".toList ++ "</h1>".toList ++
    "<header>".toList

def tableEnd : Text := "</tbody>".toList ++ "</table>".toList

def componentsHeader : Text :=
  "<h2>".toList ++ "Components".toList ++ "</h2>".toList ++ "<table>".toList ++
    headings ["Component", "Branch goals reached", "Safety checks passed"]

def runsHeader : Text :=
  "<h2>".toList ++ "Proof runs".toList ++ "</h2>".toList ++ "<table>".toList ++
    headings ["Harness / configuration", "Safety proof", "Branch goals reached", "Bounds / evidence"]

def filesHeader : Text :=
  tableEnd ++ "<h2>".toList ++ "Source files".toList ++ "</h2>".toList ++ "<label>".toList ++
    "Filter files ".toList ++
    "<input id=\"filter\" type=\"search\" placeholder=\"File or component name\">".toList ++
    "</label>".toList ++ "<table id=\"files\">".toList ++
    headings ["File / component", "Branch goals reached", "Safety checks passed",
      "Lines with evidence"]

def closingChunk (excluded : Nat) : Text :=
  "<footer>".toList ++ number excluded ++ footerNote ++ "</footer>".toList ++ "<script>".toList ++
    filterScript ++ "</script>".toList ++ "</body>".toList ++ "</html>".toList

def chunks (surroundings : Surroundings) (runs : List PageRun) (data : ReportData) : List Text :=
  [openingChunk, revisionChunk surroundings.revision surroundings.generated, totalsChunk data,
    boundsChunk, detailsChunk] ++
  noticeChunks data surroundings.errors ++
  [componentsHeader] ++ data.componentRows.map componentChunk ++ [tableEnd] ++
  [runsHeader] ++ runs.map runChunk ++
  [filesHeader] ++ (sortedItems data.mapped).map (fileChunk surroundings) ++ [tableEnd] ++
  (sortedItems data.mapped).flatMap (sectionChunks surroundings) ++ [closingChunk data.excluded]

def pageRuns (bundles : List PrintedBundle) (data : ReportData) : List PageRun :=
  ((bundles.flatMap (·.runs)).zip (data.runs.zip data.propertyErrors)).map
    fun (printed, counted, error) => ⟨printed, counted, error⟩

/-- `render`, with `none` for a `ValueError` -/
def render (unicode : Unicode) (root : Text) (sourcePath : Text → Text → Option Text)
    (found : List FoundPath) (bundles : List PrintedBundle) (surroundings : Surroundings) :
    Option Text :=
  (aggregate unicode root sourcePath found (bundles.map PrintedBundle.evidence)).map fun data =>
    "\n".toList.intercalate (chunks surroundings (pageRuns bundles data) data)

end AdaptivePi.Report
