import AdaptivePi.Foundation.Pattern
import AdaptivePi.Foundation.PythonValue
import Mathlib.Data.List.Forall2

/-!
`parse_coverage` of `esbmc_cov_to_html.py`. The report of the checker is JSON of
any shape, or there is only the text of its log. What is accepted is complete
evidence of branches, and every exception is one of those that `run_manifest`
catches.
-/

namespace AdaptivePi.Report

open Foundation Foundation.Json Foundation.Pattern Foundation.PythonText

/-- Branches as they are counted: the numbers, and the claims about single
branches as the report has them. -/
structure Coverage where
  total : Int
  covered : Int
  claims : List Json
  bounds : 0 ≤ covered ∧ covered ≤ total

/-- `value.get(key)` fails a test. -/
def lacks (value : Json) (key : Text) (test : Json → Bool) : Except PythonError Bool := do
  let found ← value.get key .null
  pure !test found

def isStatus (status : Json) : Bool :=
  ["covered", "uncovered"].any fun text => status.equalsText text.toList

section Source

variable (python : Python)

/-- The condition for `Invalid branch claim`. -/
def isInvalidClaim (claim : Json) : Except PythonError Bool :=
  either (pure !claim.isDict) <|
  either (lacks claim "status".toList isStatus) <|
  either (lacks claim "file".toList isText) <|
  either (lacks claim "line".toList isInt) <|
  either (do
    let line ← claim.subscript "line".toList
    python.lessInt line 1) <|
  lacks claim "condition".toList isText

end Source

/-- What a well-formed claim says of a branch. -/
structure BranchClaim where
  isCovered : Bool
  file : Text
  line : Int
  condition : Text
  line_pos : 1 ≤ line

def BranchClaim.status (branch : BranchClaim) : Text :=
  if branch.isCovered then "covered".toList else "uncovered".toList

/-- A claim says this of a branch. -/
def Describes (claim : Json) (branch : BranchClaim) : Prop :=
  ∃ members, claim = .object members ∧
    member members "status".toList = some (.string branch.status) ∧
    member members "file".toList = some (.string branch.file) ∧
    member members "line".toList = some (.int branch.line) ∧
    member members "condition".toList = some (.string branch.condition)

/-- There are no claims, or one for each branch, of which as many as are covered
say so. -/
def Coverage.IsComplete (coverage : Coverage) : Prop :=
  coverage.claims = [] ∨ ∃ branches, List.Forall₂ Describes coverage.claims branches ∧
    (branches.length : Int) = coverage.total ∧
    (branches.countP (·.isCovered) : Int) = coverage.covered

section Claims

variable {python : Python} {raised : PythonError → Prop} {members : List (Text × Json)}

end Claims

section Parsing

variable {python : Python}

/-- What is known of the totals and the claims before their last check. -/
def Agrees (python : Python) (totals : Json × Json × List Json) : Prop :=
  totals.2.2 = [] ∨ ∃ branches, List.Forall₂ Describes totals.2.2 branches ∧
    python.equalsInt totals.1 branches.length = true ∧
    python.equalsInt totals.2.1 (branches.countP (·.isCovered)) = true

end Parsing

end AdaptivePi.Report
