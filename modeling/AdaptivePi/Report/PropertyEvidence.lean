import AdaptivePi.Report.ProofStatus

namespace AdaptivePi.Report

open Foundation Foundation.Pattern Foundation.PythonText

inductive Status where
  | covered
  | uncovered
  | unknown
  deriving DecidableEq

structure Property where
  file : Text
  line : Nat
  function : Text
  condition : Text
  status : Status
  deriving DecidableEq

def isDot (char : Char) : Bool := char != '\n'

def locationPattern : List Piece :=
  [group (.many 1 isDot), plain (.literal ", function ".toList), group (.many 1 isDot)]

/-- The file and the function of a line that gives a location. -/
def location (line : Text) : Option (Text × Text) :=
  match fullmatch locationPattern line with
  | some [filename, function] => some (filename, function)
  | _ => none

/-- The groups of a result line. -/
structure ResultRow where
  status : Text
  identifier : Text
  number : Text
  description : Text

variable (unicode : Unicode)

def resultPattern : List Piece :=
  [plain (.many 1 isSpace),
    group (.oneOf ["PASSED".toList, "FAILED".toList, "UNKNOWN".toList, "UNREACHABLE".toList]),
    plain (.many 1 isSpace), plain (.literal "[".toList), group (.many 1 isDot),
    plain (.literal "]".toList), plain (.many 1 isSpace), plain (.literal "line".toList),
    plain (.many 1 isSpace), group (.many 1 unicode.isDecimal), plain (.many 1 isSpace),
    group (.many 1 isDot)]

def resultRow (line : Text) : Option ResultRow :=
  match fullmatch (resultPattern unicode) line with
  | some [status, identifier, number, description] =>
      some ⟨status, identifier, number, description⟩
  | _ => none

def rowStatus (status : Text) : Status :=
  if status = "PASSED".toList then .covered
  else if status = "FAILED".toList then .uncovered
  else .unknown

def ResultRow.property (row : ResultRow) (filename function : Text) : Option Property := do
  let line ← unicode.int row.number
  pure ⟨filename, line, function, row.identifier ++ ": ".toList ++ row.description,
    rowStatus row.status⟩

structure PropertyLoop where
  filename : Option Text
  function : Text
  properties : List Property

def parseLine (loop : PropertyLoop) (line : Text) : Option PropertyLoop :=
  match location line with
  | some (filename, function) => some { loop with filename := some filename, function := function }
  | none =>
      match loop.filename, resultRow unicode line with
      | some filename, some row => do
          let property ← row.property unicode filename loop.function
          pure { loop with properties := loop.properties ++ [property] }
      | _, _ => some loop

/-- `parse_properties`, with `none` for a `ValueError`. -/
def parseProperties (log : Text) : Option (List Property) :=
  ((splitlines log).foldlM (parseLine unicode) ⟨none, [], []⟩).map (·.properties)

def summaryPattern : List Piece :=
  plain (.literal "** ".toList) :: group (.many 1 unicode.isDecimal) ::
    plain (.literal " of ".toList) :: group (.many 1 unicode.isDecimal) ::
    plain (.literal " properties failed, ".toList) :: group (.many 1 unicode.isDecimal) ::
    lineOf isSpace " passed".toList

def summary (log : Text) : Option (List Text) := search true (summaryPattern unicode) log

def agrees (properties : List Property) : List Nat → Bool
  | [failed, total, passed] =>
      total == properties.length && failed + passed == total &&
        properties.countP (·.status = .covered) == passed &&
        properties.countP (·.status = .uncovered) == failed
  | _ => false

def complete (log : Text) (properties : List Property) : Option Bool :=
  match summary unicode log with
  | none => some false
  | some groups => (groups.mapM unicode.int).map (agrees properties)

def incompleteMessage : Text :=
  "Located safety-property results are missing or incomplete.".toList

def Property.shown (complete : Bool) (proofStatus : ProofStatus) (claim : Property) : Property :=
  if claim.status = .covered ∧ (complete = false ∨ proofStatus ≠ .passed) then
    { claim with status := .unknown }
  else claim

/-- `property_evidence`, with `none` for a `ValueError`. -/
def propertyEvidence (log : Text) (proofStatus : ProofStatus) : Option (List Property × Text) := do
  let properties ← parseProperties unicode log
  let complete ← complete unicode log properties
  pure (properties.map (·.shown complete proofStatus), if complete then [] else incompleteMessage)

structure RowClaim where
  isProperty : Bool
  status : Status

inductive Level where
  | none
  | low
  | unknown
  | medium
  | high
  deriving DecidableEq

def lineLevel {ρ : Type*} (entries : List (ρ × RowClaim)) : Level :=
  let claims := entries.map Prod.snd
  if claims = [] then .none
  else if claims.any fun claim => claim.isProperty && claim.status = .uncovered then .low
  else if claims.any fun claim => claim.status = .unknown then .unknown
  else
    let passed := claims.countP fun claim => claim.status = .covered
    if passed = claims.length then .high else if passed = 0 then .low else .medium

end AdaptivePi.Report
