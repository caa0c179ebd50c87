import AdaptivePi.Foundation.Interaction
import AdaptivePi.Log.ConsoleRecord

/-!
`logger.cpp`: the severity filter and `Submit`. Loggers are immutable; a
stream borrows one through a pointer, so the functions here take the table of
loggers that pointers lead to. The metadata provider, the sink and the message
hooks are the environment of a program: each call of them is one question.
-/

namespace AdaptivePi.Log

open Foundation

/-- The fields that `Submit` and `IsEnabled` read; the sink and the metadata
provider are the environment. -/
structure Logger where
  contextId : Bytes
  threshold : LogLevel

abbrev LoggerPtr := Nat

inductive ReadOutcome where
  | acquired (metadata : RuntimeMetadata)
  | unavailable
  | threw

inductive SinkStatus where
  | success
  | writeFailed
  deriving DecidableEq

/-- The calls that leave the logging code. `render` and `traceArti` are the
hooks of a modelled message, called with its parameters. -/
inductive LogEffect (Params : Type) where
  | read
  | write (record : Bytes)
  | render (params : Params)
  | traceArti (params : Params)

abbrev LogEffect.Reply {Params : Type} : LogEffect Params → Type
  | .read => ReadOutcome
  | .write _ => SinkStatus
  | .render _ => Unit
  | .traceArti _ => Unit

abbrev LogProgram (Params α : Type) :=
  Program (LogEffect Params) (@LogEffect.Reply Params) α

abbrev LogEvent (Params : Type) := Sigma (@LogEffect.Reply Params)

abbrev LogEnvironment (Params : Type) := Environment (@LogEffect.Reply Params)

namespace Logger

def isEnabled (logger : Logger) (level : LogLevel) : Bool :=
  let severity := level.byte
  let threshold := logger.threshold.byte
  severity ≥ LogLevel.fatal.byte && severity ≤ LogLevel.verbose.byte &&
    threshold ≤ LogLevel.verbose.byte && severity ≤ threshold

variable {Params : Type}

/-- A failed write is discarded like a successful one. -/
def submit (logger : Logger) (level : LogLevel) (message : Bytes) : LogProgram Params Unit :=
  if message = [] ∨ ¬logger.isEnabled level then .done ()
  else
    .ask .read fun
      | .threw => .done ()
      | .unavailable => .done ()
      | .acquired metadata =>
          match renderConsoleRecord metadata level logger.contextId message .empty with
          | (false, _) => .done ()
          | (true, record) =>
              .ask (.write record.view) fun
                | .success => .done ()
                | .writeFailed => .done ()

/-- The record that a logger writes for a message, if it can be rendered. -/
def recordOf (logger : Logger) (metadata : RuntimeMetadata) (level : LogLevel)
    (message : Bytes) : Option Bytes :=
  if Renderable metadata level ∧
      (consoleRecord metadata level logger.contextId message).length ≤ recordCapacity then
    some (consoleRecord metadata level logger.contextId message)
  else none

/-- One read, and one write of the complete record when the read succeeds and
the record can be rendered. -/
def deliver (logger : Logger) (level : LogLevel) (message : Bytes) : LogProgram Params Unit :=
  .ask .read fun
    | .threw => .done ()
    | .unavailable => .done ()
    | .acquired metadata =>
        match logger.recordOf metadata level message with
        | none => .done ()
        | some record => .ask (.write record) fun _ => .done ()

/-- The calls of a delivery: one read, and one write of the complete console
record if the read succeeds and the record can be rendered. -/
def deliveryCalls (logger : Logger) (env : LogEnvironment Params)
    (history : List (LogEvent Params)) (level : LogLevel) (message : Bytes) :
    List (LogEvent Params) :=
  let outcome := env history .read
  let record := match outcome with
    | .acquired metadata => logger.recordOf metadata level message
    | .unavailable => none
    | .threw => none
  match record with
  | none => [⟨.read, outcome⟩]
  | some bytes =>
      [⟨.read, outcome⟩, ⟨.write bytes, env (history ++ [⟨.read, outcome⟩]) (.write bytes)⟩]

theorem run_deliver (logger : Logger) (env : LogEnvironment Params)
    (history : List (LogEvent Params)) (level : LogLevel) (message : Bytes) :
    Program.run env history (logger.deliver level message) =
      ((), logger.deliveryCalls env history level message) := by
  simp only [deliver, Program.run, deliveryCalls]
  cases env history .read with
  | threw => rfl
  | unavailable => rfl
  | acquired metadata =>
      simp only
      cases logger.recordOf metadata level message with
      | none => rfl
      | some bytes => rfl

/-- A message is delivered unless it is empty or its severity is off. -/
theorem submit_eq_deliver (logger : Logger) (level : LogLevel) (message : Bytes) :
    (logger.submit level message : LogProgram Params Unit) =
      if message ≠ [] ∧ logger.isEnabled level then logger.deliver level message
      else .done () := by
  unfold submit
  by_cases hguard : message = [] ∨ ¬logger.isEnabled level
  · rw [if_pos hguard, if_neg (by tauto)]
  · rw [if_neg hguard, if_pos (by tauto)]
    unfold deliver
    congr 1
    funext outcome
    cases outcome with
    | threw => rfl
    | unavailable => rfl
    | acquired metadata =>
        have hiff := renderConsoleRecord_iff metadata level logger.contextId message .empty
        simp only [RecordBuffer.view_empty, true_and] at hiff
        rcases hrender : renderConsoleRecord metadata level logger.contextId message .empty with
          ⟨success, record⟩
        rw [hrender] at hiff
        cases success with
        | false =>
            have hnone : logger.recordOf metadata level message = none := by
              exact if_neg (fun h => Bool.noConfusion (hiff.mpr h))
            simp only [hrender, hnone]
        | true =>
            have hview := view_renderConsoleRecord (by rw [hrender])
            rw [hrender] at hview
            have hsome : logger.recordOf metadata level message = some record.view := by
              rw [hview]
              exact if_pos (hiff.mp rfl)
            simp only [hrender, hsome]
            congr 1
            funext status
            cases status <;> rfl

end Logger

end AdaptivePi.Log
