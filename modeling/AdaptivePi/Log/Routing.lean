import AdaptivePi.Log.Payload

namespace AdaptivePi.Log

open Foundation

variable {Params : Type} (loggers : LoggerPtr → Logger)

/-- The payload of a message whose values all have a text, if it fits a
stream. -/
def submittedPayload (attributes : AttributeTuple) (message : ModelledMessage Params)
    (params : Params) : Option Bytes :=
  ((concatenation (message.render params)).map
    (payload message.kId · attributes.attributes)).filter (·.length ≤ messageCapacity)

/-- The calls of `logWith`: rendering and the delivery of the payload on the
logger route, then the trace hook on the trace route. -/
def messageCalls (env : LogEnvironment Params) (history : List (LogEvent Params))
    (this : LoggerPtr) (attributes : AttributeTuple) (message : ModelledMessage Params)
    (params : Params) : List (LogEvent Params) :=
  let logged : List (LogEvent Params) :=
    if message.kLoggerEnabled ∧ (loggers this).isEnabled message.kLevel then
      let rendered : LogEvent Params := ⟨.render params, ()⟩
      rendered :: match submittedPayload attributes message params with
        | none => []
        | some text =>
            (loggers this).deliveryCalls env (history ++ [rendered]) message.kLevel text
    else []
  let traced : List (LogEvent Params) :=
    if message.kTraceEnabled then [⟨.traceArti params, ()⟩] else []
  logged ++ traced

/-- The destruction of the stream delivers the payload, if there is one. -/
theorem Logger.destroy_messageStream (this : LoggerPtr) (attributes : AttributeTuple)
    (message : ModelledMessage Params) (params : Params)
    (henabled : (loggers this).isEnabled message.kLevel = true) :
    ((Logger.messageStream loggers this attributes message params).destroy loggers :
        LogProgram Params Unit) =
      match submittedPayload attributes message params with
      | none => .done ()
      | some text => (loggers this).deliver message.kLevel text := by
  obtain ⟨insertions, hrepresents, htext⟩ :=
    @Logger.carries_messageStream loggers this Params attributes message params
  have hmessage : messageText insertions = submittedPayload attributes message params := by
    rw [messageText, htext, submittedPayload]
  have hsubmission : LogicalRecord.submission loggers ⟨this, message.kLevel, insertions⟩ =
      submittedPayload attributes message params := by
    rw [LogicalRecord.submission, if_pos henabled, hmessage]
    cases hpayload : submittedPayload attributes message params with
    | none => rfl
    | some text =>
        have hne : text ≠ [] := by
          obtain ⟨rendered, -, rfl⟩ : ∃ rendered, concatenation (message.render params) =
              some rendered ∧ payload message.kId rendered attributes.attributes = text := by
            simpa [submittedPayload, Option.filter_eq_some_iff] using
              (Option.filter_eq_some_iff.mp hpayload).1
          simp [payload, ascii]
        simp [Option.filter, hne]
  rw [LogStream.destroy, hrepresents.flush]
  simp only [StreamState.cut, LogicalRecord.deliverAll_singleton, LogicalRecord.deliver,
    hsubmission, Program.bind_assoc, Program.done_bind]
  exact Program.bind_done _

/-- A call of `logWith` makes exactly the calls of its message, in every
environment and after every history. -/
theorem logWith_calls_exactly (this : LoggerPtr) (attributes : AttributeTuple)
    (message : ModelledMessage Params) (params : Params) (env : LogEnvironment Params)
    (history : List (LogEvent Params)) :
    (Program.run env history (Logger.logWith loggers this attributes message params)).2 =
      messageCalls loggers env history this attributes message params := by
  have htrace : ∀ history : List (LogEvent Params),
      (Program.run env history ((if message.kTraceEnabled then
        .ask (.traceArti params) fun _ => .done () else .done ()) : LogProgram Params Unit)).2 =
      if message.kTraceEnabled then [⟨.traceArti params, ()⟩] else [] := by
    intro history
    cases message.kTraceEnabled <;> rfl
  unfold Logger.logWith messageCalls
  simp only [Program.run_bind, htrace]
  congr 1
  by_cases hroute : message.kLoggerEnabled = true
  · by_cases henabled : (loggers this).isEnabled message.kLevel = true
    · simp only [hroute, henabled, if_true, and_self, Program.run]
      rw [Logger.destroy_messageStream loggers this attributes message params henabled]
      cases submittedPayload attributes message params with
      | none => rfl
      | some text =>
          simp only [Logger.run_deliver]
    · simp [hroute, henabled]
  · simp [hroute]

end AdaptivePi.Log
