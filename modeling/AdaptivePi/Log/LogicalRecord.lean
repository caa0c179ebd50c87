import AdaptivePi.Log.LogStream

/-!
What a stream is for. A logical record is the list of values inserted between
two submissions; its message is their rendered concatenation, if every value
has a text and the whole fits the capacity. A stream represents the insertions
that are still pending: its buffer, its sticky failure flag and its logger
pointer are determined by them, and a flush delivers exactly that record.
-/

namespace AdaptivePi.Log

open Foundation

namespace Insertion

def rendered : Insertion → Option Bytes
  | .stringView value => some value
  | .string value => some value
  | .cString value => value.map cStringView
  | .char value => some [value]
  | .bool value => some (if value then ascii "true" else ascii "false")
  | .float value => some (floatingText .binary32 9 value)
  | .double value => some (floatingText .binary64 17 value)
  | .integer type value => some (decimalInt (type.value value))
where
  floatingText (format : FloatFormat) (precision : Nat) (value : BitVec format.width) :
      Bytes :=
    if format.isNaN value then ascii "nan"
    else if format.isInfinite value then
      if format.signBit value then ascii "-inf" else ascii "inf"
    else format.generalText precision value

end Insertion

def concatenation : List Insertion → Option Bytes
  | [] => some []
  | insertion :: rest => do
      let text ← insertion.rendered
      let texts ← concatenation rest
      some (text ++ texts)

/-- The concatenation, if it fits the capacity of a stream. -/
def messageText (insertions : List Insertion) : Option Bytes :=
  (concatenation insertions).filter (·.length ≤ messageCapacity)

theorem concatenation_cons (insertion : Insertion) (rest : List Insertion) :
    concatenation (insertion :: rest) =
      insertion.rendered.bind fun text => (concatenation rest).map (text ++ ·) := by
  cases h : concatenation rest <;> simp [concatenation, h]

theorem concatenation_append (left right : List Insertion) :
    concatenation (left ++ right) =
      (concatenation left).bind fun text => (concatenation right).map (text ++ ·) := by
  induction left with
  | nil => cases h : concatenation right <;> simp [concatenation, h]
  | cons insertion left ih =>
      simp only [List.cons_append, concatenation, ih]
      cases insertion.rendered <;> cases concatenation left <;> cases concatenation right <;>
        simp

theorem concatenation_snoc (insertions : List Insertion) (insertion : Insertion) :
    concatenation (insertions ++ [insertion]) =
      (concatenation insertions).bind fun text => insertion.rendered.map (text ++ ·) := by
  rw [concatenation_append]
  cases h : insertion.rendered <;> simp [concatenation, h]

/-- The text of a message fits a stream. -/
theorem messageText_eq_some_iff {insertions : List Insertion} {text : Bytes} :
    messageText insertions = some text ↔
      concatenation insertions = some text ∧ text.length ≤ messageCapacity := by
  simp [messageText, Option.filter_eq_some_iff]

@[simp] theorem messageText_nil : messageText [] = some [] := by
  simp [messageText_eq_some_iff, concatenation]

/-- A record that has failed stays failed. -/
theorem messageText_snoc_of_none {insertions : List Insertion} (insertion : Insertion)
    (h : messageText insertions = none) : messageText (insertions ++ [insertion]) = none := by
  rw [Option.eq_none_iff_forall_ne_some] at h ⊢
  intro text htext
  obtain ⟨hconcatenation, hlength⟩ := messageText_eq_some_iff.mp htext
  rw [concatenation_snoc] at hconcatenation
  cases hprevious : concatenation insertions with
  | none => simp [hprevious] at hconcatenation
  | some previous =>
      cases hlast : insertion.rendered with
      | none => simp [hlast, hprevious] at hconcatenation
      | some last =>
          simp only [hprevious, hlast, Option.bind_some, Option.map_some,
            Option.some.injEq] at hconcatenation
          subst hconcatenation
          rw [List.length_append] at hlength
          exact h previous (messageText_eq_some_iff.mpr ⟨hprevious, by omega⟩)

namespace LogStream

theorem append_inactive {stream : LogStream} (value : Bytes)
    (hinactive : stream.inactive = true) : stream.append value = stream := by
  simp [append, hinactive]

private theorem insertFloating_eq (stream : LogStream) (format : FloatFormat)
    (precision : Nat) (value : BitVec format.width)
    (hfits : (format.generalText precision value).length ≤ floatingBufferSize) :
    stream.insertFloating format precision value =
      stream.append (Insertion.rendered.floatingText format precision value) := by
  unfold insertFloating Insertion.rendered.floatingText
  by_cases hinactive : stream.inactive = true
  · rw [if_pos hinactive, append_inactive _ hinactive]
  · rw [if_neg hinactive]
    have htext : formatFloating format precision floatingBufferSize value =
        some (format.generalText precision value) := if_pos hfits
    rw [htext]
    split_ifs <;> rfl

/-- Every insertion appends the text of its value or, for a null pointer,
fails. -/
theorem insert_eq (stream : LogStream) (insertion : Insertion) :
    stream.insert insertion =
      match insertion.rendered with
      | some text => stream.append text
      | none => if stream.inactive then stream else stream.fail := by
  cases insertion with
  | stringView value => rfl
  | string value => rfl
  | cString value =>
      cases value with
      | none => rfl
      | some memory =>
          by_cases hinactive : stream.inactive = true
          · simp [insert, Insertion.rendered, hinactive, append_inactive]
          · simp [insert, Insertion.rendered, hinactive]
  | char value => rfl
  | bool value => rfl
  | float value =>
      exact stream.insertFloating_eq .binary32 9 value
        (FloatFormat.binary32_generalText_length_le value)
  | double value =>
      exact stream.insertFloating_eq .binary64 17 value
        (FloatFormat.binary64_generalText_length_le value)
  | integer type value =>
      by_cases hinactive : stream.inactive = true
      · simp [insert, Insertion.rendered, hinactive, append_inactive]
      · simp [insert, Insertion.rendered, hinactive, toChars_integral]

theorem insert_inactive {stream : LogStream} (insertion : Insertion)
    (hinactive : stream.inactive = true) : stream.insert insertion = stream := by
  rw [insert_eq]
  cases insertion.rendered with
  | none => simp [hinactive]
  | some text => exact append_inactive text hinactive

/-- What an append leaves alone. -/
theorem append_frame (stream : LogStream) (value : Bytes) :
    (stream.append value).logger = stream.logger ∧
      (stream.append value).level = stream.level ∧
      (stream.append value).enabled = stream.enabled := by
  unfold append
  split_ifs <;> exact ⟨rfl, rfl, rfl⟩

/-- A text that fits is appended; a longer one invalidates the record. -/
theorem append_active {stream : LogStream} (value : Bytes)
    (hactive : stream.inactive = false) :
    ((stream.append value).failed = true ↔
        messageCapacity < stream.buffer.view.length + value.length) ∧
      ((stream.append value).failed = false →
        (stream.append value).buffer.view = stream.buffer.view ++ value) := by
  have hfailed : stream.failed = false := by
    simp only [inactive, Bool.or_eq_false_iff] at hactive
    exact hactive.2
  have hle := stream.buffer.view_length_le
  have hroom : sizeSub messageCapacity stream.buffer.size =
      messageCapacity - stream.buffer.view.length := by
    rw [sizeSub_eq stream.buffer.size_le (by decide), FixedBuffer.view_length]
  unfold append
  simp only [hactive, Bool.false_eq_true, false_or]
  split_ifs with hempty hfull
  · subst hempty
    refine ⟨?_, fun _ => by simp⟩
    simpa only [hfailed, Bool.false_eq_true, List.length_nil, Nat.add_zero, false_iff, not_lt]
      using hle
  · refine ⟨?_, fun h => Bool.noConfusion h⟩
    simp only [fail, true_iff]
    omega
  · refine ⟨?_, fun _ => FixedBuffer.view_append ..⟩
    simp only [hfailed, Bool.false_eq_true, false_iff]
    omega

/-- The buffer and the failure flag of a stream that accepts values hold the
message of the insertions so far, or its absence. -/
def Holds (stream : LogStream) (insertions : List Insertion) : Prop :=
  stream.failed = (messageText insertions).isNone ∧
    ∀ text, messageText insertions = some text → stream.buffer.view = text

/-- Each insertion adds its text, or the stream fails. -/
theorem Holds.insert {stream : LogStream} {insertions : List Insertion}
    (h : stream.Holds insertions) (insertion : Insertion) (hlogger : stream.logger.isSome)
    (henabled : stream.enabled = true) :
    (stream.insert insertion).Holds (insertions ++ [insertion]) := by
  obtain ⟨hfailed, hview⟩ := h
  cases hmessage : messageText insertions with
  | none =>
      have hinactive : stream.inactive = true := by
        simp [inactive, hfailed, hmessage]
      have hnone := messageText_snoc_of_none insertion hmessage
      rw [insert_inactive insertion hinactive]
      simp [Holds, hnone, hfailed, hmessage]
  | some text =>
      rw [insert_eq]
      have hactive : stream.inactive = false := by
        have hsome : stream.logger.isNone = false := by
          simpa [Option.isNone_eq_false_iff] using hlogger
        simp [inactive, hfailed, hmessage, henabled, hsome]
      obtain ⟨hconcatenation, -⟩ := messageText_eq_some_iff.mp hmessage
      have htext := hview text hmessage
      cases hrendered : insertion.rendered with
      | none =>
          have hnone : messageText (insertions ++ [insertion]) = none := by
            simp [messageText, concatenation_snoc, hconcatenation, hrendered]
          simp [Holds, hactive, hnone, fail]
      | some last =>
          obtain ⟨happend, hview'⟩ := append_active last hactive
          rw [htext] at happend hview'
          simp only
          have hsnoc : messageText (insertions ++ [insertion]) =
              if text.length + last.length ≤ messageCapacity then some (text ++ last)
              else none := by
            simp [messageText, concatenation_snoc, hconcatenation, hrendered, Option.filter]
          unfold Holds
          rw [hsnoc]
          split_ifs with hfits
          · have hok : (stream.append last).failed = false := by
              rw [Bool.eq_false_iff, ne_eq, happend]
              omega
            refine ⟨by simp [hok], ?_⟩
            rintro _ ⟨⟩
            exact hview' hok
          · refine ⟨?_, by simp⟩
            simp only [Option.isNone_none, happend]
            omega

end LogStream

structure LogicalRecord where
  logger : LoggerPtr
  level : LogLevel
  insertions : List Insertion

namespace LogicalRecord

variable {Params : Type} (loggers : LoggerPtr → Logger)

/-- The message that is submitted: the severity is enabled, no value is a null
pointer, and the message has between one byte and the capacity. -/
def submission (record : LogicalRecord) : Option Bytes :=
  if (loggers record.logger).isEnabled record.level then
    (messageText record.insertions).filter (· ≠ [])
  else none

def deliver (record : LogicalRecord) : LogProgram Params Unit :=
  match record.submission loggers with
  | none => .done ()
  | some message => (loggers record.logger).deliver record.level message

def deliverAll : List LogicalRecord → LogProgram Params Unit
  | [] => .done ()
  | record :: rest => (record.deliver loggers).bind fun _ => deliverAll rest

theorem deliverAll_append (left right : List LogicalRecord) :
    (deliverAll loggers (left ++ right) : LogProgram Params Unit) =
      (deliverAll loggers left).bind fun _ => deliverAll loggers right := by
  induction left with
  | nil => rfl
  | cons record left ih =>
      simp only [List.cons_append, deliverAll, ih, Program.bind_assoc]

theorem deliverAll_singleton (record : LogicalRecord) :
    (deliverAll loggers [record] : LogProgram Params Unit) = record.deliver loggers := by
  exact Program.bind_done _

end LogicalRecord

inductive StreamState where
  | movedFrom
  | pending (record : LogicalRecord)

namespace StreamState

def insert (state : StreamState) (insertion : Insertion) : StreamState :=
  match state with
  | movedFrom => movedFrom
  | pending record =>
      pending { record with insertions := record.insertions ++ [insertion] }

/-- What a flush cuts off. -/
def cut : StreamState → List LogicalRecord
  | movedFrom => []
  | pending record => [record]

def reset : StreamState → StreamState
  | movedFrom => movedFrom
  | pending record => pending { record with insertions := [] }

/-- The stream's fields are those that the pending record determines. -/
def Represents (loggers : LoggerPtr → Logger) (stream : LogStream) : StreamState → Prop
  | movedFrom => stream.logger = none
  | pending record =>
      stream.logger = some record.logger ∧ stream.level = record.level ∧
        stream.enabled = (loggers record.logger).isEnabled record.level ∧
        (stream.enabled = true → stream.Holds record.insertions)

variable {loggers : LoggerPtr → Logger} {stream : LogStream} {state : StreamState}

theorem represents_construct (logger : LoggerPtr) (level : LogLevel) :
    (pending ⟨logger, level, []⟩).Represents loggers (.construct loggers logger level) := by
  refine ⟨rfl, rfl, rfl, fun _ => ?_⟩
  simp [LogStream.Holds, LogStream.construct]

theorem Represents.insert (h : state.Represents loggers stream) (insertion : Insertion) :
    (state.insert insertion).Represents loggers (stream.insert insertion) := by
  cases state with
  | movedFrom =>
      have hinactive : stream.inactive = true := by
        have hlogger : stream.logger = none := h
        simp [LogStream.inactive, hlogger]
      rw [LogStream.insert_inactive insertion hinactive]
      exact h
  | pending record =>
      obtain ⟨hlogger, hlevel, henabled, hholds⟩ := h
      have hframe : (stream.insert insertion).logger = stream.logger ∧
          (stream.insert insertion).level = stream.level ∧
          (stream.insert insertion).enabled = stream.enabled := by
        rw [LogStream.insert_eq]
        cases insertion.rendered with
        | none =>
            simp only
            split_ifs <;> exact ⟨rfl, rfl, rfl⟩
        | some text => exact stream.append_frame text
      obtain ⟨hlogger', hlevel', henabled'⟩ := hframe
      refine ⟨hlogger'.trans hlogger, hlevel'.trans hlevel, henabled'.trans henabled, ?_⟩
      intro hactive
      rw [henabled'] at hactive
      exact (hholds hactive).insert insertion (by simp [hlogger]) hactive

/-- The record moves to the new stream. -/
theorem Represents.moveConstruct (h : state.Represents loggers stream) :
    state.Represents loggers stream.moveConstruct.1 ∧
      movedFrom.Represents loggers stream.moveConstruct.2 := by
  refine ⟨?_, rfl⟩
  have hview : stream.moveConstruct.1.buffer.view = stream.buffer.view := by
    simp only [LogStream.moveConstruct]
    split_ifs with hsize
    · simp
    · rw [FixedBuffer.view_zeroed, eq_comm, FixedBuffer.view_eq_nil_iff]
      exact not_not.mp hsize
  cases state with
  | movedFrom => exact h
  | pending record =>
      obtain ⟨hlogger, hlevel, henabled, hholds⟩ := h
      refine ⟨hlogger, hlevel, henabled, fun hactive => ?_⟩
      obtain ⟨hfailed, htext⟩ := hholds hactive
      refine ⟨hfailed, fun text hmessage => ?_⟩
      rw [hview]
      exact htext text hmessage

theorem Represents.reset (h : state.Represents loggers stream) :
    state.reset.Represents loggers stream.reset := by
  cases state with
  | movedFrom => exact h
  | pending record =>
      obtain ⟨hlogger, hlevel, henabled, -⟩ := h
      refine ⟨hlogger, hlevel, henabled, fun _ => ?_⟩
      simp [LogStream.Holds, LogStream.reset]

/-- A flush delivers the record that is cut off, and nothing else. -/
theorem Represents.flush {Params : Type} (h : state.Represents loggers stream) :
    (stream.flush loggers : LogProgram Params LogStream) =
      (LogicalRecord.deliverAll loggers state.cut).bind fun _ => .done stream.reset := by
  cases state with
  | movedFrom =>
      have hlogger : stream.logger = none := h
      simp [LogStream.flush, hlogger, cut, LogicalRecord.deliverAll]
  | pending record =>
      obtain ⟨hlogger, hlevel, henabled, hholds⟩ := h
      have hsize : stream.buffer.size ≠ 0 ↔ stream.buffer.view ≠ [] :=
        not_congr stream.buffer.view_eq_nil_iff.symm
      simp only [cut, LogicalRecord.deliverAll_singleton]
      simp only [LogStream.flush, hlogger, LogicalRecord.deliver, LogicalRecord.submission,
        ← henabled, hsize]
      by_cases hactive : stream.enabled = true
      · obtain ⟨hfailed, htext⟩ := hholds hactive
        rw [if_pos hactive]
        cases hmessage : messageText record.insertions with
        | none => simp [hfailed, hmessage]
        | some text =>
            have hview := htext text hmessage
            by_cases hempty : text = []
            · simp [hview, hempty, Option.filter]
            · have hsubmit : ((loggers record.logger).submit record.level text :
                  LogProgram Params Unit) = (loggers record.logger).deliver record.level text := by
                rw [Logger.submit_eq_deliver, if_pos ⟨hempty, henabled ▸ hactive⟩]
              simp [hactive, hfailed, hmessage, hview, hempty, hlevel, hsubmit, Option.filter]
      · simp [hactive]

end StreamState

end AdaptivePi.Log
