import AdaptivePi.Foundation.CheckedMemory
import AdaptivePi.Log.LogicalRecord
import AdaptivePi.Log.RecordBuffer

namespace AdaptivePi.Log

open Foundation

def wholeView (object : Bytes) (h : object.length < 2 ^ 64) : View UInt8 :=
  ⟨object, 0, .ofNat object.length, by
    rw [UInt64.toNat_ofNat_of_lt' h]
    omega⟩

@[simp] theorem wholeView_content (object : Bytes) (h : object.length < 2 ^ 64) :
    (wholeView object h).content = object := by
  unfold View.content wholeView
  rw [UInt64.toNat_ofNat_of_lt' h, List.drop_zero, List.take_length]

structure CString where
  memory : Bytes
  terminated : 0 ∈ memory
  length_lt : memory.length < 2 ^ 64

namespace CString

theorem cStringView_length_le (text : CString) :
    (cStringView text.memory).length ≤ text.memory.length :=
  (List.takeWhile_sublist _).length_le

theorem cStringView_length_toNat (text : CString) :
    (UInt64.ofNat (cStringView text.memory).length).toNat = (cStringView text.memory).length :=
  UInt64.toNat_ofNat_of_lt' (lt_of_le_of_lt text.cStringView_length_le text.length_lt)

def view (text : CString) : View UInt8 :=
  ⟨text.memory, 0, .ofNat (cStringView text.memory).length, by
    rw [text.cStringView_length_toNat, Nat.zero_add]
    exact text.cStringView_length_le⟩

theorem view_content (text : CString) : text.view.content = cStringView text.memory := by
  have hsplit : cStringView text.memory ++ text.memory.dropWhile (· ≠ 0) = text.memory :=
    List.takeWhile_append_dropWhile
  unfold View.content view
  rw [text.cStringView_length_toNat, List.drop_zero]
  calc text.memory.take (cStringView text.memory).length
      = (cStringView text.memory ++ text.memory.dropWhile (· ≠ 0)).take
          (cStringView text.memory).length := by rw [hsplit]
    _ = cStringView text.memory := List.take_left

end CString

/-- What `std::to_chars` writes to an array of this capacity, and a view of it. -/
def scratchView (capacity : Nat) (text : Bytes) : Except Fault (View UInt8) := do
  let array ← memcpy (fun _ : Fin capacity => 0) 0 text 0 text.length
  viewOf (List.ofFn array) (.ofNat text.length)

theorem scratchView_eq {capacity : Nat} (hcapacity : capacity < 2 ^ 64) {text : Bytes}
    (htext : text.length ≤ capacity) :
    ∃ view, scratchView capacity text = .ok view ∧ view.content = text := by
  have hfits : (FixedBuffer.zeroed : FixedBuffer UInt8 capacity).size + text.length ≤ capacity := by
    change 0 + text.length ≤ capacity
    omega
  obtain ⟨view, hview, hcontent⟩ := (FixedBuffer.zeroed.append text hfits).raw_view hcapacity
  refine ⟨view, ?_, by simpa using hcontent⟩
  have harray : memcpy (fun _ : Fin capacity => (0 : UInt8)) 0 text 0 text.length =
      .ok (FixedBuffer.zeroed.append text hfits).data :=
    memcpy_eq _ (by simp) (by omega) hfits
  have hlength : UInt64.ofNat text.length = (FixedBuffer.zeroed.append text hfits).raw.size := by
    change UInt64.ofNat text.length = UInt64.ofNat (0 + text.length)
    rw [Nat.zero_add]
  unfold scratchView
  rw [harray, hlength]
  exact hview

namespace RecordBuffer

/-- `RecordBuffer::Append` -/
def rawAppend (output : RawBuffer UInt8 recordCapacity) (value : View UInt8) :
    Except Fault (Bool × RawBuffer UInt8 recordCapacity) := do
  let room ← output.room
  if value.length > room then pure (false, output)
  else if value.length ≠ 0 then do
    let output ← output.push value
    pure (true, output)
  else pure (true, output)

/-- `Append` stays in bounds, and does what the bounded buffer does. -/
theorem rawAppend_eq (output : RecordBuffer) (value : View UInt8) :
    rawAppend output.buffer.raw value =
      .ok ((output.append value.content).1, (output.append value.content).2.buffer.raw) := by
  have hcapacity : recordCapacity < 2 ^ 64 := by decide
  obtain ⟨room, hroom, hroomSize⟩ := output.buffer.raw_room hcapacity
  have hsub : sizeSub recordCapacity output.buffer.size = room.toNat := by
    rw [sizeSub_eq output.buffer.size_le hcapacity, hroomSize]
  have hlength := value.content_length
  unfold rawAppend append
  rw [hroom]
  by_cases hfull : value.length > room
  · have hfull' : value.content.length > sizeSub recordCapacity output.buffer.size := by
      rw [hsub, hlength]
      exact UInt64.lt_iff_toNat_lt.mp hfull
    rw [dif_pos hfull']
    simp [Bind.bind, Except.bind, hfull]
    rfl
  · have hfull' : ¬value.content.length > sizeSub recordCapacity output.buffer.size := by
      rw [hsub, hlength]
      exact fun h => hfull (UInt64.lt_iff_toNat_lt.mpr h)
    rw [dif_neg hfull']
    by_cases hempty : value.content = []
    · have hzero := value.content_eq_nil_iff.mp hempty
      simp [Bind.bind, Except.bind, hempty, hzero]
      rfl
    · have hzero : value.length ≠ 0 := fun h => hempty (value.content_eq_nil_iff.mpr h)
      have hfits : output.buffer.size + value.content.length ≤ recordCapacity := by
        have hle := output.buffer.size_le
        rw [hsub, hroomSize] at hfull'
        omega
      simp [Bind.bind, Except.bind, hfull, hempty, hzero, output.buffer.raw_push hcapacity value hfits]
      rfl

def rawAppendAll (output : RawBuffer UInt8 recordCapacity) :
    List (View UInt8) → Except Fault (List Bool × RawBuffer UInt8 recordCapacity)
  | [] => pure ([], output)
  | value :: values => do
      let (accepted, output) ← rawAppend output value
      let (results, output) ← rawAppendAll output values
      pure (accepted :: results, output)

/-- What the accepted views show, in order. -/
def acceptedPieces (values : List (View UInt8)) (results : List Bool) : List Bytes :=
  (values.zip results).filterMap fun (value, accepted) =>
    if accepted then some value.content else none

theorem rawAppendAll_eq (output : RecordBuffer) (values : List (View UInt8)) :
    ∃ (results : List Bool) (output' : RecordBuffer),
      rawAppendAll output.buffer.raw values = .ok (results, output'.buffer.raw) ∧
      output'.view = output.view ++ (acceptedPieces values results).flatten := by
  induction values generalizing output with
  | nil => exact ⟨[], output, rfl, by simp [acceptedPieces]⟩
  | cons value values ih =>
      obtain ⟨results, output', hrun, hview⟩ := ih (output.append value.content).2
      refine ⟨(output.append value.content).1 :: results, output', ?_, ?_⟩
      · simp only [rawAppendAll, rawAppend_eq, hrun, Bind.bind, Except.bind]
        rfl
      · rw [hview]
        cases haccepted : (output.append value.content).1 with
        | false =>
            rw [append_rejected haccepted]
            rfl
        | true =>
            rw [view_append haccepted, List.append_assoc]
            rfl

end RecordBuffer

/-- The members of `LogStream`, without the bound of the size. -/
structure RawLogStream where
  buffer : RawBuffer UInt8 messageCapacity
  logger : Option LoggerPtr
  level : LogLevel
  failed : Bool
  enabled : Bool

/-- The values that `operator<<` takes, where they lie in memory. The size of
the array that an integer is formatted into is a `std::size_t`. -/
inductive RawInsertion where
  | stringView (value : View UInt8)
  | string (value : View UInt8)
  | cString (value : Option CString)
  | char (value : UInt8)
  | bool (value : Bool)
  | float (value : BitVec 32)
  | double (value : BitVec 64)
  | integer (type : IntegralType) (value : BitVec type.width)
      (size_lt : digits10 type.digits + 2 < 2 ^ 64)

def RawInsertion.insertion : RawInsertion → Insertion
  | .stringView value => .stringView value.content
  | .string value => .string value.content
  | .cString value => .cString (value.map (·.memory))
  | .char value => .char value
  | .bool value => .bool value
  | .float value => .float value
  | .double value => .double value
  | .integer type value _ => .integer type value

namespace RawLogStream

def construct (loggers : LoggerPtr → Logger) (logger : LoggerPtr) (level : LogLevel) :
    RawLogStream :=
  { buffer := .zeroed, logger := some logger, level := level, failed := false,
    enabled := (loggers logger).isEnabled level }

def inactive (stream : RawLogStream) : Bool :=
  stream.logger.isNone || !stream.enabled || stream.failed

def fail (stream : RawLogStream) : RawLogStream := { stream with failed := true }

/-- `LogStream::Append` -/
def append (stream : RawLogStream) (value : View UInt8) : Except Fault RawLogStream := do
  if stream.inactive ∨ value.length = 0 then pure stream
  else
    let room ← stream.buffer.room
    if value.length > room then pure stream.fail
    else
      let buffer ← stream.buffer.push value
      pure { stream with buffer := buffer }

def literal (text : String) (h : (ascii text).length < 2 ^ 64) : View UInt8 :=
  wholeView (ascii text) h

def insertFloating (stream : RawLogStream) (format : FloatFormat) (precision : Nat)
    (value : BitVec format.width) : Except Fault RawLogStream :=
  if stream.inactive then pure stream
  else if format.isNaN value then stream.append (literal "nan" (by decide))
  else if format.isInfinite value then
    stream.append
      (if format.signBit value then literal "-inf" (by decide) else literal "inf" (by decide))
  else
    match formatFloating format precision floatingBufferSize value with
    | none => pure stream.fail
    | some text => do
        let view ← scratchView floatingBufferSize text
        stream.append view

/-- `operator<<` -/
def insert (stream : RawLogStream) : RawInsertion → Except Fault RawLogStream
  | .stringView value => stream.append value
  | .string value => stream.append value
  | .cString value =>
      if stream.inactive then pure stream
      else
        match value with
        | none => pure stream.fail
        | some text => stream.append text.view
  | .char value => stream.append (wholeView [value] (by simp))
  | .bool value =>
      stream.append (if value then literal "true" (by decide) else literal "false" (by decide))
  | .float value => stream.insertFloating .binary32 9 value
  | .double value => stream.insertFloating .binary64 17 value
  | .integer type value _ =>
      if stream.inactive then pure stream
      else
        match toChars (digits10 type.digits + 2) (type.value value) with
        | none => pure stream.fail
        | some text => do
            let view ← scratchView (digits10 type.digits + 2) text
            stream.append view

/-- The move constructor: the new stream, and what it leaves of `other`. -/
def moveConstruct (other : RawLogStream) : Except Fault (RawLogStream × RawLogStream) := do
  let data ←
    if other.buffer.size ≠ 0 then
      memcpy (fun _ => 0) 0 (List.ofFn other.buffer.data) 0 other.buffer.size.toNat
    else pure fun _ => 0
  pure
    ({ other with buffer := ⟨data, other.buffer.size⟩ },
      { other with
          buffer := { other.buffer with size := 0 }, logger := none, failed := false,
          enabled := false })

/-- `Flush`: the characters that are submitted, and the stream afterwards. -/
def flush (stream : RawLogStream) : Except Fault (Option (View UInt8) × RawLogStream) := do
  let submitted ←
    if stream.logger.isSome ∧ stream.enabled ∧ ¬stream.failed ∧ stream.buffer.size ≠ 0 then do
      let view ← stream.buffer.view
      pure (some view)
    else pure none
  pure (submitted, { stream with buffer := { stream.buffer with size := 0 }, failed := false })

end RawLogStream

namespace LogStream

def raw (stream : LogStream) : RawLogStream :=
  ⟨stream.buffer.raw, stream.logger, stream.level, stream.failed, stream.enabled⟩

private theorem capacity_lt : messageCapacity < 2 ^ 64 := by decide

theorem raw_size_ne_zero (stream : LogStream) :
    stream.raw.buffer.size ≠ 0 ↔ stream.buffer.size ≠ 0 := by
  have hsize : stream.raw.buffer.size.toNat = stream.buffer.size :=
    stream.buffer.raw_size capacity_lt
  rw [← hsize, ne_eq, ← UInt64.toNat_inj]
  rfl

theorem raw_append (stream : LogStream) (value : View UInt8) :
    stream.raw.append value = .ok (stream.append value.content).raw := by
  obtain ⟨room, hroom, hroomSize⟩ := stream.buffer.raw_room capacity_lt
  have hsub : sizeSub messageCapacity stream.buffer.size = room.toNat := by
    rw [sizeSub_eq stream.buffer.size_le capacity_lt, hroomSize]
  have hlength := value.content_length
  have hroom' : stream.raw.buffer.room = .ok room := hroom
  by_cases hskip : stream.inactive = true ∨ value.content = []
  · have hskip' : stream.raw.inactive = true ∨ value.length = 0 :=
      hskip.imp_right value.content_eq_nil_iff.mp
    unfold RawLogStream.append append
    rw [if_pos hskip, if_pos hskip']
    rfl
  · have hskip' : ¬(stream.raw.inactive = true ∨ value.length = 0) :=
      fun h => hskip (h.imp_right value.content_eq_nil_iff.mpr)
    unfold RawLogStream.append append
    rw [if_neg hskip, if_neg hskip', hroom']
    by_cases hfull : value.length > room
    · have hfull' : value.content.length > sizeSub messageCapacity stream.buffer.size := by
        rw [hsub, hlength]
        exact UInt64.lt_iff_toNat_lt.mp hfull
      rw [dif_pos hfull']
      simp only [Bind.bind, Except.bind, if_pos hfull]
      rfl
    · have hfull' : ¬value.content.length > sizeSub messageCapacity stream.buffer.size := by
        rw [hsub, hlength]
        exact fun h => hfull (UInt64.lt_iff_toNat_lt.mpr h)
      have hfits : stream.buffer.size + value.content.length ≤ messageCapacity := by
        have hle := stream.buffer.size_le
        rw [hsub, hroomSize] at hfull'
        omega
      have hpush : stream.raw.buffer.push value = .ok (stream.buffer.append value.content hfits).raw :=
        stream.buffer.raw_push capacity_lt value hfits
      rw [dif_neg hfull']
      simp only [Bind.bind, Except.bind, if_neg hfull, hpush]
      rfl

theorem raw_append_of_content (stream : LogStream) {value : View UInt8} {text : Bytes}
    (hcontent : value.content = text) :
    stream.raw.append value = .ok (stream.append text).raw :=
  hcontent ▸ stream.raw_append value

/-- A formatted text is appended from the array that it was written to. -/
theorem raw_append_scratch (stream : LogStream) {capacity : Nat} (hcapacity : capacity < 2 ^ 64)
    {text : Bytes} (htext : text.length ≤ capacity) :
    (do
      let view ← scratchView capacity text
      stream.raw.append view) = .ok (stream.append text).raw := by
  obtain ⟨view, hview, hcontent⟩ := scratchView_eq hcapacity htext
  rw [hview]
  exact stream.raw_append_of_content hcontent

theorem raw_insertFloating (stream : LogStream) (format : FloatFormat) (precision : Nat)
    (value : BitVec format.width) :
    stream.raw.insertFloating format precision value =
      .ok (stream.insertFloating format precision value).raw := by
  have hinactive : stream.raw.inactive = stream.inactive := rfl
  unfold RawLogStream.insertFloating insertFloating
  rw [hinactive]
  split
  · rfl
  · split
    · exact stream.raw_append_of_content (wholeView_content _ _)
    · split
      · split
        · exact stream.raw_append_of_content (wholeView_content _ _)
        · exact stream.raw_append_of_content (wholeView_content _ _)
      · cases htext : formatFloating format precision floatingBufferSize value with
        | none => rfl
        | some text =>
            have hlength : text.length ≤ floatingBufferSize := by
              unfold formatFloating at htext
              dsimp only at htext
              split at htext
              · obtain rfl := Option.some.inj htext
                assumption
              · cases htext
            exact stream.raw_append_scratch (by decide) hlength

/-- No insertion leaves its objects. -/
theorem raw_insert (stream : LogStream) (value : RawInsertion) :
    stream.raw.insert value = .ok (stream.insert value.insertion).raw := by
  have hinactive : stream.raw.inactive = stream.inactive := rfl
  cases value with
  | stringView value => exact stream.raw_append value
  | string value => exact stream.raw_append value
  | cString value =>
      unfold RawLogStream.insert insert RawInsertion.insertion
      dsimp only
      rw [hinactive]
      split
      · rfl
      · cases value with
        | none => rfl
        | some text => exact stream.raw_append_of_content text.view_content
  | char value => exact stream.raw_append_of_content (wholeView_content _ _)
  | bool value =>
      cases value with
      | false => exact stream.raw_append_of_content (wholeView_content (ascii "false") (by decide))
      | true => exact stream.raw_append_of_content (wholeView_content (ascii "true") (by decide))
  | float value => exact stream.raw_insertFloating .binary32 9 value
  | double value => exact stream.raw_insertFloating .binary64 17 value
  | integer type value hsize =>
      unfold RawLogStream.insert insert RawInsertion.insertion
      dsimp only
      rw [hinactive, toChars_integral]
      split
      · rfl
      · exact stream.raw_append_scratch hsize (type.decimalInt_length_le value)

theorem raw_moveConstruct (other : LogStream) :
    other.raw.moveConstruct = .ok (other.moveConstruct.1.raw, other.moveConstruct.2.raw) := by
  have hview : 0 + other.buffer.view.length ≤ messageCapacity := by
    have hle := other.buffer.view_length_le
    omega
  have hcopy := other.buffer.raw_copy capacity_lt (fun _ => 0) hview
  unfold RawLogStream.moveConstruct
  by_cases hsize : other.buffer.size = 0
  · have hsize' : ¬other.raw.buffer.size ≠ 0 := fun h => other.raw_size_ne_zero.mp h hsize
    have hzero : other.raw.buffer.size = 0 := not_not.mp hsize'
    rw [if_neg hsize', moveConstruct, if_neg (not_not.mpr hsize), hzero]
    rfl
  · have hsize' : other.raw.buffer.size ≠ 0 := other.raw_size_ne_zero.mpr hsize
    have hlength : other.raw.buffer.size = UInt64.ofNat (0 + other.buffer.view.length) := by
      rw [Nat.zero_add, FixedBuffer.view_length]
      rfl
    have hcopy' : memcpy (fun _ => 0) 0 (List.ofFn other.raw.buffer.data) 0
        other.raw.buffer.size.toNat = _ := hcopy
    rw [if_pos hsize', hcopy', moveConstruct, if_pos hsize, hlength]
    rfl

/-- What is submitted are the characters of the buffer. -/
theorem raw_flush (stream : LogStream) :
    ∃ submitted, stream.raw.flush = .ok (submitted, stream.reset.raw) ∧
      ∀ view ∈ submitted, view.content = stream.buffer.view := by
  obtain ⟨view, hview, hcontent⟩ := stream.buffer.raw_view capacity_lt
  have hview' : stream.raw.buffer.view = .ok view := hview
  unfold RawLogStream.flush
  split
  · refine ⟨some view, ?_, by simpa using hcontent⟩
    rw [hview']
    rfl
  · exact ⟨none, rfl, by simp⟩

end LogStream

/-- An operation on one of the streams, which are numbered as they are made. -/
inductive StreamOperation where
  | create (logger : LoggerPtr) (level : LogLevel)
  | insert (stream : Nat) (value : RawInsertion)
  | flush (stream : Nat)
  | moveConstruct (other : Nat)
  | destroy (stream : Nat)

abbrev Streams (σ : Type) := List (Option σ)

/-- There is nothing to do for a stream that is not there. -/
def Streams.onStream {σ : Type} (streams : Streams σ) (index : Nat)
    (action : σ → Except Fault (Streams σ)) : Except Fault (Streams σ) :=
  match streams[index]? with
  | some (some stream) => action stream
  | _ => pure streams

namespace StreamOperation

variable (loggers : LoggerPtr → Logger)

def execute (streams : Streams RawLogStream) :
    StreamOperation → Except Fault (Streams RawLogStream)
  | .create logger level => pure (streams ++ [some (.construct loggers logger level)])
  | .insert index value =>
      streams.onStream index fun stream => do
        let stream ← stream.insert value
        pure (streams.set index (some stream))
  | .flush index =>
      streams.onStream index fun stream => do
        let (_, stream) ← stream.flush
        pure (streams.set index (some stream))
  | .moveConstruct index =>
      streams.onStream index fun other => do
        let (stream, other) ← other.moveConstruct
        pure (streams.set index (some other) ++ [some stream])
  | .destroy index =>
      streams.onStream index fun stream => do
        let _ ← stream.flush
        pure (streams.set index none)

/-- Operations one after the other, from no streams. -/
def executeAll (operations : List StreamOperation) : Except Fault (Streams RawLogStream) :=
  operations.foldlM (execute loggers) []

end StreamOperation

def rawStreams (streams : Streams LogStream) : Streams RawLogStream :=
  streams.map (·.map LogStream.raw)

private theorem rawStreams_set (streams : Streams LogStream) (index : Nat)
    (stream : Option LogStream) :
    (rawStreams streams).set index (stream.map LogStream.raw) =
      rawStreams (streams.set index stream) := by
  rw [rawStreams, rawStreams, List.map_set]

private theorem rawStreams_append (streams : Streams LogStream) (stream : LogStream) :
    rawStreams streams ++ [some stream.raw] = rawStreams (streams ++ [some stream]) := by
  rw [rawStreams, rawStreams, List.map_append, List.map_singleton, Option.map_some]

/-- An action that takes a stream to streams does so wherever the stream is. -/
private theorem exists_onStream {streams : Streams LogStream} {index : Nat}
    {action : RawLogStream → Except Fault (Streams RawLogStream)}
    (haction : ∀ stream : LogStream, ∃ streams', action stream.raw = .ok (rawStreams streams')) :
    ∃ streams', (rawStreams streams).onStream index action = .ok (rawStreams streams') := by
  unfold Streams.onStream
  cases hstream : streams[index]? with
  | none => exact ⟨streams, by simp [rawStreams, hstream]; rfl⟩
  | some object =>
      cases object with
      | none => exact ⟨streams, by simp [rawStreams, hstream]; rfl⟩
      | some stream =>
          obtain ⟨streams', hstreams'⟩ := haction stream
          exact ⟨streams', by simpa [rawStreams, hstream] using hstreams'⟩

/-- An operation is not stopped, and leaves streams with bounded sizes. -/
theorem StreamOperation.execute_rawStreams (loggers : LoggerPtr → Logger)
    (streams : Streams LogStream) (operation : StreamOperation) :
    ∃ streams', operation.execute loggers (rawStreams streams) = .ok (rawStreams streams') := by
  cases operation with
  | create logger level =>
      have hraw : (LogStream.construct loggers logger level).raw =
          RawLogStream.construct loggers logger level := rfl
      refine ⟨streams ++ [some (LogStream.construct loggers logger level)], ?_⟩
      rw [← rawStreams_append, hraw]
      rfl
  | insert index value =>
      apply exists_onStream
      intro stream
      refine ⟨streams.set index (some (stream.insert value.insertion)), ?_⟩
      rw [stream.raw_insert, ← rawStreams_set]
      rfl
  | flush index =>
      apply exists_onStream
      intro stream
      obtain ⟨submitted, hflush, -⟩ := stream.raw_flush
      refine ⟨streams.set index (some stream.reset), ?_⟩
      rw [hflush, ← rawStreams_set]
      rfl
  | moveConstruct index =>
      apply exists_onStream
      intro other
      refine ⟨streams.set index (some other.moveConstruct.2) ++ [some other.moveConstruct.1], ?_⟩
      rw [other.raw_moveConstruct, ← rawStreams_append, ← rawStreams_set]
      rfl
  | destroy index =>
      apply exists_onStream
      intro stream
      obtain ⟨submitted, hflush, -⟩ := stream.raw_flush
      refine ⟨streams.set index none, ?_⟩
      rw [hflush, ← rawStreams_set]
      rfl

/-- No sequence of operations is stopped. -/
theorem StreamOperation.executeAll_eq (loggers : LoggerPtr → Logger)
    (operations : List StreamOperation) :
    ∃ streams, executeAll loggers operations = .ok (rawStreams streams) := by
  suffices hrun : ∀ streams, ∃ streams',
      operations.foldlM (execute loggers) (rawStreams streams) = .ok (rawStreams streams') from
    hrun []
  induction operations with
  | nil => exact fun streams => ⟨streams, rfl⟩
  | cons operation operations ih =>
      intro streams
      obtain ⟨middle, hmiddle⟩ := operation.execute_rawStreams loggers streams
      obtain ⟨streams', hstreams'⟩ := ih middle
      refine ⟨streams', ?_⟩
      rw [List.foldlM_cons, hmiddle]
      exact hstreams'

/-- No operation on streams and no append to a record buffer is stopped by the
monitor. Sizes stay within the capacities, a record buffer shows the accepted
pieces, and an append that is rejected changes nothing. -/
theorem buffers_in_bounds (loggers : LoggerPtr → Logger) :
    (∀ operations : List StreamOperation, ∃ streams,
      StreamOperation.executeAll loggers operations = .ok streams ∧
      ∀ stream : RawLogStream, some stream ∈ streams → stream.buffer.size.toNat ≤ 4096) ∧
    ∀ values : List (View UInt8), ∃ results output view,
      RecordBuffer.rawAppendAll .zeroed values = .ok (results, output) ∧
      output.size.toNat ≤ 16384 ∧ output.view = .ok view ∧
      view.content = (RecordBuffer.acceptedPieces values results).flatten ∧
      ∀ value : View UInt8,
        (16384 < output.size.toNat + value.length.toNat →
          RecordBuffer.rawAppend output value = .ok (false, output)) ∧
        (output.size.toNat + value.length.toNat ≤ 16384 → ∃ output' view',
          RecordBuffer.rawAppend output value = .ok (true, output') ∧
          output'.view = .ok view' ∧ view'.content = view.content ++ value.content) := by
  constructor
  · intro operations
    obtain ⟨streams, hstreams⟩ := StreamOperation.executeAll_eq loggers operations
    refine ⟨rawStreams streams, hstreams, ?_⟩
    intro raw hraw
    obtain ⟨object, -, hobject⟩ := List.mem_map.mp hraw
    obtain ⟨stream, rfl, rfl⟩ := Option.map_eq_some_iff.mp hobject
    have hsize : stream.raw.buffer.size.toNat = stream.buffer.size :=
      stream.buffer.raw_size (by decide)
    rw [hsize]
    exact stream.buffer.size_le
  · intro values
    have hcapacity : recordCapacity < 2 ^ 64 := by decide
    obtain ⟨results, output, hrun, hcontent⟩ := RecordBuffer.empty.rawAppendAll_eq values
    obtain ⟨view, hview, hviewContent⟩ := output.buffer.raw_view hcapacity
    have hsize := output.buffer.raw_size hcapacity
    refine ⟨results, output.buffer.raw, view, hrun, ?_, hview, ?_, ?_⟩
    · rw [hsize]
      exact output.buffer.size_le
    · rw [hviewContent]
      exact hcontent
    · intro value
      have hlength := value.content_length
      have hiff := output.append_iff value.content
      rw [RecordBuffer.view, FixedBuffer.view_length] at hiff
      rw [hsize, ← hlength, RecordBuffer.rawAppend_eq]
      constructor
      · intro hfull
        have hrejected : (output.append value.content).1 = false := by
          rw [← Bool.not_eq_true, hiff]
          unfold recordCapacity
          omega
        rw [hrejected, RecordBuffer.append_rejected hrejected]
      · intro hfits
        have haccepted : (output.append value.content).1 = true := hiff.mpr hfits
        obtain ⟨view', hview', hcontent'⟩ :=
          (output.append value.content).2.buffer.raw_view hcapacity
        refine ⟨_, view', by rw [haccepted], hview', ?_⟩
        rw [hcontent', hviewContent]
        exact RecordBuffer.view_append haccepted

end AdaptivePi.Log
