import AdaptivePi.Foundation.FixedBuffer
import AdaptivePi.Foundation.FloatText
import AdaptivePi.Log.Logger

/-!
`log_stream.cpp`: a stream collects the values of one record in a buffer of
fixed capacity and submits it on a flush or at its destruction. Overflow, a
null pointer or a formatting failure invalidates the record; a stream that was
moved from has no logger and ignores everything.
-/

namespace AdaptivePi.Log

open Foundation

/-- `c_message_capacity` -/
def messageCapacity : Nat := 4096

/-- `c_floating_buffer_size` -/
def floatingBufferSize : Nat := 64

structure LogStream where
  /-- `buffer_` and `size_` -/
  buffer : FixedBuffer UInt8 messageCapacity
  logger : Option LoggerPtr
  level : LogLevel
  failed : Bool
  enabled : Bool

structure IntegralType where
  width : Nat
  isSigned : Bool
  width_pos : 0 < width

namespace IntegralType

/-- `std::numeric_limits<T>::digits` -/
def digits (type : IntegralType) : Nat :=
  if type.isSigned then type.width - 1 else type.width

def value (type : IntegralType) (bits : BitVec type.width) : Int :=
  if type.isSigned then bits.toInt else bits.toNat

end IntegralType

/-- The values that `operator<<` takes. A C string is a null pointer or the
memory it points to, up to any NUL. -/
inductive Insertion where
  | stringView (value : Bytes)
  | string (value : Bytes)
  | cString (value : Option Bytes)
  | char (value : UInt8)
  | bool (value : Bool)
  | float (value : BitVec 32)
  | double (value : BitVec 64)
  | integer (type : IntegralType) (value : BitVec type.width)

def cStringView (memory : Bytes) : Bytes := memory.takeWhile (· ≠ 0)

/-- `FormatFloating` of a finite value: `std::to_chars` in general notation. -/
def formatFloating (format : FloatFormat) (precision capacity : Nat)
    (value : BitVec format.width) : Option Bytes :=
  let text := format.generalText precision value
  if text.length ≤ capacity then some text else none

namespace LogStream

def construct (loggers : LoggerPtr → Logger) (logger : LoggerPtr) (level : LogLevel) :
    LogStream :=
  { buffer := .zeroed, logger := some logger, level := level, failed := false,
    enabled := (loggers logger).isEnabled level }

/-- The test at the head of `Append` and of most insertions. -/
def inactive (stream : LogStream) : Bool :=
  stream.logger.isNone || !stream.enabled || stream.failed

def fail (stream : LogStream) : LogStream := { stream with failed := true }

def append (stream : LogStream) (value : Bytes) : LogStream :=
  if stream.inactive ∨ value = [] then stream
  else if h : value.length > sizeSub messageCapacity stream.buffer.size then stream.fail
  else
    { stream with
      buffer := stream.buffer.append value (by
        have hle := stream.buffer.size_le
        rw [sizeSub_eq hle (by decide)] at h
        omega) }

/-- `operator<<` of `float` and of `double`. -/
def insertFloating (stream : LogStream) (format : FloatFormat) (precision : Nat)
    (value : BitVec format.width) : LogStream :=
  if stream.inactive then stream
  else if format.isNaN value then stream.append (ascii "nan")
  else if format.isInfinite value then
    stream.append (if format.signBit value then ascii "-inf" else ascii "inf")
  else
    match formatFloating format precision floatingBufferSize value with
    | none => stream.fail
    | some text => stream.append text

/-- `operator<<`; 9 and 17 are the `max_digits10` of the floating types. -/
def insert (stream : LogStream) : Insertion → LogStream
  | .stringView value => stream.append value
  | .string value => stream.append value
  | .cString value =>
      if stream.inactive then stream
      else
        match value with
        | none => stream.fail
        | some memory => stream.append (cStringView memory)
  | .char value => stream.append [value]
  | .bool value => stream.append (if value then ascii "true" else ascii "false")
  | .float value => stream.insertFloating .binary32 9 value
  | .double value => stream.insertFloating .binary64 17 value
  | .integer type value =>
      if stream.inactive then stream
      else
        match toChars (digits10 type.digits + 2) (type.value value) with
        | none => stream.fail
        | some text => stream.append text

/-- The move constructor: the new stream, and what it leaves of `other`. -/
def moveConstruct (other : LogStream) : LogStream × LogStream :=
  ({ other with
      buffer :=
        if other.buffer.size ≠ 0 then
          FixedBuffer.zeroed.append other.buffer.view (by
            have hle := other.buffer.view_length_le
            change 0 + other.buffer.view.length ≤ messageCapacity
            omega)
        else .zeroed },
    { other with
      buffer := other.buffer.clear, logger := none, failed := false, enabled := false })

/-- What a flush leaves of a stream. -/
def reset (stream : LogStream) : LogStream :=
  { stream with buffer := stream.buffer.clear, failed := false }

section

variable {Params : Type} (loggers : LoggerPtr → Logger)

def flush (stream : LogStream) : LogProgram Params LogStream :=
  match stream.logger with
  | none => .done stream.reset
  | some logger =>
      if stream.enabled ∧ ¬stream.failed ∧ stream.buffer.size ≠ 0 then
        ((loggers logger).submit stream.level stream.buffer.view).bind fun _ =>
          .done stream.reset
      else .done stream.reset

def destroy (stream : LogStream) : LogProgram Params Unit :=
  (stream.flush loggers).bind fun _ => .done ()

end

end LogStream

/-- The decimal text of every value of an integral type fits the scratch
buffer that `operator<<` formats it into. -/
theorem IntegralType.decimalInt_length_le (type : IntegralType) (bits : BitVec type.width) :
    (decimalInt (type.value bits)).length ≤ digits10 type.digits + 2 := by
  obtain ⟨power, hpower⟩ : ∃ power, power = 2 ^ type.digits := ⟨_, rfl⟩
  have hlog : power < 10 ^ (digits10 type.digits + 1) := by
    rw [hpower]
    exact Nat.lt_pow_succ_log_self (by omega) _
  have hten : 10 ^ (digits10 type.digits + 1 + 1) = 10 ^ (digits10 type.digits + 1) * 10 :=
    pow_succ 10 _
  have hrange : -(power : Int) ≤ type.value bits ∧ type.value bits < (power : Int) := by
    obtain ⟨width, isSigned, hwidth⟩ := type
    unfold IntegralType.digits at hpower
    unfold IntegralType.value
    cases isSigned with
    | false =>
        have hlt : bits.toNat < 2 ^ width := bits.isLt
        have hwidth' : power = 2 ^ width := hpower
        clear hpower hlog
        subst hwidth'
        change -((2 ^ width : Nat) : Int) ≤ (bits.toNat : Int) ∧
          (bits.toNat : Int) < ((2 ^ width : Nat) : Int)
        omega
    | true =>
        have hlower := BitVec.le_two_mul_toInt (x := bits)
        have hupper := BitVec.two_mul_toInt_lt (x := bits)
        obtain ⟨k, rfl⟩ : ∃ k, width = k + 1 := ⟨width - 1, by omega⟩
        simp only [if_true, Nat.add_sub_cancel] at hpower ⊢
        subst hpower
        push_cast [pow_succ] at hlower hupper ⊢
        omega
  refine Foundation.decimalInt_length_le (by omega) ?_ ?_
  · omega
  · omega

/-- An integer fits the array that it is formatted into. -/
theorem toChars_integral (type : IntegralType) (bits : BitVec type.width) :
    toChars (digits10 type.digits + 2) (type.value bits) =
      some (decimalInt (type.value bits)) :=
  if_pos (type.decimalInt_length_le bits)

end AdaptivePi.Log
