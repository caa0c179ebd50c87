import AdaptivePi.Foundation.Decimal
import AdaptivePi.Foundation.FixedBuffer

/-!
`RecordBuffer` of `record_buffer.cpp`, and the appenders that the console
formatter chains with `&&`. An appender writes a text when it succeeds exactly
if the text fits behind what the buffer holds, and then leaves that text
there; this property is preserved by chaining, so a whole record is checked
once, against the sum of its pieces.
-/

namespace AdaptivePi.Log

open Foundation

/-- `c_record_capacity` -/
def recordCapacity : Nat := 16384

structure RecordBuffer where
  buffer : FixedBuffer UInt8 recordCapacity

namespace RecordBuffer

def empty : RecordBuffer := ⟨.zeroed⟩

def view (output : RecordBuffer) : Bytes := output.buffer.view

def append (output : RecordBuffer) (value : Bytes) : Bool × RecordBuffer :=
  if h : value.length > sizeSub recordCapacity output.buffer.size then
    (false, output)
  else if value ≠ [] then
    (true, ⟨output.buffer.append value (by
      have hle := output.buffer.size_le
      rw [sizeSub_eq hle (by decide)] at h
      omega)⟩)
  else
    (true, output)

@[simp] theorem view_empty : empty.view = [] := FixedBuffer.view_zeroed

theorem view_length_le (output : RecordBuffer) : output.view.length ≤ recordCapacity :=
  output.buffer.view_length_le

private theorem room_eq (output : RecordBuffer) :
    sizeSub recordCapacity output.buffer.size = recordCapacity - output.view.length := by
  rw [sizeSub_eq output.buffer.size_le (by decide), view, FixedBuffer.view_length]

/-- A value is appended exactly if it fits. -/
theorem append_iff (output : RecordBuffer) (value : Bytes) :
    (output.append value).1 = true ↔ output.view.length + value.length ≤ recordCapacity := by
  have hroom := output.room_eq
  have hle := output.view_length_le
  unfold append
  split_ifs with hfull hvalue
  · simp only [false_iff]
    omega
  · simp only [true_iff]
    omega
  · simp only [true_iff]
    omega

theorem view_append {output : RecordBuffer} {value : Bytes}
    (h : (output.append value).1 = true) :
    (output.append value).2.view = output.view ++ value := by
  unfold append at h ⊢
  split_ifs at h ⊢ with hfull hvalue
  · exact FixedBuffer.view_append ..
  · simp [not_not.mp hvalue]

/-- A rejected value leaves the buffer as it was. -/
theorem append_rejected {output : RecordBuffer} {value : Bytes}
    (h : (output.append value).1 = false) : (output.append value).2 = output := by
  unfold append at h ⊢
  split_ifs at h ⊢
  rfl

end RecordBuffer

abbrev Appender := RecordBuffer → Bool × RecordBuffer

namespace Appender

/-- The `&&` of two appenders stops at the first failure. -/
def andThen (first second : Appender) : Appender := fun output =>
  match first output with
  | (false, output') => (false, output')
  | (true, output') => second output'

/-- The appender adds `text` and nothing else, and fails only for lack of
room. -/
def Writes (appender : Appender) (text : Bytes) : Prop :=
  ∀ output : RecordBuffer,
    ((appender output).1 = true ↔ output.view.length + text.length ≤ recordCapacity) ∧
    ((appender output).1 = true → (appender output).2.view = output.view ++ text)

/-- The appender fails on every buffer. -/
def Fails (appender : Appender) : Prop := ∀ output : RecordBuffer, (appender output).1 = false

theorem writes_append (value : Bytes) :
    Writes (fun output => output.append value) value :=
  fun output => ⟨output.append_iff value, RecordBuffer.view_append⟩

theorem Writes.andThen {first second : Appender} {text text' : Bytes}
    (hfirst : first.Writes text) (hsecond : second.Writes text') :
    (first.andThen second).Writes (text ++ text') := by
  intro output
  obtain ⟨hiff, hview⟩ := hfirst output
  rcases hrun : first output with ⟨success, output'⟩
  simp only [hrun] at hiff hview
  cases success with
  | false =>
      have hfull : ¬output.view.length + text.length ≤ recordCapacity := by
        simpa using hiff
      simp only [Appender.andThen, hrun, List.length_append, Bool.false_eq_true, false_iff,
        false_implies, and_true]
      omega
  | true =>
      have hview' := hview rfl
      obtain ⟨hiff', hview''⟩ := hsecond output'
      rw [hview'] at hiff' hview''
      simp only [Appender.andThen, hrun, List.length_append] at hiff' ⊢
      refine ⟨?_, ?_⟩
      · rw [hiff']
        omega
      · intro hsuccess
        rw [hview'' hsuccess, List.append_assoc]

theorem Fails.andThen_left {first : Appender} (second : Appender) (h : first.Fails) :
    (first.andThen second).Fails := by
  intro output
  have hfirst := h output
  rcases hrun : first output with ⟨success, output'⟩
  rw [hrun] at hfirst
  simp only at hfirst
  subst hfirst
  simp [Appender.andThen, hrun]

theorem Fails.andThen_right (first : Appender) {second : Appender} (h : second.Fails) :
    (first.andThen second).Fails := by
  intro output
  rcases hrun : first output with ⟨success, output'⟩
  cases success with
  | false => simp [Appender.andThen, hrun]
  | true =>
      simp only [Appender.andThen, hrun]
      exact h output'

end Appender

end AdaptivePi.Log
