import AdaptivePi.Foundation.FixedBuffer

/-!
Memory accesses and sizes under a monitor. A size is an unsigned 64-bit number,
an object a sequence of cells, and nothing relates the two: the monitor stops an
execution where a size wraps around or an access leaves its object. An array
with a size that never does is the image of a buffer that carries its bound.
-/

namespace AdaptivePi.Foundation

/-- What the monitor reports. -/
inductive Fault where
  | wrapped
  | readOutside
  | writeOutside

def subSize (a b : UInt64) : Except Fault UInt64 :=
  if b ≤ a then pure (a - b) else throw .wrapped

def addSize (a b : UInt64) : Except Fault UInt64 :=
  if a.toNat + b.toNat < 2 ^ 64 then pure (a + b) else throw .wrapped

structure View (α : Type) where
  object : List α
  start : Nat
  length : UInt64
  bounds : start + length.toNat ≤ object.length

variable {α : Type}

def View.content (view : View α) : List α := (view.object.drop view.start).take view.length.toNat

@[simp] theorem View.content_length (view : View α) :
    view.content.length = view.length.toNat := by
  have hbounds := view.bounds
  rw [content, List.length_take, List.length_drop]
  omega

theorem View.content_eq_nil_iff (view : View α) : view.content = [] ↔ view.length = 0 := by
  rw [← List.length_eq_zero_iff, content_length, ← UInt64.toNat_inj]
  rfl

def viewOf (object : List α) (length : UInt64) : Except Fault (View α) :=
  if h : 0 + length.toNat ≤ object.length then pure ⟨object, 0, length, h⟩ else throw .readOutside

/-- A view of no more than the object has is in bounds. -/
theorem viewOf_eq {object : List α} {length : UInt64} (h : length.toNat ≤ object.length) :
    ∃ view, viewOf object length = .ok view ∧ view.content = object.take length.toNat := by
  have hbounds : 0 + length.toNat ≤ object.length := by omega
  exact ⟨⟨object, 0, length, hbounds⟩, dif_pos hbounds, rfl⟩

/-- `std::memcpy` of `count` cells, from `start` in an object to `offset` in an
array. -/
def memcpy {capacity : Nat} (array : Fin capacity → α) (offset : Nat) (object : List α)
    (start count : Nat) : Except Fault (Fin capacity → α) :=
  if hread : start + count ≤ object.length then
    if hwrite : offset + count ≤ capacity then
      pure (FixedBuffer.copyTo array offset ((object.drop start).take count) (by
        rw [List.length_take, List.length_drop]
        omega))
    else throw .writeOutside
  else throw .readOutside

/-- A copy in bounds is not stopped. -/
theorem memcpy_eq {capacity : Nat} (array : Fin capacity → α) {offset start count : Nat}
    {object source : List α} (hsource : (object.drop start).take count = source)
    (hread : start + count ≤ object.length) (h : offset + source.length ≤ capacity) :
    memcpy array offset object start count = .ok (FixedBuffer.copyTo array offset source h) := by
  subst hsource
  have hwrite : offset + count ≤ capacity := by
    rw [List.length_take, List.length_drop] at h
    omega
  unfold memcpy
  rw [dif_pos hread, dif_pos hwrite]
  rfl

/-- An array and a size, with no relation between them. -/
structure RawBuffer (α : Type) (capacity : Nat) where
  data : Fin capacity → α
  size : UInt64

namespace RawBuffer

variable {capacity : Nat}

def zeroed [Inhabited α] : RawBuffer α capacity := ⟨fun _ => default, 0⟩

def room (buffer : RawBuffer α capacity) : Except Fault UInt64 :=
  subSize (.ofNat capacity) buffer.size

/-- Copy what a view shows behind the cells in use. -/
def push (buffer : RawBuffer α capacity) (value : View α) : Except Fault (RawBuffer α capacity) := do
  let data ← memcpy buffer.data buffer.size.toNat value.object value.start value.length.toNat
  let size ← addSize buffer.size value.length
  pure ⟨data, size⟩

def view (buffer : RawBuffer α capacity) : Except Fault (View α) :=
  viewOf (List.ofFn buffer.data) buffer.size

end RawBuffer

namespace FixedBuffer

variable {capacity : Nat}

def raw (buffer : FixedBuffer α capacity) : RawBuffer α capacity :=
  ⟨buffer.data, .ofNat buffer.size⟩

theorem raw_size (hcapacity : capacity < 2 ^ 64) (buffer : FixedBuffer α capacity) :
    buffer.raw.size.toNat = buffer.size :=
  UInt64.toNat_ofNat_of_lt' (lt_of_le_of_lt buffer.size_le hcapacity)

/-- The subtraction does not wrap around. -/
theorem raw_room (hcapacity : capacity < 2 ^ 64) (buffer : FixedBuffer α capacity) :
    ∃ room : UInt64, buffer.raw.room = .ok room ∧ room.toNat = capacity - buffer.size := by
  have hsize := buffer.raw_size hcapacity
  have hbound : (UInt64.ofNat capacity).toNat = capacity := UInt64.toNat_ofNat_of_lt' hcapacity
  have hle : buffer.raw.size ≤ UInt64.ofNat capacity := by
    rw [UInt64.le_iff_toNat_le, hsize, hbound]
    exact buffer.size_le
  refine ⟨_, if_pos hle, ?_⟩
  rw [UInt64.toNat_sub_of_le _ _ hle, hsize, hbound]

/-- The raw operation does what the bounded one does. -/
theorem raw_push (hcapacity : capacity < 2 ^ 64) (buffer : FixedBuffer α capacity) (value : View α)
    (h : buffer.size + value.content.length ≤ capacity) :
    buffer.raw.push value = .ok (buffer.append value.content h).raw := by
  have hsize := buffer.raw_size hcapacity
  have hlength := value.content_length
  have hadd : buffer.raw.size.toNat + value.length.toNat < 2 ^ 64 := by omega
  have hsum : buffer.raw.size + value.length =
      UInt64.ofNat (buffer.size + value.content.length) := by
    have hbound : buffer.size + value.content.length < UInt64.size := lt_of_le_of_lt h hcapacity
    rw [← UInt64.toNat_inj, UInt64.toNat_add, Nat.mod_eq_of_lt hadd,
      UInt64.toNat_ofNat_of_lt' hbound, hsize, hlength]
  have hcopy : memcpy buffer.raw.data buffer.raw.size.toNat value.object value.start
      value.length.toNat = .ok (buffer.append value.content h).data := by
    rw [hsize]
    exact memcpy_eq _ rfl value.bounds h
  unfold RawBuffer.push addSize
  rw [hcopy, if_pos hadd, hsum]
  rfl

theorem take_data (buffer : FixedBuffer α capacity) :
    (List.ofFn buffer.data).take buffer.size = buffer.view := by
  have hle := buffer.size_le
  apply List.ext_getElem
  · simpa using hle
  · intro i _ _
    simp [view]

/-- What is read of the array are the cells in use. -/
theorem raw_view (hcapacity : capacity < 2 ^ 64) (buffer : FixedBuffer α capacity) :
    ∃ view, buffer.raw.view = .ok view ∧ view.content = buffer.view := by
  have hsize := buffer.raw_size hcapacity
  obtain ⟨view, hview, hcontent⟩ :=
    @viewOf_eq _ (List.ofFn buffer.data) buffer.raw.size (by simpa [hsize] using buffer.size_le)
  refine ⟨view, hview, ?_⟩
  rw [hcontent, hsize, buffer.take_data]

/-- Copying the cells in use to the front of another array. -/
theorem raw_copy (hcapacity : capacity < 2 ^ 64) (buffer : FixedBuffer α capacity)
    (array : Fin capacity → α) (h : 0 + buffer.view.length ≤ capacity) :
    memcpy array 0 (List.ofFn buffer.data) 0 buffer.raw.size.toNat =
      .ok (copyTo array 0 buffer.view h) := by
  have hsize := buffer.raw_size hcapacity
  have hread : 0 + buffer.size ≤ (List.ofFn buffer.data).length := by
    simpa using buffer.size_le
  rw [hsize]
  exact memcpy_eq _ buffer.take_data hread h

end FixedBuffer

end AdaptivePi.Foundation
