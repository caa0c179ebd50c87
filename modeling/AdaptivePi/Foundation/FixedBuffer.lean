import Mathlib.Algebra.Ring.Nat
import Mathlib.Data.List.OfFn
import Mathlib.Tactic.Common

/-!
Arrays of fixed capacity filled from the front. The number of cells in use is
a field with its bound, and copying into the array takes a proof that the
copied range lies inside it, so neither a size beyond the capacity nor a copy
past the end can be expressed. Only `view`, the cells in use, is ever
observed.
-/

namespace AdaptivePi.Foundation

/-- Subtraction of unsigned 64-bit sizes, which wraps around. -/
def sizeSub (a b : Nat) : Nat := (a + 2 ^ 64 - b) % 2 ^ 64

/-- No wrap-around if the difference is not negative. -/
theorem sizeSub_eq {a b : Nat} (hle : b ≤ a) (ha : a < 2 ^ 64) : sizeSub a b = a - b := by
  unfold sizeSub
  omega

structure FixedBuffer (α : Type*) (capacity : Nat) where
  data : Fin capacity → α
  size : Nat
  size_le : size ≤ capacity

namespace FixedBuffer

variable {α : Type*} {capacity : Nat}

def zeroed [Inhabited α] : FixedBuffer α capacity := ⟨fun _ => default, 0, by omega⟩

def view (buffer : FixedBuffer α capacity) : List α :=
  List.ofFn fun i : Fin buffer.size => buffer.data ⟨i, by have := buffer.size_le; omega⟩

/-- Copy `source` to the cells from `offset` on. -/
def copyTo (data : Fin capacity → α) (offset : Nat) (source : List α)
    (_ : offset + source.length ≤ capacity) : Fin capacity → α :=
  fun i => if h : offset ≤ i ∧ i < offset + source.length then
    source.get ⟨i - offset, by omega⟩ else data i

def append (buffer : FixedBuffer α capacity) (source : List α)
    (h : buffer.size + source.length ≤ capacity) : FixedBuffer α capacity :=
  ⟨copyTo buffer.data buffer.size source h, buffer.size + source.length, h⟩

def clear (buffer : FixedBuffer α capacity) : FixedBuffer α capacity :=
  { buffer with size := 0, size_le := by omega }

@[simp] theorem view_length (buffer : FixedBuffer α capacity) :
    buffer.view.length = buffer.size := by
  simp [view]

theorem view_length_le (buffer : FixedBuffer α capacity) :
    buffer.view.length ≤ capacity := by
  simpa using buffer.size_le

theorem view_eq_nil_iff (buffer : FixedBuffer α capacity) :
    buffer.view = [] ↔ buffer.size = 0 := by
  rw [← List.length_eq_zero_iff, view_length]

@[simp] theorem view_zeroed [Inhabited α] :
    (zeroed : FixedBuffer α capacity).view = [] := by
  rw [view_eq_nil_iff]
  rfl

@[simp] theorem view_clear (buffer : FixedBuffer α capacity) : buffer.clear.view = [] := by
  rw [view_eq_nil_iff]
  rfl

@[simp] theorem view_append (buffer : FixedBuffer α capacity) (source : List α)
    (h : buffer.size + source.length ≤ capacity) :
    (buffer.append source h).view = buffer.view ++ source := by
  apply List.ext_getElem
  · simp [append]
  · intro i _ _
    by_cases hin : i < buffer.size
    · have hnot : ¬buffer.size ≤ i := by omega
      rw [List.getElem_append_left (by simpa using hin)]
      simp [view, append, copyTo, hnot]
    · have hge : buffer.size ≤ i := by omega
      rw [List.getElem_append_right (by simpa using hge)]
      simp [view, append, copyTo, hge]

end FixedBuffer

end AdaptivePi.Foundation
