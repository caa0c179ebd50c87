import Mathlib.Algebra.Ring.Int.Defs
import Mathlib.Tactic.Common

/-!
Signed 64-bit arithmetic as a C++ program has it: division truncates toward
zero, and an operation whose exact result is not representable has no result.
A computation written with these operations therefore yields a value exactly
when none of its operations overflows.
-/

namespace AdaptivePi.Foundation

namespace Checked

def exact (value : Int) : Option Int64 :=
  if -2 ^ 63 ≤ value ∧ value < 2 ^ 63 then some (Int64.ofInt value) else none

def add (a b : Int64) : Option Int64 := exact (a.toInt + b.toInt)

def sub (a b : Int64) : Option Int64 := exact (a.toInt - b.toInt)

def mul (a b : Int64) : Option Int64 := exact (a.toInt * b.toInt)

def div (a b : Int64) : Option Int64 :=
  if b.toInt = 0 then none else exact (a.toInt.tdiv b.toInt)

/-- A remainder exists only where the quotient does. -/
def mod (a b : Int64) : Option Int64 := do
  let _ ← div a b
  exact (a.toInt.tmod b.toInt)

/-- A result in range does not overflow. -/
theorem exists_exact {value : Int} (hlower : -2 ^ 63 ≤ value) (hupper : value < 2 ^ 63) :
    ∃ result : Int64, exact value = some result ∧ result.toInt = value := by
  refine ⟨Int64.ofInt value, ?_, Int64.toInt_ofInt_of_le hlower hupper⟩
  exact if_pos ⟨hlower, hupper⟩

/-- Dividing by a number above one brings a value closer to zero. -/
theorem tdiv_range (a : Int64) {b : Int} (hb : 1 < b) :
    -2 ^ 63 ≤ a.toInt.tdiv b ∧ a.toInt.tdiv b < 2 ^ 63 := by
  have hlower := a.le_toInt
  have hupper := a.toInt_lt
  rcases Int.le_total 0 a.toInt with hsign | hsign
  · have hle := Int.tdiv_le_self b hsign
    have hnonneg := Int.tdiv_nonneg hsign (by omega : 0 ≤ b)
    omega
  · have hle := Int.tdiv_le_self b (by omega : 0 ≤ -a.toInt)
    have hnonneg := Int.tdiv_nonneg (by omega : 0 ≤ -a.toInt) (by omega : 0 ≤ b)
    rw [Int.neg_tdiv] at hle hnonneg
    omega

theorem exists_div (a : Int64) {b : Int64} (hb : 1 < b.toInt) :
    ∃ result : Int64, div a b = some result ∧ result.toInt = a.toInt.tdiv b.toInt := by
  obtain ⟨hlower, hupper⟩ := tdiv_range a hb
  obtain ⟨result, hexact, hresult⟩ := exists_exact hlower hupper
  refine ⟨result, ?_, hresult⟩
  unfold div
  rw [if_neg (by omega), hexact]

theorem exists_mod (a : Int64) {b : Int64} (hb : 1 < b.toInt) :
    ∃ result : Int64, mod a b = some result ∧ result.toInt = a.toInt.tmod b.toInt := by
  have hbupper := b.toInt_lt
  obtain ⟨quotient, hdiv, -⟩ := exists_div a hb
  have hlower := Int.lt_tmod_of_pos a.toInt (by omega : 0 < b.toInt)
  have hupper := Int.tmod_lt_of_pos a.toInt (by omega : 0 < b.toInt)
  obtain ⟨result, hexact, hresult⟩ :=
    exists_exact (by omega : -2 ^ 63 ≤ a.toInt.tmod b.toInt) (by omega)
  refine ⟨result, ?_, hresult⟩
  unfold mod
  rw [hdiv, Option.bind_eq_bind, Option.bind_some, hexact]

end Checked

end AdaptivePi.Foundation
