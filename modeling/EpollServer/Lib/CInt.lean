import Mathlib.Data.Int.Basic

/-!
# 32-bit signed arithmetic

A signed `int` expression has a value only when that value is representable: overflow is undefined in
C++, so here it has no result. A conversion from an unsigned type keeps the low 32 bits.
-/

namespace CInt

/-- `INT_MAX`. -/
def max : Int := 2147483647

/-- `INT_MIN`. -/
def min : Int := -2147483648

/-- The result of a signed computation with mathematical value `x`. -/
def check (x : Int) : Option Int := if min ≤ x ∧ x ≤ max then some x else none

/-- The conversion of a `size_t` to `int`. -/
def ofSize (n : Nat) : Int :=
  if n % 4294967296 < 2147483648 then (n % 4294967296 : Nat) else (n % 4294967296 : Nat) - 4294967296

theorem check_eq_some_iff {x y : Int} : check x = some y ↔ (min ≤ x ∧ x ≤ max) ∧ x = y := by
  simp [check]

theorem check_of_le {x : Int} (h0 : 0 ≤ x) (hmax : x ≤ max) : check x = some x := by
  rw [check, if_pos]
  exact ⟨by simp only [min]; omega, hmax⟩

theorem ofSize_eq {n : Nat} (h : (n : Int) ≤ max) : ofSize n = n := by
  simp only [max] at h
  have hmod : n % 4294967296 = n := Nat.mod_eq_of_lt (by omega)
  rw [ofSize, hmod, if_pos (by omega)]

theorem ofSize_of_add {m n : Nat} (h : ofSize (m + n) = m + n) : ofSize n = n := by
  apply ofSize_eq
  rw [ofSize] at h
  rw [max]
  split at h <;> omega

end CInt
