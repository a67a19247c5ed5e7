import Mathlib.Algebra.BigOperators.Group.Finset.Basic

/-!
# Sums over an indexed family

How the sum of a quantity over a family changes when one member does.
-/

namespace Tally

theorem sum_add_eq {ι M : Type*} [DecidableEq ι] [AddCommMonoid M] {members : Finset ι} {i : ι}
    (hi : i ∈ members) {f g : ι → M} (h : ∀ j, j ≠ i → g j = f j) :
    ∑ j ∈ members, g j + f i = ∑ j ∈ members, f j + g i := by
  have hrest : ∑ j ∈ members.erase i, g j = ∑ j ∈ members.erase i, f j :=
    Finset.sum_congr rfl fun j hj => h j (Finset.ne_of_mem_erase hj)
  calc ∑ j ∈ members, g j + f i
      = g i + ∑ j ∈ members.erase i, f j + f i := by rw [← Finset.add_sum_erase _ _ hi, hrest]
    _ = f i + ∑ j ∈ members.erase i, f j + g i := by
        rw [add_comm (g i), add_comm (f i), add_assoc, add_assoc, add_comm (g i)]
    _ = ∑ j ∈ members, f j + g i := by rw [Finset.add_sum_erase _ _ hi]

end Tally
