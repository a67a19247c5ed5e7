import Mathlib.Data.Int.CardIntervalMod

/-!
# Taking turns

A cursor that goes from `0` to `n - 1` and starts again. The `k`-th turn falls on `k % n`, so that of the
first `m` turns no two participants get numbers that differ by more than one.
-/

namespace RoundRobin

variable {n m k i j : Nat}

/-- The place after `i` in a round of `n`. -/
def next (n i : Nat) : Nat := if i + 1 = n then 0 else i + 1

theorem next_lt (hi : i < n) : next n i < n := by
  unfold next
  split <;> omega

theorem next_mod (hn : 0 < n) (k : Nat) : next n (k % n) = (k + 1) % n := by
  have hlt := Nat.mod_lt k hn
  unfold next
  split
  · rename_i hwrap
    have hdvd : n ∣ k + 1 := by
      have hsplit := Nat.div_add_mod k n
      exact ⟨k / n + 1, by rw [Nat.mul_add, Nat.mul_one]; omega⟩
    exact (Nat.mod_eq_zero_of_dvd hdvd).symm
  · rename_i hwrap
    calc k % n + 1 = (k % n + 1) % n := (Nat.mod_eq_of_lt (by omega)).symm
      _ = (k + 1) % n := Nat.mod_add_mod k n 1

/-- The number of the first `m` turns that fall on `i`. -/
def turns (n m i : Nat) : Nat := m.count fun k => k % n = i

theorem turns_eq (hi : i < n) : turns n m i = m / n + if i < m % n then 1 else 0 := by
  have hcount := Nat.count_modEq_card m (Nat.zero_lt_of_lt hi) i
  simp only [Nat.ModEq, Nat.mod_eq_of_lt hi] at hcount
  exact hcount

/-- Who takes the `k`-th of `m` turns may be known in another way, and later turns may not be taken yet. -/
theorem count_eq_turns {p : Nat → Prop} [DecidablePred p] {total : Nat} (hm : m ≤ total)
    (h : ∀ k < m, (p k ↔ k % n = i)) (hlater : ∀ k, m ≤ k → ¬p k) : total.count p = turns n m i := by
  obtain ⟨later, rfl⟩ := Nat.exists_eq_add_of_le hm
  have hnone : Nat.count (fun k => p (m + k)) later = 0 :=
    Nat.count_iff_forall_not.mpr fun k _ => hlater (m + k) (Nat.le_add_right m k)
  rw [Nat.count_add, hnone, Nat.add_zero, turns]
  apply Nat.le_antisymm
  · exact Nat.count_mono_left fun k hk => (h k hk).mp
  · exact Nat.count_mono_left fun k hk => (h k hk).mpr

/-- **Everybody gets the same number of turns, up to one.** -/
theorem turns_le (hi : i < n) (hj : j < n) : turns n m i ≤ turns n m j + 1 := by
  rw [turns_eq hi, turns_eq hj]
  split <;> split <;> omega

end RoundRobin
