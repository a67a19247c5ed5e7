import Mathlib.Data.List.Basic

/-!
# Writing into part of a list

A list stands for a block of storage: `overwrite` stores symbols from a position on, `resize` changes
the length of the block and keeps what fits, `window` reads the symbols between two positions.
-/

namespace Slice

variable {α : Type*}

/-- Store `xs` from position `i` on. -/
def overwrite (l : List α) (i : Nat) (xs : List α) : List α :=
  l.take i ++ xs ++ l.drop (i + xs.length)

/-- Change the length to `n`, new places holding `fill`. -/
def resize (l : List α) (n : Nat) (fill : α) : List α :=
  l.take n ++ List.replicate (n - l.length) fill

/-- The symbols from position `i` up to position `j`. -/
def window (l : List α) (i j : Nat) : List α := (l.take j).drop i

theorem length_overwrite {l xs : List α} {i : Nat} (h : i + xs.length ≤ l.length) :
    (overwrite l i xs).length = l.length := by
  simp only [overwrite, List.length_append, List.length_take, List.length_drop]
  omega

theorem take_overwrite {l xs : List α} {i : Nat} (h : i ≤ l.length) :
    (overwrite l i xs).take (i + xs.length) = l.take i ++ xs := by
  rw [overwrite, List.take_left']
  simp only [List.length_append, List.length_take]
  omega

@[simp]
theorem length_resize (l : List α) (n : Nat) (fill : α) : (resize l n fill).length = n := by
  simp only [resize, List.length_append, List.length_take, List.length_replicate]
  omega

theorem take_resize {l : List α} {j n : Nat} {fill : α} (hn : j ≤ n) (hj : j ≤ l.length) :
    (resize l n fill).take j = l.take j := by
  rw [resize, List.take_append_of_le_length (by simp; omega), List.take_take, Nat.min_eq_left hn]

theorem length_window {l : List α} {i j : Nat} (hj : j ≤ l.length) :
    (window l i j).length = j - i := by
  simp only [window, List.length_drop, List.length_take]
  omega

@[simp]
theorem window_self (l : List α) (i : Nat) : window l i i = [] := by
  simp [window]

theorem drop_window (l : List α) (i j n : Nat) : (window l i j).drop n = window l (i + n) j := by
  simp [window, List.drop_drop]

theorem window_overwrite {l xs : List α} {i j : Nat} (hi : i ≤ j) (hj : j ≤ l.length) :
    window (overwrite l j xs) i (j + xs.length) = window l i j ++ xs := by
  rw [window, take_overwrite hj, window, List.drop_append_of_le_length]
  simp only [List.length_take]
  omega

theorem window_resize {l : List α} {i j n : Nat} {fill : α} (hn : j ≤ n) (hj : j ≤ l.length) :
    window (resize l n fill) i j = window l i j := by
  rw [window, take_resize hn hj, window]

end Slice
