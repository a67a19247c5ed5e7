import Mathlib.Data.List.Basic
import Mathlib.Logic.Function.Basic

/-!
# Interleavings

What several sources produce, merged into one list that keeps the order of each source.
-/

namespace Interleaving

variable {τ α β : Type*} [DecidableEq τ]

/-- Each element of `all` comes from one source, and those of source `t` are the list `parts t`, in order. -/
def Merges (parts : τ → List β) (all : List β) : Prop :=
  ∃ tagged : List (τ × β), tagged.map Prod.snd = all ∧
    ∀ t, (tagged.filter (·.1 = t)).map Prod.snd = parts t

/-- What source `t` produces, where each of its actions produces a list. -/
def produced (out : α → List β) (as : List (τ × α)) (t : τ) : List β :=
  (as.filter (·.1 = t)).flatMap (out ·.2)

variable {parts : τ → List β} {all : List β}

theorem Merges.nil : Merges (fun _ : τ => ([] : List β)) [] := ⟨[], rfl, fun _ => rfl⟩

theorem Merges.append (h : Merges parts all) (t : τ) (new : List β) :
    Merges (Function.update parts t (parts t ++ new)) (all ++ new) := by
  obtain ⟨tagged, hall, hparts⟩ := h
  refine ⟨tagged ++ new.map (t, ·), ?_, fun u => ?_⟩
  · rw [List.map_append, hall, List.map_map]
    exact congrArg (all ++ ·) (List.map_id _)
  · rw [List.filter_append, List.map_append, hparts, List.filter_map, List.map_map]
    by_cases heq : u = t
    · subst heq
      rw [Function.update_self]
      congr 1
      simp [Function.comp_def]
    · rw [Function.update_of_ne heq]
      simp [Function.comp_def, Ne.symm heq]

@[simp]
theorem produced_nil (out : α → List β) (t : τ) : produced out [] t = [] := rfl

theorem produced_cons (out : α → List β) (a : τ × α) (as : List (τ × α)) (t : τ) :
    produced out (a :: as) t = (if a.1 = t then out a.2 else []) ++ produced out as t := by
  by_cases heq : a.1 = t
  · rw [produced, List.filter_cons_of_pos (by simpa using heq), List.flatMap_cons, if_pos heq]
    rfl
  · rw [produced, List.filter_cons_of_neg (by simpa using heq), if_neg heq]
    rfl

/-- The lists of the sources after some actions. -/
theorem foldl_produced (out : α → List β) (as : List (τ × α)) (start : τ → List β) (t : τ) :
    as.foldl (fun lists a => Function.update lists a.1 (lists a.1 ++ out a.2)) start t =
      start t ++ produced out as t := by
  induction as generalizing start with
  | nil => exact (List.append_nil _).symm
  | cons a as ih =>
      rw [List.foldl_cons, ih, produced_cons, ← List.append_assoc]
      congr 1
      by_cases heq : a.1 = t
      · subst heq
        rw [Function.update_self, if_pos rfl]
      · rw [Function.update_of_ne (Ne.symm heq), if_neg heq, List.append_nil]

end Interleaving
