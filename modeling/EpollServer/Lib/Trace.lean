import Mathlib.Data.List.Basic

/-!
# Order in traces

What must have happened before an event of a trace. Traces grow at the end, so the order is kept by a step
if it holds of the new events.
-/

namespace Trace

variable {α : Type*}

/-- Before every event of kind `p` there is one of kind `q`. -/
def Preceded (p q : α → Prop) (trace : List α) : Prop :=
  ∀ before x after, trace = before ++ x :: after → p x → ∃ y ∈ before, q y

variable {p q : α → Prop} {trace new : List α}

theorem Preceded.nil : Preceded p q [] := by
  intro before x after h
  simp at h

theorem Preceded.append (h : Preceded p q trace) (hnew : ∀ x ∈ new, p x → ∃ y ∈ trace, q y) :
    Preceded p q (trace ++ new) := by
  intro before x after heq hx
  rcases List.append_eq_append_iff.mp heq with ⟨mid, rfl, rfl⟩ | ⟨mid, rfl, hmid⟩
  · obtain ⟨y, hy, hq⟩ := hnew x (by simp) hx
    exact ⟨y, List.mem_append_left mid hy, hq⟩
  · cases mid with
    | nil =>
        obtain ⟨y, hy, hq⟩ := hnew x (by rw [← show x :: after = new from hmid]; exact List.mem_cons_self) hx
        exact ⟨y, by simpa using hy, hq⟩
    | cons z mid =>
        obtain ⟨rfl, -⟩ := List.cons.inj hmid
        exact h before _ mid rfl hx

end Trace
