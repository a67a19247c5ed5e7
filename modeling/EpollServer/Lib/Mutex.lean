import Mathlib.Logic.Function.Basic

/-!
# One lock and the threads that use it

Each thread stands at a program point, and some program points are inside the critical section. While only
the owner of the lock is inside, what the lock protects changes hands with it: it has one property when
the lock is free, and another one, which depends on where the owner stands, while it is held.
-/

namespace Mutex

variable {τ α δ : Type*}

/-- The owner of the lock, and nobody else, is in the critical section. -/
def Excludes (inside : α → Bool) (owner : Option τ) (pcs : τ → α) : Prop :=
  ∀ t, inside (pcs t) = true ↔ owner = some t

/-- What is known of the data that the lock protects. -/
def Guards (free : δ → Prop) (held : α → δ → Prop) (owner : Option τ) (pcs : τ → α) (data : δ) : Prop :=
  match owner with
  | none => free data
  | some t => held (pcs t) data

variable {inside : α → Bool} {owner : Option τ} {pcs : τ → α} {t : τ} {a : α}

theorem Excludes.owner_eq (h : Excludes inside owner pcs) (ht : inside (pcs t) = true) :
    owner = some t :=
  (h t).mp ht

section Update

variable [DecidableEq τ]

theorem Excludes.acquire (h : Excludes inside none pcs) (ha : inside a = true) :
    Excludes inside (some t) (Function.update pcs t a) := by
  intro u
  by_cases heq : u = t
  · subst heq
    simpa using ha
  · have hout : ¬inside (pcs u) = true := fun hin => nomatch (h u).mp hin
    rw [Function.update_of_ne heq]
    exact ⟨fun hin => absurd hin hout, fun howner => absurd (Option.some.inj howner).symm heq⟩

theorem Excludes.release (h : Excludes inside owner pcs) (ht : inside (pcs t) = true)
    (ha : inside a = false) : Excludes inside none (Function.update pcs t a) := by
  intro u
  by_cases heq : u = t
  · subst heq
    simp [ha]
  · have hne : owner ≠ some u := fun howner => heq (Option.some.inj (howner.symm.trans (h.owner_eq ht)))
    rw [Function.update_of_ne heq]
    exact ⟨fun hin => absurd ((h u).mp hin) hne, nofun⟩

theorem Excludes.keep (h : Excludes inside owner pcs) (ha : inside a = inside (pcs t)) :
    Excludes inside owner (Function.update pcs t a) := by
  intro u
  by_cases heq : u = t
  · subst heq
    rw [Function.update_self, ha]
    exact h u
  · rw [Function.update_of_ne heq]
    exact h u

variable {free : δ → Prop} {held : α → δ → Prop} {data data' : δ}

/-- A step inside the critical section. -/
theorem Guards.inside_step (hexcl : Excludes inside owner pcs) (h : Guards free held owner pcs data)
    (ht : inside (pcs t) = true) (hstep : held (pcs t) data → held a data') :
    Guards free held owner (Function.update pcs t a) data' := by
  obtain rfl := hexcl.owner_eq ht
  rw [Guards, Function.update_self]
  exact hstep h

/-- A step outside of it, which leaves the data alone. -/
theorem Guards.outside_step (hexcl : Excludes inside owner pcs) (h : Guards free held owner pcs data)
    (ht : inside (pcs t) = false) : Guards free held owner (Function.update pcs t a) data := by
  cases owner with
  | none => exact h
  | some u =>
      have hne : u ≠ t := by
        rintro rfl
        exact absurd ((hexcl u).mpr rfl) (by simp [ht])
      rw [Guards, Function.update_of_ne hne]
      exact h

theorem Guards.acquire (h : Guards free held none pcs data) (hstep : free data → held a data) :
    Guards free held (some t) (Function.update pcs t a) data := by
  rw [Guards, Function.update_self]
  exact hstep h

theorem Guards.release (hexcl : Excludes inside owner pcs) (h : Guards free held owner pcs data)
    (ht : inside (pcs t) = true) (hstep : held (pcs t) data → free data) :
    Guards free held none (Function.update pcs t a) data := by
  obtain rfl := hexcl.owner_eq ht
  exact hstep h

end Update

end Mutex
