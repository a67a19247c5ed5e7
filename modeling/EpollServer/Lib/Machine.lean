import Mathlib.Algebra.GroupWithZero.Nat
import Mathlib.Logic.Function.Basic

/-!
# Partial step machines

A machine is a partial function `step : σ → α → Option σ`: in state `s` the action `a` either has a
successor or is not possible. A run may be restricted to the actions that a predicate `ok` admits in
the state they are taken in, which is how a schedule, a policy of the environment or a condition on
every step of a run is stated.
-/

namespace Machine

variable {σ α τ β : Type*}

/-- The states reached from `init` by steps whose action `ok` admits. -/
inductive Reachable (step : σ → α → Option σ) (ok : σ → α → Prop) (init : σ → Prop) : σ → Prop
  | init {s : σ} (h : init s) : Reachable step ok init s
  | step {s s' : σ} {a : α} (hs : Reachable step ok init s) (hok : ok s a)
      (h : step s a = some s') : Reachable step ok init s'

/-- The state after a list of actions, if each of them is admitted and possible. -/
def run (step : σ → α → Option σ) (ok : σ → α → Prop) [∀ s a, Decidable (ok s a)] :
    σ → List α → Option σ
  | s, [] => some s
  | s, a :: as => if ok s a then (step s a).bind (run step ok · as) else none

/-- The state after `n` steps, where `choose` picks the action of each step. -/
def follow (step : σ → α → Option σ) (choose : Nat → σ → α) (s : σ) : Nat → Option σ
  | 0 => some s
  | n + 1 => (follow step choose s n).bind fun t => step t (choose n t)

/-- Every action of the list meets a condition in the state it is taken in, for a machine in which every
action is possible. -/
def Along (next : τ → α → τ) (ok : τ → α → Prop) : τ → List α → Prop
  | _, [] => True
  | t, a :: as => ok t a ∧ Along next ok (next t a) as

/-- What another machine does along a list of actions, if it answers each step with some of its own. -/
def answers (step : σ → α → Option σ) (answer : σ → α → σ → List β) : σ → List α → List β
  | _, [] => []
  | s, a :: as => (step s a).elim [] fun s' => answer s a s' ++ answers step answer s' as

variable {step : σ → α → Option σ} {ok : σ → α → Prop} {init : σ → Prop}

theorem run_cons [∀ s a, Decidable (ok s a)] {s s' : σ} {a : α} {as : List α} :
    run step ok s (a :: as) = some s' ↔ ok s a ∧ ∃ s₁, step s a = some s₁ ∧ run step ok s₁ as = some s' := by
  rw [run, Option.ite_none_right_eq_some, Option.bind_eq_some_iff]

theorem run_append [∀ s a, Decidable (ok s a)] {s s₁ s' : σ} {as bs : List α}
    (h : run step ok s as = some s₁) (h' : run step ok s₁ bs = some s') :
    run step ok s (as ++ bs) = some s' := by
  induction as generalizing s with
  | nil =>
      obtain rfl : s = s₁ := by simpa [run] using h
      exact h'
  | cons a as ih =>
      obtain ⟨ha, s₂, h₂, h⟩ := run_cons.mp h
      exact run_cons.mpr ⟨ha, s₂, h₂, ih h⟩

theorem run_concat [∀ s a, Decidable (ok s a)] {s s₁ s' : σ} {a : α} {as : List α}
    (h : run step ok s as = some s₁) (ha : ok s₁ a) (hstep : step s₁ a = some s') :
    run step ok s (as ++ [a]) = some s' :=
  run_append h (run_cons.mpr ⟨ha, s', hstep, rfl⟩)

/-- **Refinement rule.** A relation to the states of a total machine that every admitted step keeps holds
at the end of every run. -/
theorem run_refines [∀ s a, Decidable (ok s a)] {R : σ → τ → Prop} {next : τ → α → τ}
    (hstep : ∀ s t a s', R s t → ok s a → step s a = some s' → R s' (next t a)) {s s' : σ} {t : τ}
    {as : List α} (hs : R s t) (h : run step ok s as = some s') : R s' (as.foldl next t) := by
  induction as generalizing s t with
  | nil =>
      obtain rfl : s = s' := by simpa [run] using h
      exact hs
  | cons a as ih =>
      obtain ⟨ha, s₁, h₁, h₂⟩ := run_cons.mp h
      exact ih (hstep s t a s₁ hs ha h₁) h₂

/-- **Run simulation rule.** If each admitted step of one machine is answered by admitted steps of another that keep
a relation, then a run is answered by their concatenation. -/
theorem run_simulates [∀ s a, Decidable (ok s a)] {step' : τ → β → Option τ} {ok' : τ → β → Prop}
    [∀ t b, Decidable (ok' t b)] {Inv : σ → Prop} {R : σ → τ → Prop} {answer : σ → α → σ → List β}
    (hstep : ∀ s a s' t, Inv s → R s t → ok s a → step s a = some s' →
      Inv s' ∧ ∃ t', run step' ok' t (answer s a s') = some t' ∧ R s' t')
    {s s' : σ} {t : τ} {as : List α} (hs : Inv s) (ht : R s t) (h : run step ok s as = some s') :
    ∃ t', run step' ok' t (answers step answer s as) = some t' ∧ R s' t' := by
  induction as generalizing s t with
  | nil =>
      obtain rfl : s = s' := by simpa [run] using h
      exact ⟨t, rfl, ht⟩
  | cons a as ih =>
      obtain ⟨ha, s₁, h₁, h⟩ := run_cons.mp h
      obtain ⟨hs₁, t₁, hrun, ht₁⟩ := hstep s a s₁ t hs ht ha h₁
      obtain ⟨t', hrun', ht'⟩ := ih hs₁ ht₁ h
      refine ⟨t', ?_, ht'⟩
      rw [answers, h₁]
      exact run_append hrun hrun'

/-- **Flag rule.** A flag that a step leaves as it is or raises, as its action says, is raised at the end of
a run if it was at the beginning or one of the actions raises it. -/
theorem run_any [∀ s a, Decidable (ok s a)] {Inv : σ → Prop} {flag : σ → Bool} {raises : α → Bool}
    (hstep : ∀ s a s', Inv s → ok s a → step s a = some s' → Inv s' ∧ flag s' = (flag s || raises a))
    {s s' : σ} {as : List α} (hs : Inv s) (h : run step ok s as = some s') :
    Inv s' ∧ flag s' = (flag s || as.any raises) := by
  induction as generalizing s with
  | nil =>
      obtain rfl : s = s' := by simpa [run] using h
      exact ⟨hs, (Bool.or_false _).symm⟩
  | cons a as ih =>
      obtain ⟨ha, s₁, h₁, h₂⟩ := run_cons.mp h
      obtain ⟨hs₁, hflag⟩ := hstep s a s₁ hs ha h₁
      obtain ⟨hs', hflag'⟩ := ih hs₁ h₂
      rw [hflag, Bool.or_assoc] at hflag'
      exact ⟨hs', hflag'⟩

/-- **Definedness rule.** Where a condition on the total machine says exactly when the partial one can
step, it says exactly when the partial one can run. -/
theorem run_isSome_iff {R : σ → τ → Prop} {next : τ → α → τ} {within fits : τ → α → Prop}
    (hdefined : ∀ s t a, R s t → within t a → ((step s a).isSome ↔ fits t a))
    (hstep : ∀ s t a s', R s t → within t a → step s a = some s' → R s' (next t a)) {s : σ} {t : τ}
    {as : List α} (hs : R s t) (hwithin : Along next within t as) :
    (run step (fun _ _ => True) s as).isSome ↔ Along next fits t as := by
  induction as generalizing s t with
  | nil => simp [run, Along]
  | cons a as ih =>
      obtain ⟨ha, has⟩ := hwithin
      have hiff := hdefined s t a hs ha
      rw [run, if_pos trivial, Along]
      cases h : step s a with
      | none =>
          rw [h] at hiff
          simp [← hiff]
      | some s₁ =>
          rw [h] at hiff
          rw [Option.bind_some, ih (hstep s t a s₁ hs ha h) has]
          simp [← hiff]

/-- **Budget rule.** If every step pays for its cost out of a measure and what it is credited, then so does a
run. -/
theorem run_spends [∀ s a, Decidable (ok s a)] {Inv : σ → Prop} (measure : σ → Nat) (cost credit : α → Nat)
    (hstep : ∀ s a s', Inv s → ok s a → step s a = some s' →
      Inv s' ∧ measure s' + cost a ≤ measure s + credit a) {s s' : σ} {as : List α} (hs : Inv s)
    (h : run step ok s as = some s') :
    measure s' + (as.map cost).sum ≤ measure s + (as.map credit).sum := by
  induction as generalizing s with
  | nil =>
      obtain rfl : s = s' := by simpa [run] using h
      exact Nat.le_refl _
  | cons a as ih =>
      obtain ⟨ha, s₁, h₁, h₂⟩ := run_cons.mp h
      obtain ⟨hs₁, hpays⟩ := hstep s a s₁ hs ha h₁
      have hrest := ih hs₁ h₂
      rw [List.map_cons, List.map_cons, List.sum_cons, List.sum_cons]
      omega

/-- The budget rule for a measure that counts up to a level, which only rises. -/
theorem run_spends_upTo [∀ s a, Decidable (ok s a)] {Inv : σ → Prop} (level : σ → Nat) (measure : Nat → σ → Nat)
    (cost credit : α → Nat)
    (hstep : ∀ s a s', Inv s → ok s a → step s a = some s' → Inv s' ∧ level s ≤ level s' ∧
      ∀ bound, level s' ≤ bound → measure bound s' + cost a ≤ measure bound s + credit a)
    {s s' : σ} {as : List α} (hs : Inv s) (h : run step ok s as = some s') :
    level s ≤ level s' ∧ ∀ bound, level s' ≤ bound →
      measure bound s' + (as.map cost).sum ≤ measure bound s + (as.map credit).sum := by
  induction as generalizing s with
  | nil =>
      obtain rfl : s = s' := by simpa [run] using h
      exact ⟨Nat.le_refl _, fun _ _ => Nat.le_refl _⟩
  | cons a as ih =>
      obtain ⟨ha, s₁, h₁, h₂⟩ := run_cons.mp h
      obtain ⟨hs₁, hrises, hpays⟩ := hstep s a s₁ hs ha h₁
      obtain ⟨hrises', hrest⟩ := ih hs₁ h₂
      refine ⟨Nat.le_trans hrises hrises', fun bound hbound => ?_⟩
      have hpays := hpays bound (Nat.le_trans hrises' hbound)
      have hrest := hrest bound hbound
      rw [List.map_cons, List.map_cons, List.sum_cons, List.sum_cons]
      omega

/-- **Phase rule.** A property that depends on how many actions of one kind were taken. -/
theorem run_counts [∀ s a, Decidable (ok s a)] {Phase : Nat → σ → Prop} {counts : α → Bool}
    (hstep : ∀ n s a s', Phase n s → ok s a → step s a = some s' → Phase (n + (counts a).toNat) s')
    {n : Nat} {s s' : σ} {as : List α} (hs : Phase n s) (h : run step ok s as = some s') :
    Phase (n + as.countP counts) s' := by
  induction as generalizing n s with
  | nil =>
      obtain rfl : s = s' := by simpa [run] using h
      exact hs
  | cons a as ih =>
      obtain ⟨ha, s₁, h₁, h₂⟩ := run_cons.mp h
      have hrest := ih (hstep n s a s₁ hs ha h₁) h₂
      rw [List.countP_cons]
      cases hcounts : counts a with
      | true =>
          rw [hcounts, Bool.toNat_true, Nat.add_assoc, Nat.add_comm 1] at hrest
          exact hrest
      | false =>
          rw [hcounts] at hrest
          exact hrest

/-- **Termination rule.** If every chosen step is possible, keeps an invariant and makes a measure smaller
until the goal is reached, then the goal is reached. The measure may depend on the number of the step. -/
theorem follow_reaches {choose : Nat → σ → α} {Inv : σ → Prop} (goal : σ → Prop) (measure : Nat → σ → Nat)
    (hstep : ∀ n t, Inv t → ¬goal t →
      ∃ t', step t (choose n t) = some t' ∧ Inv t' ∧ measure (n + 1) t' < measure n t)
    {s : σ} (hs : Inv s) : ∃ n t, follow step choose s n = some t ∧ Inv t ∧ goal t := by
  suffices h : ∀ k n t, follow step choose s n = some t → Inv t → measure n t ≤ k →
      ∃ n t, follow step choose s n = some t ∧ Inv t ∧ goal t from
    h _ 0 s rfl hs (Nat.le_refl _)
  intro k
  induction k with
  | zero =>
      intro n t hfollow hinv hle
      refine ⟨n, t, hfollow, hinv, by_contra fun hgoal => ?_⟩
      obtain ⟨t', -, -, hlt⟩ := hstep n t hinv hgoal
      omega
  | succ k ih =>
      intro n t hfollow hinv hle
      by_cases hgoal : goal t
      · exact ⟨n, t, hfollow, hinv, hgoal⟩
      · obtain ⟨t', hnext, hinv', hlt⟩ := hstep n t hinv hgoal
        refine ih (n + 1) t' ?_ hinv' (by omega)
        rw [follow, hfollow]
        exact hnext

/-- The other machine takes this step, if it is given one, and stays where it is otherwise. -/
def Follows (step' : τ → β → Option τ) (b : Option β) (t t' : τ) : Prop :=
  b.elim (t' = t) fun b => step' t b = some t'

namespace Reachable

/-- **Invariant rule.** What holds initially and is preserved by every admitted step holds of every
reachable state; the step may use that the state it starts in is reachable. -/
theorem invariant {Inv : σ → Prop} (hinit : ∀ s, init s → Inv s)
    (hstep : ∀ s a s', Reachable step ok init s → Inv s → ok s a → step s a = some s' → Inv s')
    {s : σ} (hs : Reachable step ok init s) : Inv s := by
  induction hs with
  | init h => exact hinit _ h
  | step hs hok h ih => exact hstep _ _ _ hs ih hok h

theorem trans {s s' : σ} (hs : Reachable step ok init s) (hs' : Reachable step ok (· = s) s') :
    Reachable step ok init s' := by
  induction hs' with
  | init h => exact h ▸ hs
  | step _ ha h ih => exact .step ih ha h

theorem mono {ok' : σ → α → Prop} {init' : σ → Prop} (hinit : ∀ s, init s → init' s)
    (hok : ∀ s a, ok s a → ok' s a) {s : σ} (hs : Reachable step ok init s) :
    Reachable step ok' init' s := by
  induction hs with
  | init h => exact .init (hinit _ h)
  | step _ ha h ih => exact .step ih (hok _ _ ha) h

/-- **Simulation rule.** If every admitted step of one machine is, through `f`, an admitted step of
another or leaves its state alone, then `f` maps reachable states to reachable states. -/
theorem map {step' : τ → β → Option τ} {ok' : τ → β → Prop} {init' : τ → Prop} (f : σ → τ)
    (hinit : ∀ s, init s → Reachable step' ok' init' (f s))
    (hstep : ∀ s a s', Reachable step ok init s → ok s a → step s a = some s' →
      f s' = f s ∨ ∃ b, ok' (f s) b ∧ step' (f s) b = some (f s'))
    {s : σ} (hs : Reachable step ok init s) : Reachable step' ok' init' (f s) := by
  induction hs with
  | init h => exact hinit _ h
  | step hs ha h ih =>
      rcases hstep _ _ _ hs ha h with heq | ⟨b, hb, hb'⟩
      · rwa [heq]
      · exact .step ih hb hb'

/-- **Simulation rule** for a relation: if every admitted step of one machine is answered by any number of
admitted steps of another, then every reachable state is related to a reachable one. -/
theorem simulate {step' : τ → β → Option τ} {ok' : τ → β → Prop} {init' : τ → Prop} {R : σ → τ → Prop}
    (hinit : ∀ s, init s → ∃ t, init' t ∧ R s t)
    (hstep : ∀ s a s' t, Reachable step ok init s → ok s a → step s a = some s' →
      Reachable step' ok' init' t → R s t → ∃ t', Reachable step' ok' (· = t) t' ∧ R s' t')
    {s : σ} (hs : Reachable step ok init s) : ∃ t, Reachable step' ok' init' t ∧ R s t := by
  induction hs with
  | init h =>
      obtain ⟨t, ht, hR⟩ := hinit _ h
      exact ⟨t, .init ht, hR⟩
  | step hs ha h ih =>
      obtain ⟨t, ht, hR⟩ := ih
      obtain ⟨t', ht', hR'⟩ := hstep _ _ _ t hs ha h ht hR
      exact ⟨t', ht.trans ht', hR'⟩

theorem run [∀ s a, Decidable (ok s a)] {s s' : σ} {as : List α} (hs : Reachable step ok init s)
    (h : Machine.run step ok s as = some s') : Reachable step ok init s' := by
  induction as generalizing s with
  | nil =>
      obtain rfl : s = s' := by simpa [Machine.run] using h
      exact hs
  | cons a as ih =>
      obtain ⟨ha, s₁, h₁, h₂⟩ := run_cons.mp h
      exact ih (.step hs ha h₁) h₂

end Reachable

end Machine
