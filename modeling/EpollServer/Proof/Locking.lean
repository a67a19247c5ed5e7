import EpollServer.Proof.Draining

/-!
# The mutex of a logger

The threads of a logger take turns under the mutex: what it protects changes as if one thread executed the
critical sections one after the other. No statement inside of them waits, since the drain takes a record only
after it has seen one, and none of them calls `Log`; so a thread that wants the mutex waits for a thread that
is a bounded number of statements away from giving it back.
-/

namespace EpollServer

/-- The last statement of a pass of the drain but one. -/
def LogLabel.isFlush : LogLabel → Bool
  | .flush _ => true
  | _ => false

/-- A bound on the statements of the critical section that are left. -/
def LoggerPc.remaining : LoggerPc → Nat
  | .log _ .print _ => 2
  | .log _ .unlockCout _ => 1
  | .log _ .format _ => 4
  | .log _ .push _ => 3
  | .log _ .clear _ => 2
  | .log _ .unlock _ => 1
  | .drain (.test cnt) => 3 * (maxSize - cnt) + 3
  | .drain (.write cnt) => 3 * (maxSize - cnt) + 5
  | .drain (.pop cnt) => 3 * (maxSize - cnt) + 4
  | .drain .flush => 2
  | .drain .unlock => 1
  | _ => 0

/-- The drain counts no further than `max_size`, and between counting a record and popping it the record is
there. -/
def LoggerPc.Counts (pc : LoggerPc) (d : Guarded) : Prop :=
  match pc with
  | .drain (.test cnt) => cnt ≤ maxSize
  | .drain (.write cnt) | .drain (.pop cnt) => 0 < cnt ∧ cnt ≤ maxSize ∧ d.buffer ≠ []
  | _ => True

namespace Guarded

variable {pc pc' : LoggerPc} {label : LogLabel} {d d' : Guarded}

theorem Step.remaining_lt (h : Step pc label d pc' d') : pc'.remaining < pc.remaining := by
  cases h with
  | @write cnt _ hcnt _ _ =>
      change 3 * (maxSize - (cnt + 1)) + 5 < 3 * (maxSize - cnt) + 3
      omega
  | @skip cnt _ hcnt _ =>
      change 3 * (maxSize - (cnt + 1)) + 3 < 3 * (maxSize - cnt) + 3
      omega
  | @done cnt _ =>
      change 2 < 3 * (maxSize - cnt) + 3
      omega
  | print | format | push | clear | flush => exact Nat.lt_succ_self _
  | written | torn | ignored | pop => exact Nat.lt_succ_self _

theorem Step.counts (h : Step pc label d pc' d') (hpc : pc.Counts d) : pc'.Counts d' := by
  cases h with
  | write hcnt hbuffer _ => exact ⟨Nat.succ_pos _, hcnt, hbuffer⟩
  | skip hcnt _ => exact hcnt
  | written | torn | ignored => exact hpc
  | pop => exact hpc.2.1
  | print | format | push | clear | done | flush => trivial

/-- What a step of a thread does to the owner of the mutex and to what it protects. -/
inductive Turn (label : LogLabel) (pc : LoggerPc) (d : Guarded) (pc' : LoggerPc) (d' : Guarded) : Prop
  | outside (hpc : pc' = pc) (hdata : d' = d) (hlabel : label.isFlush = false)
  | acquire (hpc : pc = .idle) (hentry : pc'.isEntry = true) (hdata : d' = d)
      (hlabel : label.isFlush = false)
  | release (hexit : pc.isExit = true) (hpc : pc' = .idle) (hdata : d' = d)
      (hlabel : label.isFlush = false)
  | inside (hstep : Step pc label d pc' d')
      (hdone : ∀ cnt, pc = .drain (.test cnt) → pc' = .drain .flush → maxSize ≤ cnt ∨ d.buffer = [])

end Guarded

theorem LoggerPc.counts_of_isEntry {pc : LoggerPc} (h : pc.isEntry = true) (d : Guarded) : pc.Counts d := by
  unfold isEntry at h
  split at h
  · trivial
  · trivial
  · exact Nat.zero_le _
  · cases h

theorem LoggerPc.remaining_of_isExit {pc : LoggerPc} (h : pc.isExit = true) : pc.remaining = 1 := by
  unfold isExit at h
  split at h
  · rfl
  · rfl
  · rfl
  · cases h

theorem LoggerPc.remaining_of_inside_eq_false {pc : LoggerPc} (h : pc.inside = false) : pc.remaining = 0 := by
  unfold remaining
  split <;> first | rfl | cases h

theorem LoggerPc.Counts.remaining_le {pc : LoggerPc} {d : Guarded} (h : pc.Counts d) :
    pc.remaining ≤ 3 * maxSize + 3 := by
  cases pc with
  | drain pc =>
      cases pc with
      | test cnt => exact Nat.add_le_add_right (Nat.mul_le_mul_left 3 (Nat.sub_le ..)) 3
      | write cnt =>
          obtain ⟨hpos, -, -⟩ := h
          change 3 * (maxSize - cnt) + 5 ≤ 3 * maxSize + 3
          have hmax : 0 < maxSize := by decide
          omega
      | pop cnt =>
          obtain ⟨hpos, -, -⟩ := h
          change 3 * (maxSize - cnt) + 4 ≤ 3 * maxSize + 3
          have hmax : 0 < maxSize := by decide
          omega
      | lock | flush | unlock | sleep => exact Nat.le_trans (by decide) (Nat.le_add_left 3 _)
  | log call pc ret =>
      refine Nat.le_trans ?_ (show 4 ≤ 3 * maxSize + 3 by decide)
      cases pc <;> exact Nat.le_of_ble_eq_true rfl
  | idle | terminate | asyncThreadFunc | setFailed => exact Nat.zero_le _

namespace Guarded.Turn

variable {pc pc' : LoggerPc} {label : LogLabel} {d d' : Guarded}

theorem counts (h : Turn label pc d pc' d') (hpc : pc.Counts d) : pc'.Counts d' := by
  cases h with
  | outside heq hdata _ =>
      subst heq hdata
      exact hpc
  | acquire _ hentry hdata _ => exact LoggerPc.counts_of_isEntry hentry _
  | release _ heq _ _ =>
      subst heq
      trivial
  | inside hstep _ => exact hstep.counts hpc

end Guarded.Turn

namespace LoggerInner

variable {l l' : LoggerInner} {thread : Nat} {pc pc' : LoggerPc} {label : LogLabel}

theorem eq_flush_of_isFlush (h : l.advance thread pc label = some (l', pc')) (hflush : label.isFlush = true) :
    pc = .drain .flush := by
  cases label with
  | flush ok =>
      cases pc with
      | drain pc =>
          cases pc with
          | flush => rfl
          | lock | test | write | pop | unlock | sleep => cases h
      | idle | log | terminate | asyncThreadFunc | setFailed => cases h
  | log | fatal | tau | openFile | write => cases hflush

/-- A pass ends when it has counted to `max_size` or the queue is empty. -/
theorem done_of_flush {cnt : Nat} (h : l.advance thread (.drain (.test cnt)) label = some (l', .drain .flush)) :
    maxSize ≤ cnt ∨ l.buffer = [] := by
  cases label with
  | tau =>
      obtain ⟨-, hpc⟩ := Prod.mk.inj (Option.some.inj h)
      by_contra hmore
      obtain ⟨hcnt, hbuffer⟩ := not_or.mp hmore
      rw [if_pos ⟨Nat.lt_of_not_le hcnt, hbuffer⟩] at hpc
      split at hpc <;> cases hpc
  | log | fatal | openFile | write | flush => cases h

end LoggerInner

namespace Logger

variable {s s' t : Logger} {action : Nat × LogLabel} {isPrintCout : Bool} {thread u : Nat}

theorem ownerPc_of_mu (hmu : s.inner.mu = some u) : s.ownerPc = s.pcs u := by
  rw [ownerPc, hmu]

theorem ownerPc_of_mu_eq_none (hmu : s.inner.mu = none) : s.ownerPc = .idle := by
  rw [ownerPc, hmu]

/-- **One thread after the other.** -/
theorem Sound.turn (hs : s.Sound) (h : s.step action = some s') :
    Guarded.Turn action.2 s.ownerPc (s.inner.guarded s.history) s'.ownerPc
      (s'.inner.guarded s'.history) := by
  obtain ⟨inner, pc, hadvance, rfl⟩ := step_cases h
  have hflush := LoggerInner.eq_flush_of_isFlush hadvance
  cases LoggerInner.advance_cases (h := s.history) (hs.opening action.1) hadvance with
  | outside hpc _ hmu hdata _ =>
      refine .outside ?_ hdata (Bool.eq_false_iff.mpr fun h => absurd hpc (by rw [hflush h]; decide))
      cases howner : s.inner.mu with
      | none => rw [ownerPc_of_mu_eq_none howner, ownerPc_of_mu_eq_none (hmu.trans howner)]
      | some u =>
          -- The owner is inside, so it is another thread that moves.
          have hne : u ≠ action.1 := by
            rintro rfl
            exact absurd ((hs.excludes _).mpr howner) (by rw [hpc]; decide)
          rw [ownerPc_of_mu howner, ownerPc_of_mu (hmu.trans howner)]
          exact Function.update_of_ne hne ..
  | acquire hfree _ hentry hmu hdata _ =>
      have hlabel : action.2.isFlush = false := by
        refine Bool.eq_false_iff.mpr fun h => ?_
        have howner := hs.excludes.owner_eq (t := action.1) (by rw [hflush h]; rfl)
        rw [hfree] at howner
        cases howner
      refine .acquire (ownerPc_of_mu_eq_none hfree) ?_ hdata hlabel
      rw [ownerPc_of_mu hmu]
      change (Function.update s.pcs action.1 pc action.1).isEntry = true
      rw [Function.update_self]
      exact hentry
  | release hpc hexit _ hmu hdata _ =>
      have hlabel : action.2.isFlush = false := by
        refine Bool.eq_false_iff.mpr fun h => absurd hexit ?_
        rw [hflush h]
        decide
      refine .release ?_ (ownerPc_of_mu_eq_none hmu) hdata hlabel
      rw [ownerPc_of_mu (hs.excludes.owner_eq hpc)]
      exact hexit
  | inside hpc _ hmu hstep =>
      have howner := hs.excludes.owner_eq hpc
      rw [ownerPc_of_mu howner, ownerPc_of_mu (hmu.trans howner)]
      change Guarded.Turn _ _ _ (Function.update s.pcs action.1 pc action.1) _
      rw [Function.update_self]
      refine .inside hstep fun cnt hpc hpc' => ?_
      subst hpc'
      rw [hpc] at hadvance
      exact LoggerInner.done_of_flush hadvance

/-- What holds of the owner of the mutex in every run. -/
structure Orderly (s : Logger) : Prop where
  sound : s.Sound
  counts : s.ownerPc.Counts (s.inner.guarded s.history)

theorem orderly_startAasync : ((new isPrintCout).startAasync thread).Orderly :=
  ⟨sound_startAasync, trivial⟩

theorem Orderly.step (hs : s.Orderly) (h : s.step action = some s') : s'.Orderly :=
  ⟨hs.sound.step h, (hs.sound.turn h).counts hs.counts⟩

theorem orderly_of_reachable (hs : Machine.Reachable Logger.step (fun _ _ => True)
    (· = (new isPrintCout).startAasync thread) s) : s.Orderly := by
  induction hs with
  | init h =>
      subst h
      exact orderly_startAasync
  | step _ _ h ih => exact ih.step h

/-- A thread that can execute its next statement. -/
def CanStep (s : Logger) (u : Nat) : Prop := ∃ label, (s.step (u, label)).isSome

theorem canStep_of_advance (label : LogLabel) {r : LoggerInner × LoggerPc}
    (h : s.inner.advance u (s.pcs u) label = some r) : s.CanStep u := by
  refine ⟨label, ?_⟩
  rw [step, h]
  rfl

theorem Orderly.canStep_drain (hs : s.Orderly) {pc : DrainPc} (hpc : s.pcs u = .drain pc)
    (hinside : pc.inside = true) : s.CanStep u := by
  have hcounts := hs.counts
  rw [ownerPc_of_mu (hs.sound.excludes.owner_eq (by rw [hpc]; exact hinside)), hpc] at hcounts
  cases pc with
  | lock | sleep => cases hinside
  | test cnt => exact canStep_of_advance .tau (by rw [hpc]; rfl)
  | write cnt =>
      obtain ⟨-, -, hbuffer⟩ := hcounts
      obtain ⟨front, rest, hbuffer⟩ := List.exists_cons_of_ne_nil hbuffer
      change s.inner.buffer = front :: rest at hbuffer
      refine ⟨.write none, ?_⟩
      rw [Logger.step, hpc]
      change ((s.inner.advanceDrain u (.write cnt) (.write none)).bind _).isSome
      rw [LoggerInner.advanceDrain, hbuffer, List.head?_cons]
      cases hfailed : s.inner.targetStream.failed <;> simp [TargetStream.write, hfailed]
  | pop cnt =>
      obtain ⟨-, -, hbuffer⟩ := hcounts
      exact canStep_of_advance .tau (by rw [hpc]; exact if_neg hbuffer)
  | flush => exact canStep_of_advance (.flush true) (by rw [hpc]; rfl)
  | unlock => exact canStep_of_advance .tau (by rw [hpc]; rfl)

/-- The owner of the mutex does not wait for anything. -/
theorem Orderly.canStep_owner (hs : s.Orderly) (hmu : s.inner.mu = some u) : s.CanStep u := by
  have hinside := (hs.sound.excludes u).mpr hmu
  cases hpc : s.pcs u with
  | drain pc => exact hs.canStep_drain hpc (by rw [hpc] at hinside; exact hinside)
  | log call pc ret =>
      rw [hpc] at hinside
      cases pc with
      | print | unlockCout | format | push | clear | unlock =>
          exact canStep_of_advance .tau (by rw [hpc]; rfl)
      | testLevel | lockCout | testAsync | lock => cases hinside
  | idle | terminate | asyncThreadFunc | setFailed =>
      rw [hpc] at hinside
      cases hinside

/-- A thread outside of the critical sections waits for nothing but the mutex. -/
theorem canStep_of_free (hfree : s.inner.mu = none) (hidle : s.pcs u ≠ .idle)
    (hterminate : s.pcs u ≠ .terminate) (houtside : (s.pcs u).inside = false) : s.CanStep u := by
  cases hpc : s.pcs u with
  | idle => exact absurd hpc hidle
  | terminate => exact absurd hpc hterminate
  | asyncThreadFunc => exact canStep_of_advance (.openFile none) (by rw [hpc]; rfl)
  | setFailed => exact canStep_of_advance .tau (by rw [hpc]; rfl)
  | log call pc ret =>
      rw [hpc] at houtside
      cases pc with
      | testLevel | testAsync => exact canStep_of_advance .tau (by rw [hpc]; rfl)
      | lockCout | lock =>
          exact canStep_of_advance .tau (by rw [hpc]; exact if_pos hfree)
      | print | unlockCout | format | push | clear | unlock => cases houtside
  | drain pc =>
      rw [hpc] at houtside
      cases pc with
      | lock => exact canStep_of_advance .tau (by rw [hpc]; exact if_pos hfree)
      | sleep => exact canStep_of_advance .tau (by rw [hpc]; rfl)
      | test | write | pop | flush | unlock => cases houtside

/-- While a thread keeps the mutex, its own statements use up what is left of the critical section, and those
of other threads do not touch it. -/
theorem Sound.remaining_step (hs : s.Sound) (hmu : s.inner.mu = some u) (h : s.step action = some s') :
    (s'.pcs u).remaining + (decide (action.1 = u)).toNat ≤ (s.pcs u).remaining := by
  obtain ⟨inner, pc, hadvance, rfl⟩ := step_cases h
  change (Function.update s.pcs action.1 pc u).remaining + _ ≤ _
  by_cases heq : action.1 = u
  · subst heq
    rw [Function.update_self, decide_eq_true rfl, Bool.toNat_true]
    cases LoggerInner.advance_cases (h := s.history) (hs.opening action.1) hadvance with
    | outside hpc => exact absurd ((hs.excludes _).mpr hmu) (by rw [hpc]; decide)
    | acquire hfree => exact absurd (hfree.symm.trans hmu) nofun
    | release _ hexit hpc' =>
        exact Nat.le_of_eq (by
          rw [LoggerPc.remaining_of_isExit hexit, LoggerPc.remaining_of_inside_eq_false hpc'])
    | inside _ _ _ hstep => exact hstep.remaining_lt
  · rw [Function.update_of_ne (Ne.symm heq), decide_eq_false heq, Bool.toNat_false]
    exact Nat.le_refl _

theorem Orderly.statements_le (hs : s.Orderly) {as : List (Nat × LogLabel)}
    (h : Machine.run Logger.step (fun s _ => s.inner.mu = some u) s as = some t) :
    as.countP (fun action => action.1 = u) ≤ (s.pcs u).remaining := by
  have hstep : ∀ n s₁ action s₂, (Orderly s₁ ∧ (s₁.pcs u).remaining + n ≤ (s.pcs u).remaining) →
      s₁.inner.mu = some u → s₁.step action = some s₂ →
      Orderly s₂ ∧ (s₂.pcs u).remaining + (n + (decide (action.1 = u)).toNat) ≤ (s.pcs u).remaining := by
    rintro n s₁ action s₂ ⟨hs₁, hle⟩ hmu h
    have hpays := hs₁.sound.remaining_step hmu h
    exact ⟨hs₁.step h, by omega⟩
  have hrun := (Machine.run_counts hstep ⟨hs, Nat.le_of_eq (Nat.add_zero _)⟩ h).2
  omega

/-- **The logger does not block.** A thread in one of its functions can go on, or it waits for the owner of the
mutex, and that one can go on. An owner gives the mutex back after at most three statements for each of the
`max_size` records of a pass of the drain, and three more. -/
theorem never_blocks (hs : Machine.Reachable Logger.step (fun _ _ => True)
    (· = (new isPrintCout).startAasync thread) s) :
    (∀ u, s.pcs u ≠ .idle → s.pcs u ≠ .terminate →
      s.CanStep u ∨ ∃ v, v ≠ u ∧ s.inner.mu = some v ∧ s.CanStep v) ∧
    ∀ u as t, Machine.run Logger.step (fun s _ => s.inner.mu = some u) s as = some t →
      as.countP (fun action => action.1 = u) ≤ 3 * maxSize + 3 := by
  have hs := orderly_of_reachable hs
  refine ⟨fun u hidle hterminate => ?_, fun u as t hrun => ?_⟩
  · cases hmu : s.inner.mu with
    | none =>
        have houtside : (s.pcs u).inside = false := by
          refine Bool.eq_false_iff.mpr fun hinside => ?_
          have howner := hs.sound.excludes.owner_eq hinside
          rw [hmu] at howner
          cases howner
        exact .inl (canStep_of_free hmu hidle hterminate houtside)
    | some v =>
        by_cases heq : v = u
        · exact .inl (hs.canStep_owner (heq ▸ hmu))
        · exact .inr ⟨v, heq, rfl, hs.canStep_owner hmu⟩
  · cases as with
    | nil => exact Nat.zero_le _
    | cons action as =>
        have hmu : s.inner.mu = some u := (Machine.run_cons.mp hrun).1
        calc
          (action :: as).countP (fun action => action.1 = u) ≤ (s.pcs u).remaining := hs.statements_le hrun
          _ = s.ownerPc.remaining := by rw [ownerPc_of_mu hmu]
          _ ≤ 3 * maxSize + 3 := hs.counts.remaining_le

/-- Another thread wants to print while the drain has the mutex. -/
theorem never_blocks_contended : ∃ s, Machine.run Logger.step (fun _ _ => True) ((new true).startAasync 1)
    (opening ++ [(2, .log asyncThreadRunning), (2, .tau)]) = some s ∧ s.inner.mu = some 1 ∧
      (s.CanStep 2 ∨ ∃ v, v ≠ 2 ∧ s.inner.mu = some v ∧ s.CanStep v) := by
  have hview : (Machine.run Logger.step (fun _ _ => True) ((new true).startAasync 1)
      (opening ++ [(2, .log asyncThreadRunning), (2, .tau)])).map (fun s => (s.inner.mu, s.pcs 2))
        = some (some 1, .log asyncThreadRunning .lockCout .caller) := rfl
  obtain ⟨s, hrun, hend⟩ := Option.map_eq_some_iff.mp hview
  obtain ⟨hmu, hpc⟩ := Prod.mk.inj hend
  exact ⟨s, hrun, hmu, (never_blocks (.run (.init rfl) hrun)).1 2 (by rw [hpc]; nofun) (by rw [hpc]; nofun)⟩

end Logger

end EpollServer
