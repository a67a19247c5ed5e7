import EpollServer.Proof.Reactor

/-!
# No function waits for long

`HandleToDoList` takes the whole queue before it calls the first function. So whatever keeps being queued, a
function is called before the loop has gone through `HandleToDoList` twice, and once is enough if the loop has
not swapped yet.
-/

namespace EpollServer

namespace LoopPc

variable {τ : Type}

/-- Whether the swap of this round is still to come. -/
def beforeSwap : LoopPc τ → Bool
  | .epollWait | .batch _ | .handler _ | .swap => true
  | .funcs _ | .func _ | .aborted => false

end LoopPc

namespace Reactor

variable {τ : Type} {s s' : Reactor τ} {action : Action τ}

/-- The end of `HandleToDoList`. -/
def Action.isFuncsDone : Action τ → Bool
  | .funcsDone => true
  | _ => false

/-- The functions that were called or that the swap took to be called. -/
def taken (s : Reactor τ) : List τ := s.ran.map Prod.snd ++ s.pc.rest

theorem step_mono (h : s.step action = some s') : s.queued <+: s'.queued ∧ s.taken <+: s'.taken ∧
    s.ran.map Prod.snd <+: s'.ran.map Prod.snd := by
  unfold taken
  cases action with
  | emplaceBack current cb =>
      obtain ⟨-, h⟩ := Option.ite_none_right_eq_some.mp h
      cases h
      exact ⟨List.prefix_append _ _, List.prefix_rfl, List.prefix_rfl⟩
  | wakeup current =>
      obtain ⟨-, h⟩ := Option.ite_none_right_eq_some.mp h
      cases h
      exact ⟨List.prefix_rfl, List.prefix_rfl, List.prefix_rfl⟩
  | epollWait ready =>
      cases hpc : s.pc <;> simp only [Reactor.step, hpc, reduceCtorEq] at h
      obtain ⟨-, h⟩ := Option.ite_none_right_eq_some.mp h
      cases h
      exact ⟨List.prefix_rfl, List.prefix_rfl, List.prefix_rfl⟩
  | handleEvent =>
      rcases hpc : s.pc with _ | (_ | ⟨_ | _, rest⟩) | _ | _ | _ | _ | _ <;>
        simp only [Reactor.step, hpc, reduceCtorEq] at h
      · cases h
        refine ⟨List.prefix_rfl, ?_, List.prefix_rfl⟩
        dsimp only
        split <;> exact List.prefix_rfl
      · cases h
        exact ⟨List.prefix_rfl, List.prefix_rfl, List.prefix_rfl⟩
  | handled | funcDone =>
      cases hpc : s.pc <;> simp only [Reactor.step, hpc, reduceCtorEq] at h
      obtain ⟨-, h⟩ := Option.ite_none_right_eq_some.mp h
      cases h
      exact ⟨List.prefix_rfl, List.prefix_rfl, List.prefix_rfl⟩
  | handleToDoList =>
      rcases hpc : s.pc with _ | (_ | ⟨channel, rest⟩) | _ | _ | _ | _ | _ <;>
        simp only [Reactor.step, hpc, reduceCtorEq] at h
      cases h
      exact ⟨List.prefix_rfl, List.prefix_rfl, List.prefix_rfl⟩
  | swap =>
      cases hpc : s.pc <;> simp only [Reactor.step, hpc, reduceCtorEq] at h
      cases h
      refine ⟨List.prefix_rfl, ?_, List.prefix_rfl⟩
      simp [LoopPc.rest]
  | runFunc =>
      rcases hpc : s.pc with _ | _ | _ | _ | (_ | ⟨cb, rest⟩) | _ | _ <;>
        simp only [Reactor.step, hpc, reduceCtorEq] at h
      cases h
      simp [LoopPc.rest]
  | funcsDone =>
      rcases hpc : s.pc with _ | _ | _ | _ | (_ | ⟨cb, rest⟩) | _ | _ <;>
        simp only [Reactor.step, hpc, reduceCtorEq] at h
      cases h
      exact ⟨List.prefix_rfl, List.prefix_rfl, List.prefix_rfl⟩

/-- Before the swap a loop goes on towards it, and the swap takes everything. -/
theorem Sound.beforeSwap (hs : s.Sound) (hpc : s.pc.beforeSwap = true) (h : s.step action = some s') :
    action.isFuncsDone = false ∧ (s'.pc.beforeSwap = true ∨ s.queued <+: s'.taken) := by
  cases action with
  | emplaceBack current cb | wakeup current =>
      obtain ⟨-, h⟩ := Option.ite_none_right_eq_some.mp h
      cases h
      exact ⟨rfl, .inl hpc⟩
  | epollWait ready =>
      cases hpc' : s.pc <;> simp only [Reactor.step, hpc', reduceCtorEq] at h
      obtain ⟨-, h⟩ := Option.ite_none_right_eq_some.mp h
      cases h
      exact ⟨rfl, .inl rfl⟩
  | handleEvent =>
      rcases hpc' : s.pc with _ | (_ | ⟨_ | _, rest⟩) | _ | _ | _ | _ | _ <;>
        simp only [Reactor.step, hpc', reduceCtorEq] at h
      · cases h
        rw [(hs.handleRead hpc').1]
        exact ⟨rfl, .inl rfl⟩
      · cases h
        exact ⟨rfl, .inl rfl⟩
  | handled =>
      cases hpc' : s.pc <;> simp only [Reactor.step, hpc', reduceCtorEq] at h
      obtain ⟨-, h⟩ := Option.ite_none_right_eq_some.mp h
      cases h
      exact ⟨rfl, .inl rfl⟩
  | handleToDoList =>
      rcases hpc' : s.pc with _ | (_ | ⟨channel, rest⟩) | _ | _ | _ | _ | _ <;>
        simp only [Reactor.step, hpc', reduceCtorEq] at h
      cases h
      exact ⟨rfl, .inl rfl⟩
  | swap =>
      cases hpc' : s.pc <;> simp only [Reactor.step, hpc', reduceCtorEq] at h
      cases h
      refine ⟨rfl, .inr ?_⟩
      have horder := hs.order
      simp only [hpc', LoopPc.rest, List.append_nil] at horder
      rw [← horder]
      exact List.prefix_rfl
  | runFunc | funcDone | funcsDone =>
      rcases hpc' : s.pc with _ | _ | _ | _ | (_ | ⟨cb, rest⟩) | _ | _ <;>
        simp only [Reactor.step, hpc', reduceCtorEq] at h
      all_goals
        rw [hpc'] at hpc
        cases hpc

/-- How far the loop is on its way through the functions `q` after the `n`-th end of `HandleToDoList`. -/
def Serves (q : List τ) : Nat → Reactor τ → Prop
  | 0, s => q <+: s.queued
  | 1, s => q <+: s.queued ∧ s.pc.beforeSwap = true ∨ q <+: s.taken
  | _ + 2, s => q <+: s.ran.map Prod.snd

theorem Serves.step {q : List τ} {n : Nat} (hq : Serves q n s) (hs : s.Sound) (h : s.step action = some s') :
    Serves q (n + action.isFuncsDone.toNat) s' := by
  obtain ⟨hqueued, htaken, hran⟩ := step_mono h
  -- the end of `HandleToDoList` is the only action that counts
  have hdone : action.isFuncsDone = true → s.taken = s.ran.map Prod.snd ∧ s'.pc = .epollWait := by
    intro hcounts
    cases action <;> cases hcounts
    rcases hpc : s.pc with _ | _ | _ | _ | (_ | ⟨cb, rest⟩) | _ | _ <;>
      simp only [Reactor.step, hpc, reduceCtorEq] at h
    cases h
    exact ⟨by rw [taken, hpc, LoopPc.rest, List.append_nil], rfl⟩
  cases hcounts : action.isFuncsDone with
  | true =>
      obtain ⟨hrest, hpc⟩ := hdone hcounts
      rcases n with _ | _ | n
      · exact .inl ⟨hq.trans hqueued, by rw [hpc]; rfl⟩
      · rcases hq with ⟨-, hbefore⟩ | hq
        · rw [(hs.beforeSwap hbefore h).1] at hcounts
          cases hcounts
        · rw [hrest] at hq
          exact hq.trans hran
      · exact hq.trans hran
  | false =>
      rcases n with _ | _ | n
      · exact hq.trans hqueued
      · rcases hq with ⟨hq, hbefore⟩ | hq
        · rcases (hs.beforeSwap hbefore h).2 with hbefore | hall
          · exact .inl ⟨hq.trans hqueued, hbefore⟩
          · exact .inr (hq.trans hall)
        · exact .inr (hq.trans htaken)
      · exact hq.trans hran

theorem Serves.called {q : List τ} {n : Nat} (hq : Serves q n s) (hn : 2 ≤ n) : q <+: s.ran.map Prod.snd := by
  obtain ⟨n, rfl⟩ := Nat.exists_eq_add_of_le' hn
  exact hq

/-- **No function waits for long.** Whatever is queued meanwhile, all functions in the queue are called, in order,
before the loop comes to the end of `HandleToDoList` for the second time, and for the first time if it has not
swapped yet. -/
theorem called_within_two_rounds (hs : Machine.Reachable Reactor.step (fun _ _ => True) Fresh s)
    {actions : List (Action τ)} (hrun : Machine.run Reactor.step (fun _ _ => True) s actions = some s')
    (hrounds : (if s.pc.beforeSwap then 1 else 2) ≤ actions.countP Action.isFuncsDone) :
    s.queued <+: s'.ran.map Prod.snd := by
  have hstep : ∀ n (t : Reactor τ) action t', (Serves s.queued n t ∧ t.Sound) → True →
      t.step action = some t' → Serves s.queued (n + (Action.isFuncsDone action).toNat) t' ∧ t'.Sound :=
    fun n t action t' h _ hstep => ⟨h.1.step h.2 hstep, h.2.step hstep⟩
  have hsound := sound_of_reachable hs
  by_cases hbefore : s.pc.beforeSwap = true
  · rw [if_pos hbefore] at hrounds
    have hstart : Serves s.queued 1 s := .inl ⟨List.prefix_rfl, hbefore⟩
    exact (Machine.run_counts hstep ⟨hstart, hsound⟩ hrun).1.called (by omega)
  · rw [if_neg hbefore] at hrounds
    have hstart : Serves s.queued 0 s := List.prefix_rfl
    exact (Machine.run_counts hstep ⟨hstart, hsound⟩ hrun).1.called (by omega)

/-- A function that another one queues is called in the next round. -/
theorem called_within_two_rounds_nested : ∃ s s' : Reactor Nat,
    Machine.Reachable Reactor.step (fun _ _ => True) Fresh s ∧ s.queued = [10, 11] ∧
      Machine.run Reactor.step (fun _ _ => True) s [.wakeup 1, .funcDone, .funcsDone, .epollWait [.wakeup],
        .handleEvent, .handleToDoList, .swap, .runFunc, .funcDone, .funcsDone] = some s' ∧
      s.queued <+: s'.ran.map Prod.snd := by
  have hfresh : (⟨.new 1, 1, .epollWait, fun _ => false, [], []⟩ : Reactor Nat).Fresh :=
    ⟨rfl, rfl, fun _ => rfl, rfl, rfl⟩
  obtain ⟨s, hrun, hqueued⟩ : ∃ s : Reactor Nat,
      Machine.run Reactor.step (fun _ _ => True) ⟨.new 1, 1, .epollWait, fun _ => false, [], []⟩
        [.emplaceBack 2 10, .wakeup 2, .epollWait [.wakeup], .handleEvent, .handleToDoList, .swap, .runFunc,
          .emplaceBack 1 11] = some s ∧ s.queued = [10, 11] := ⟨_, rfl, rfl⟩
  obtain ⟨s', hrun', hrounds⟩ : ∃ s' : Reactor Nat, Machine.run Reactor.step (fun _ _ => True) s
      [.wakeup 1, .funcDone, .funcsDone, .epollWait [.wakeup], .handleEvent, .handleToDoList, .swap, .runFunc,
        .funcDone, .funcsDone] = some s' ∧ s.pc.beforeSwap = false := by
    cases hrun
    exact ⟨_, rfl, rfl⟩
  have hs : Machine.Reachable Reactor.step (fun _ _ => True) Fresh s := .run (.init hfresh) hrun
  refine ⟨s, s', hs, hqueued, hrun', called_within_two_rounds hs hrun' ?_⟩
  rw [hrounds]
  decide

end Reactor

end EpollServer
