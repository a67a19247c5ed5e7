import EpollServer.Reactor

/-!
# No task is lost, run twice, run out of order or slept over

The functions pushed are the ones run, the ones taken by the swap and the ones in the queue, in this
order. A function is in the queue while the loop waits only if the eventfd is set or about to be: every
push that the swap of this round cannot see comes from another thread, or from a function that runs, and
both write to the eventfd.
-/

namespace EpollServer

namespace LoopPc

variable {τ : Type}

/-- The functions that the swap took and that are still to be run. -/
def rest : LoopPc τ → List τ
  | .funcs rest | .func rest => rest
  | _ => []

/-- The channels that `epoll_wait` returned and that are still to be handled. -/
def ready : LoopPc τ → List ReadyChannel
  | .batch rest | .handler rest => rest
  | _ => []

/-- Whether `calling_funcs` is set. -/
def calling : LoopPc τ → Bool
  | .swap | .funcs _ | .func _ => true
  | _ => false

/-- Whether the loop is on its way to the swap. -/
def toSwap : LoopPc τ → Bool
  | .batch _ | .handler _ | .swap => true
  | _ => false

end LoopPc

namespace Reactor

variable {τ : Type} {s s' : Reactor τ} {action : Action τ}

/-- What holds of a loop and the threads that use it at every point. -/
structure Sound (s : Reactor τ) : Prop where
  tid : s.loop.tid = s.runner
  order : s.ran.map Prod.snd ++ s.pc.rest ++ s.loop.toDoList = s.queued
  ran : ∀ entry ∈ s.ran, entry.1 = s.runner
  calling : s.loop.callingFuncs = s.pc.calling
  inside : s.queueing s.runner = true → s.pc.inside = true
  reports : Reports s.loop s.pc.ready
  awake : s.loop.toDoList ≠ [] → s.pc.toSwap = true ∨ 0 < s.loop.wakeupEvent ∨
    ∃ current, s.queueing current = true
  running : s.pc ≠ .aborted

theorem Fresh.sound (hs : s.Fresh) : s.Sound where
  tid := by rw [hs.loop]; rfl
  order := by rw [hs.ran, hs.pc, hs.loop, hs.queued]; rfl
  ran := by rw [hs.ran]; exact fun entry h => absurd h List.not_mem_nil
  calling := by rw [hs.loop, hs.pc]; rfl
  inside h := absurd ((hs.queueing _).symm.trans h) Bool.false_ne_true
  reports := by rw [hs.pc]; exact ⟨Nat.zero_le _, fun h => absurd h List.not_mem_nil⟩
  awake h := by rw [hs.loop] at h; exact absurd rfl h
  running := by rw [hs.pc]; nofun

theorem Sound.emplaceBack (hs : s.Sound) {current : Tid} {cb : τ}
    (hinside : current = s.runner → s.pc.inside = true) : Sound { s with
      loop := s.loop.emplaceBack cb
      queueing := Function.update s.queueing current true
      queued := s.queued ++ [cb] } where
  tid := hs.tid
  order := by
    rw [← hs.order]
    simp [EventLoop.emplaceBack]
  ran := hs.ran
  calling := hs.calling
  inside h := by
    by_cases hcurrent : current = s.runner
    · exact hinside hcurrent
    · exact hs.inside (by simpa [Function.update_of_ne (Ne.symm hcurrent)] using h)
  reports := hs.reports
  awake _ := .inr (.inr ⟨current, Function.update_self ..⟩)
  running := hs.running

theorem Sound.wakeup (hs : s.Sound) {current : Tid} (hqueueing : s.queueing current = true) :
    Sound { s with
      loop := s.loop.wakeup current
      queueing := Function.update s.queueing current false } where
  tid := (s.loop.tid_wakeup current).trans hs.tid
  order := by simpa using hs.order
  ran := hs.ran
  calling := by simpa using hs.calling
  inside h := by
    by_cases hcurrent : current = s.runner
    · exact hs.inside (hcurrent ▸ hqueueing)
    · exact hs.inside (by simpa [Function.update_of_ne (Ne.symm hcurrent)] using h)
  reports := ⟨hs.reports.1, fun h => s.loop.wakeupEvent_wakeup current (hs.reports.2 h)⟩
  awake h := by
    by_cases hwrites : current ≠ s.loop.tid ∨ s.loop.callingFuncs = true
    · exact .inr (.inl (s.loop.wakeupEvent_wakeup_of current hwrites))
    · -- the loop's own thread, outside `HandleToDoList`, is still on its way to the swap
      obtain ⟨htid, hcalling⟩ := not_or.mp hwrites
      have hcurrent : current = s.runner := (not_not.mp htid).trans hs.tid
      have hinside := hs.inside (hcurrent ▸ hqueueing)
      have hcalling := hs.calling ▸ hcalling
      left
      cases hpc : s.pc <;> simp_all [LoopPc.inside, LoopPc.calling, LoopPc.toSwap]
  running := hs.running

/-- The loop goes on, without touching its members, to a point that takes as much for granted. -/
theorem Sound.move (hs : s.Sound) {pc : LoopPc τ} (hrest : pc.rest = s.pc.rest)
    (hcalling : pc.calling = s.pc.calling)
    (hinside : s.queueing s.runner = true → pc.inside = true) (hreports : Reports s.loop pc.ready)
    (htoSwap : s.pc.toSwap = true → pc.toSwap = true) (hrunning : pc ≠ .aborted) :
    Sound { s with pc := pc } where
  tid := hs.tid
  order := by rw [hrest]; exact hs.order
  ran := hs.ran
  calling := hs.calling.trans hcalling.symm
  inside := hinside
  reports := hreports
  awake h := (hs.awake h).imp_left htoSwap
  running := hrunning

/-- `HandleRead` finds the counter positive, because only the loop's own thread resets it. -/
theorem Sound.handleRead (hs : s.Sound) {rest : List ReadyChannel}
    (hpc : s.pc = .batch (.wakeup :: rest)) : s.loop.handleRead = ({ s.loop with wakeupEvent := 0 }, true) ∧
      ReadyChannel.wakeup ∉ rest := by
  obtain ⟨hcount, hpos⟩ := hs.reports
  rw [hpc] at hcount hpos
  refine ⟨s.loop.handleRead_of_pos (hpos List.mem_cons_self), fun hmem => ?_⟩
  have htwo := List.count_pos_iff.mpr hmem
  simp only [LoopPc.ready, List.count_cons_self] at hcount
  omega

/-- The loop's own thread is not inside `QueueOneFunc` between two calls. -/
theorem Sound.not_queueing (hs : s.Sound) (hpc : s.pc.inside = false) : s.queueing s.runner = false :=
  Bool.eq_false_iff.mpr fun h => absurd ((hs.inside h).symm.trans hpc) (by decide)

theorem Sound.wakeupEvent (hs : s.Sound) {rest : List ReadyChannel}
    (hpc : s.pc = .batch (.wakeup :: rest)) : Sound { s with
      loop := s.loop.handleRead.1
      pc := if s.loop.handleRead.2 then .batch rest else .aborted } := by
  obtain ⟨hread, hrest⟩ := hs.handleRead hpc
  rw [hread]
  exact {
    tid := hs.tid
    order := by
      have horder := hs.order
      rwa [hpc] at horder
    ran := hs.ran
    calling := hs.calling.trans (hpc ▸ rfl)
    inside := fun h => absurd ((hs.not_queueing (hpc ▸ rfl)).symm.trans h) Bool.false_ne_true
    reports := ⟨by simp [LoopPc.ready, List.count_eq_zero.mpr hrest], fun h => absurd h hrest⟩
    awake := fun _ => .inl rfl
    running := nofun }

theorem Sound.handleToDoList (hs : s.Sound) (hpc : s.pc = .batch []) :
    Sound { s with loop := s.loop.setCallingFuncs true, pc := .swap } where
  tid := hs.tid
  order := by
    have horder := hs.order
    rwa [hpc] at horder
  ran := hs.ran
  calling := rfl
  inside h := absurd ((hs.not_queueing (hpc ▸ rfl)).symm.trans h) Bool.false_ne_true
  reports := ⟨Nat.zero_le _, fun h => absurd h List.not_mem_nil⟩
  awake _ := .inl rfl
  running := nofun

theorem Sound.swap (hs : s.Sound) (hpc : s.pc = .swap) :
    Sound { s with loop := s.loop.swap.1, pc := .funcs s.loop.swap.2 } where
  tid := hs.tid
  order := by
    have horder := hs.order
    simp only [hpc, LoopPc.rest, List.append_nil] at horder
    simpa [LoopPc.rest, EventLoop.swap] using horder
  ran := hs.ran
  calling := hs.calling.trans (hpc ▸ rfl)
  inside h := absurd ((hs.not_queueing (hpc ▸ rfl)).symm.trans h) Bool.false_ne_true
  reports := ⟨Nat.zero_le _, fun h => absurd h List.not_mem_nil⟩
  awake h := absurd rfl h
  running := nofun

theorem Sound.runFunc (hs : s.Sound) {cb : τ} {rest : List τ} (hpc : s.pc = .funcs (cb :: rest)) :
    Sound { s with pc := .func rest, ran := s.ran ++ [(s.runner, cb)] } where
  tid := hs.tid
  order := by
    have horder := hs.order
    rw [hpc] at horder
    simpa [LoopPc.rest] using horder
  ran := List.forall_mem_append.mpr ⟨hs.ran, by simp⟩
  calling := hs.calling.trans (hpc ▸ rfl)
  inside _ := rfl
  reports := ⟨Nat.zero_le _, fun h => absurd h List.not_mem_nil⟩
  awake h := (hs.awake h).imp_left fun h => by
    rw [hpc] at h
    cases h
  running := nofun

theorem Sound.funcsDone (hs : s.Sound) (hpc : s.pc = .funcs []) :
    Sound { s with loop := s.loop.setCallingFuncs false, pc := .epollWait } where
  tid := hs.tid
  order := by
    have horder := hs.order
    rwa [hpc] at horder
  ran := hs.ran
  calling := rfl
  inside h := absurd ((hs.not_queueing (hpc ▸ rfl)).symm.trans h) Bool.false_ne_true
  reports := ⟨Nat.zero_le _, fun h => absurd h List.not_mem_nil⟩
  awake h := (hs.awake h).imp_left fun h => by
    rw [hpc] at h
    cases h
  running := nofun

theorem Sound.step (hs : s.Sound) (h : s.step action = some s') : s'.Sound := by
  cases action with
  | emplaceBack current cb =>
      obtain ⟨⟨-, hinside⟩, h⟩ := Option.ite_none_right_eq_some.mp h
      cases h
      exact hs.emplaceBack hinside
  | wakeup current =>
      obtain ⟨hqueueing, h⟩ := Option.ite_none_right_eq_some.mp h
      cases h
      exact hs.wakeup hqueueing
  | epollWait ready =>
      cases hpc : s.pc <;> simp only [Reactor.step, hpc, reduceCtorEq] at h
      obtain ⟨hreports, h⟩ := Option.ite_none_right_eq_some.mp h
      cases h
      have hidle := hs.not_queueing (hpc ▸ rfl)
      refine hs.move (hpc ▸ rfl) (hpc ▸ rfl) (fun h => ?_) hreports (fun _ => rfl) nofun
      exact absurd (hidle.symm.trans h) Bool.false_ne_true
  | handleEvent =>
      rcases hpc : s.pc with _ | (_ | ⟨_ | _, rest⟩) | _ | _ | _ | _ | _ <;>
        simp only [Reactor.step, hpc, reduceCtorEq] at h
      · cases h
        exact hs.wakeupEvent hpc
      · cases h
        have hreports := hs.reports
        rw [hpc] at hreports
        refine hs.move (hpc ▸ rfl) (hpc ▸ rfl) (fun _ => rfl) ?_ (fun _ => rfl) nofun
        simpa [Reports, LoopPc.ready] using hreports
  | handled =>
      cases hpc : s.pc <;> simp only [Reactor.step, hpc, reduceCtorEq] at h
      obtain ⟨hidle, h⟩ := Option.ite_none_right_eq_some.mp h
      cases h
      have hreports := hs.reports
      rw [hpc] at hreports
      refine hs.move (hpc ▸ rfl) (hpc ▸ rfl) (fun h => ?_) hreports (fun _ => rfl) nofun
      exact absurd (hidle.symm.trans h) Bool.false_ne_true
  | handleToDoList =>
      rcases hpc : s.pc with _ | (_ | ⟨channel, rest⟩) | _ | _ | _ | _ | _ <;>
        simp only [Reactor.step, hpc, reduceCtorEq] at h
      cases h
      exact hs.handleToDoList hpc
  | swap =>
      cases hpc : s.pc <;> simp only [Reactor.step, hpc, reduceCtorEq] at h
      cases h
      exact hs.swap hpc
  | runFunc =>
      rcases hpc : s.pc with _ | _ | _ | _ | (_ | ⟨cb, rest⟩) | _ | _ <;>
        simp only [Reactor.step, hpc, reduceCtorEq] at h
      cases h
      exact hs.runFunc hpc
  | funcDone =>
      cases hpc : s.pc <;> simp only [Reactor.step, hpc, reduceCtorEq] at h
      obtain ⟨hidle, h⟩ := Option.ite_none_right_eq_some.mp h
      cases h
      have hreports := hs.reports
      rw [hpc] at hreports
      refine hs.move (hpc ▸ rfl) (hpc ▸ rfl) (fun h => ?_) hreports (fun h => ?_) nofun
      · exact absurd (hidle.symm.trans h) Bool.false_ne_true
      · rw [hpc] at h
        cases h
  | funcsDone =>
      rcases hpc : s.pc with _ | _ | _ | _ | (_ | ⟨cb, rest⟩) | _ | _ <;>
        simp only [Reactor.step, hpc, reduceCtorEq] at h
      cases h
      exact hs.funcsDone hpc

theorem sound_of_reachable {ok : Reactor τ → Action τ → Prop}
    (hs : Machine.Reachable Reactor.step ok Fresh s) : s.Sound :=
  hs.invariant (fun _ hs => hs.sound) fun _ _ _ _ hinv _ h => hinv.step h

/-- **No task is lost, run twice or run out of order, and no wakeup is lost.** The functions pushed are,
in this order, those that the loop's thread ran, those left of the current batch, and those in the queue.
If the loop waits while a function is queued, then the eventfd is set, or another thread is about to set
it. The assert in `HandleRead` never fails. -/
theorem taskQueue (hs : Machine.Reachable Reactor.step (fun _ _ => True) Fresh s) :
    (s.ran.map Prod.snd ++ s.pc.rest ++ s.loop.toDoList = s.queued ∧
        ∀ entry ∈ s.ran, s.loop.isInLoopThread entry.1 = true) ∧
      (s.pc = .epollWait → s.loop.toDoList ≠ [] →
        0 < s.loop.wakeupEvent ∨ ∃ current, current ≠ s.runner ∧ s.queueing current = true) ∧
      s.pc ≠ .aborted := by
  have hsound := sound_of_reachable hs
  refine ⟨⟨hsound.order, fun entry hentry => ?_⟩, fun hpc hqueued => ?_, hsound.running⟩
  · rw [EventLoop.isInLoopThread, hsound.ran entry hentry, hsound.tid, beq_self_eq_true]
  · rcases hsound.awake hqueued with h | h | ⟨current, hcurrent⟩
    · rw [hpc] at h
      cases h
    · exact .inl h
    · refine .inr ⟨current, ?_, hcurrent⟩
      rintro rfl
      exact absurd ((hsound.not_queueing (hpc ▸ rfl)).symm.trans hcurrent) Bool.false_ne_true

/-- A function that queues another one. -/
theorem taskQueue_nested : ∃ s : Reactor Nat, Machine.Reachable Reactor.step (fun _ _ => True) Fresh s ∧
    s.queued = [10, 11] ∧ s.ran.map Prod.snd = [10] ∧
      (0 < s.loop.wakeupEvent ∨ ∃ current, current ≠ s.runner ∧ s.queueing current = true) := by
  have hfresh : (⟨.new 1, 1, .epollWait, fun _ => false, [], []⟩ : Reactor Nat).Fresh :=
    ⟨rfl, rfl, fun _ => rfl, rfl, rfl⟩
  obtain ⟨s, hrun, hpc, hqueued, hran, hwaiting⟩ : ∃ s,
      Machine.run Reactor.step (fun _ _ => True) ⟨.new 1, 1, .epollWait, fun _ => false, [], []⟩
        [.emplaceBack 2 10, .wakeup 2, .epollWait [.wakeup], .handleEvent, .handleToDoList, .swap,
          .runFunc, .emplaceBack 1 11, .wakeup 1, .funcDone, .funcsDone] = some s ∧
      s.pc = .epollWait ∧ s.queued = [10, 11] ∧ s.ran.map Prod.snd = [10] ∧
      s.loop.toDoList = [11] := ⟨_, rfl, rfl, rfl, rfl, rfl⟩
  have hs : Machine.Reachable Reactor.step (fun _ _ => True) Fresh s := .run (.init hfresh) hrun
  obtain ⟨-, hawake, -⟩ := taskQueue hs
  exact ⟨s, hs, hqueued, hran, hawake hpc (by rw [hwaiting]; decide)⟩

end Reactor

end EpollServer
