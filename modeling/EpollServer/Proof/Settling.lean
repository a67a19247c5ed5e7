import EpollServer.Proof.Rest

/-!
# The server comes to rest

Every step of the server is paid for by what came from outside: each piece of work, each function in a queue
and each ready channel carries a debt, the steps that it still costs, and only `epoll_wait` and the handlers of
a connection bring new debt in. So no thread ever spins, whatever the schedule, and the server comes to rest
after the last event.
-/

namespace EpollServer

/-- The steps that a function in a queue still costs: its call, what it queues, and its destruction. -/
def Task.debt : Task → Nat
  | .handleCloseInLoop _ => 20
  | .connectionDestructor _ => 5

def Work.debt : Work → Nat
  | .runOneFunc _ cb => 11 + cb.debt
  | .queueOneFunc _ cb => 8 + cb.debt
  | .wakeup _ => 7
  | .func _ cb => cb.debt - 4
  | .release _ => 2
  | .destructor _ => 1

def Ready.debt : Ready → Nat
  | .wakeup => 0
  | .accept => 20
  | .conn _ _ _ => 4

namespace Pc

/-- The steps up to the next `epoll_wait`. While the eventfd is still to be read, its counter pays for the end
of the round. -/
def batchDebt (rest : List Ready) : Nat := (rest.map Ready.debt).sum + if .wakeup ∈ rest then 0 else 5

def debt : Pc → Nat
  | .epollWait => 1
  | .batch rest | .newConnection _ rest => batchDebt rest
  | .accepted _ _ rest => 19 + batchDebt rest
  | .handleEvent _ guard rest => (if guard then 3 else 1) + batchDebt rest
  | .swap => 4
  | .funcs called rest => 3 + 3 * called.length + (rest.map Task.debt).sum
  | .destroyFuncs rest => 2 + 3 * rest.length
  | .aborted => 0

end Pc

def Thread.debt (thread : Thread) : Nat := (thread.work.map Work.debt).sum + thread.pc.debt

/-- A round of the loop that only reads the eventfd. -/
def wakeupDebt (wakeupEvent : Nat) : Nat := if 0 < wakeupEvent then 6 else 0

def EventLoop.debt (loop : EventLoop Task) : Nat :=
  (loop.toDoList.map Task.debt).sum + wakeupDebt loop.wakeupEvent

/-- The debt that a step brings in from outside. -/
def Move.credit : Move → Nat
  | .epollWait ready => Pc.batchDebt ready
  | .run .onClose => 34
  | .run _ => 1
  | .accept _ | .construct _ _ _ | .next _ => 0

/-- What is left of a function after its call is destroyed. -/
theorem Task.four_le_debt (cb : Task) : 4 ≤ cb.debt := by
  cases cb <;> simp [debt]

theorem Pc.batchDebt_cons {item : Ready} (hitem : item ≠ .wakeup) (rest : List Ready) :
    batchDebt (item :: rest) = item.debt + batchDebt rest := by
  simp only [batchDebt, List.map_cons, List.sum_cons, List.mem_cons, Ne.symm hitem, false_or]
  omega

namespace EventLoop

variable (loop : EventLoop Task)

theorem debt_wakeup (current : Tid) : (loop.wakeup current).debt ≤ loop.debt + 6 := by
  unfold debt wakeupDebt
  rw [toDoList_wakeup]
  split <;> split <;> omega

theorem debt_emplaceBack (cb : Task) : (loop.emplaceBack cb).debt = loop.debt + cb.debt := by
  simp only [debt, emplaceBack, List.map_append, List.map_cons, List.map_nil, List.sum_append, List.sum_cons,
    List.sum_nil]
  omega

theorem debt_handleRead (h : 0 < loop.wakeupEvent) : loop.handleRead.1.debt + 6 = loop.debt := by
  rw [loop.handleRead_of_pos h]
  simp [debt, wakeupDebt, h]

theorem debt_swap : loop.swap.1.debt + (loop.swap.2.map Task.debt).sum = loop.debt := by
  simp only [debt, swap, List.map_nil, List.sum_nil]
  omega

end EventLoop

namespace Server

variable {s s' : Server} {t c : Nat} {move : Move} {o : Outcome} {ok : Bool}

/-- The steps that are left of `HandleNewConnection`. -/
def setupDebt (s : Server) : Nat :=
  match (s.threads 0).pc with
  | .newConnection c _ => 3 * (Stage.done.index - (s.slots c).stage.index)
  | _ => 0

def debt (s : Server) : Nat := s.tally EventLoop.debt Thread.debt + s.setupDebt

/-- The eventfd is read only while its counter is positive, and once in a batch. -/
def Wakes (s : Server) (t : Nat) : Prop :=
  ∀ rest, s.threads t = ⟨.batch (.wakeup :: rest), []⟩ → 0 < (s.loops t).wakeupEvent ∧ .wakeup ∉ rest

theorem Regular.wakes (hs : s.Regular) (ht : t ≤ s.threadNums) : s.Wakes t := by
  intro rest hthread
  obtain ⟨r, hr, hbehaves⟩ := exists_behaves hs ht
  have hsound := Reactor.sound_of_reachable hr
  have hpc : r.pc = .batch (.wakeup :: rest.map Ready.kind) := by
    rw [hbehaves.pc, hthread]
    rfl
  have hreports := hsound.reports
  rw [hpc, hbehaves.loop] at hreports
  refine ⟨hreports.2 List.mem_cons_self, fun hmem => ?_⟩
  exact (hsound.handleRead hpc).2 (List.mem_map.mpr ⟨_, hmem, rfl⟩)

/-- A step that does not set a connection up pays for itself. -/
theorem Goes.debt_local (h : Goes s t move o) (hwakes : s.Wakes t) (hsetsUp : ∀ c, ¬o.effect.SetsUp c) :
    o.queue.debt + o.thread.debt + 1 ≤ (s.loops o.loop).debt + (s.threads t).debt + move.credit := by
  cases h with
  | @runInline _ _ cb _ _ hthread | @runQueued _ _ cb _ _ hthread =>
      have hcb := cb.four_le_debt
      rw [hthread]
      simp only [goOn, Thread.debt, List.map_cons, List.sum_cons, Work.debt]
      omega
  | @wakeup pc l rest ok hthread =>
      have hflag := (s.loops l).debt_wakeup (s.tid t)
      rw [hthread]
      simp only [Thread.debt, List.map_cons, List.sum_cons, Work.debt]
      omega
  | emplaceBack hthread =>
      rw [hthread, EventLoop.debt_emplaceBack]
      simp only [Thread.debt, List.map_cons, List.sum_cons, Work.debt]
      omega
  | assertFailed hthread =>
      rw [hthread]
      simp only [goOn, Thread.debt, Pc.debt, List.map_cons, List.map_nil, List.sum_cons, List.sum_nil, Work.debt,
        Task.debt]
      omega
  | erase hthread | unregister hthread | release hthread | expire hthread | close hthread =>
      rw [hthread]
      simp only [goOn, Thread.debt, List.map_cons, List.sum_cons, Work.debt, Task.debt]
      omega
  | epollWait hthread =>
      rw [hthread]
      simp only [goOn, Thread.debt, Pc.debt, Move.credit]
      omega
  | @handleRead rest ok hthread =>
      obtain ⟨hpos, hrest⟩ := hwakes rest hthread
      have hflag := (s.loops t).debt_handleRead hpos
      rw [hthread]
      simp only [(s.loops t).handleRead_of_pos hpos, if_true, Thread.debt, Pc.debt, Pc.batchDebt, List.map_cons,
        List.sum_cons, Ready.debt, List.mem_cons_self, hrest, if_false] at hflag ⊢
      omega
  | acceptFailed hthread | accept hthread =>
      rw [hthread]
      simp only [goOn, Thread.debt, Pc.debt, Pc.batchDebt_cons, Ready.debt, ne_eq, reduceCtorEq, not_false_eq_true]
      omega
  | dispatch hthread =>
      rw [hthread]
      simp only [goOn, Thread.debt, Pc.debt, Pc.batchDebt_cons, Ready.debt, ne_eq, reduceCtorEq, not_false_eq_true]
      split <;> omega
  | batchDone hthread =>
      rw [hthread]
      exact Nat.le_refl _
  | @run c guard rest label session hthread =>
      rw [hthread]
      cases label with
      | onClose =>
          simp only [goOn, Thread.debt, Pc.debt, Work.debt, Task.debt, Move.credit, if_true, List.map_cons,
            List.map_nil, List.sum_cons, List.sum_nil]
          omega
      | _ => exact Nat.le_refl _
  | @handled c guard rest ok hthread =>
      rw [hthread]
      cases guard <;> simp [goOn, Thread.debt, Pc.debt, Work.debt] <;> omega
  | swap hthread =>
      have hqueue := (s.loops t).debt_swap
      rw [hthread]
      simp only [Thread.debt, Pc.debt, List.length_nil]
      omega
  | @runFunc called cb rest ok hthread =>
      have hcb := cb.four_le_debt
      rw [hthread]
      simp only [goOn, Thread.debt, Pc.debt, Work.debt, List.map_cons, List.map_nil, List.sum_cons, List.sum_nil,
        List.length_append, List.length_singleton]
      omega
  | funcsDone hthread =>
      rw [hthread]
      simp only [Thread.debt, EventLoop.debt, EventLoop.setCallingFuncs, Pc.debt, List.map_nil, List.sum_nil]
      omega
  | destroyFunc hthread | start hthread =>
      rw [hthread]
      simp only [goOn, Thread.debt, Pc.debt, Work.debt, List.map_cons, List.map_nil, List.sum_cons, List.sum_nil,
        List.length_cons]
      omega
  | construct | insert | onConnect | establish => exact absurd rfl (hsetsUp _)

theorem Goes.setup_frame (h : Goes s t move o) (htidy : Tidy (s.threads t))
    (hsetsUp : ∀ c, ¬o.effect.SetsUp c) {rest : List Ready} :
    o.thread.pc = .newConnection c rest ↔ (s.threads t).pc = .newConnection c rest := by
  cases h with
  | construct | insert | onConnect | establish => exact absurd rfl (hsetsUp _)
  | assertFailed hthread =>
      have hinside := htidy.inside
      rw [hthread] at hinside ⊢
      refine iff_of_false nofun fun hpc => ?_
      have hcalled := hinside _ List.mem_cons_self rfl
      rw [hpc] at hcalled
      cases hcalled
  | handleRead hthread =>
      rw [hthread]
      dsimp only
      split <;> exact iff_of_false nofun nofun
  | _ hthread => rw [hthread] <;> first | exact Iff.rfl | exact iff_of_false nofun nofun

theorem setupDebt_of_newConnection (rest : List Ready) (hpc : (s.threads 0).pc = .newConnection c rest) :
    s.setupDebt = 3 * (Stage.done.index - (s.slots c).stage.index) := by
  rw [setupDebt, hpc]

theorem setupDebt_of_not_newConnection (hpc : ∀ c rest, (s.threads 0).pc ≠ .newConnection c rest) :
    s.setupDebt = 0 := by
  unfold setupDebt
  split
  · exact absurd ‹_› (hpc _ _)
  · rfl

theorem Goes.setupDebt (h : Goes s t move o) (htidy : Tidy (s.threads t))
    (hsetsUp : ∀ c, ¬o.effect.SetsUp c) : (s.after t o).setupDebt = s.setupDebt := by
  have hpc : ∀ c rest, ((s.after t o).threads 0).pc = .newConnection c rest ↔
      (s.threads 0).pc = .newConnection c rest := by
    intro c rest
    by_cases ht : t = 0
    · subst ht
      rw [threads_after_self]
      exact h.setup_frame htidy hsetsUp
    · rw [threads_after_of_ne (Ne.symm ht)]
  by_cases hsetup : ∃ c rest, (s.threads 0).pc = .newConnection c rest
  · obtain ⟨c, rest, hold⟩ := hsetup
    have hstage : ((s.after t o).slots c).stage = (s.slots c).stage := stage_apply (hsetsUp c)
    rw [setupDebt_of_newConnection rest hold, setupDebt_of_newConnection rest ((hpc c rest).mpr hold), hstage]
  · have hnot : ∀ c rest, (s.threads 0).pc ≠ .newConnection c rest := fun c rest h => hsetup ⟨c, rest, h⟩
    rw [setupDebt_of_not_newConnection hnot,
      setupDebt_of_not_newConnection fun c rest => mt (hpc c rest).mp (hnot c rest)]

/-- A statement of `HandleNewConnection`. -/
theorem Goes.debt_setUp (h : Goes s t move o) (hw : s.Wired) (hsetsUp : o.effect.SetsUp c) :
    o.queue.debt + o.thread.debt + (s.after t o).setupDebt + 1
      ≤ (s.loops o.loop).debt + (s.threads t).debt + s.setupDebt + move.credit := by
  cases h with
  | @construct c' fd rest state tied ok hthread =>
      obtain rfl : c' = c := hsetsUp
      obtain rfl : t = 0 := (hw.setsUp t c' (by rw [hthread]; rfl)).1
      rw [setupDebt_of_newConnection (c := c') rest (by rw [threads_after_self]; rfl),
        stage_construct_after rfl, hthread]
      simp only [goOn, Thread.debt, Pc.debt, List.map_nil, List.sum_nil, Stage.index]
      omega
  | @insert c' rest ok hthread hinsert =>
      obtain rfl : c' = c := hsetsUp
      obtain rfl : t = 0 := (hw.setsUp t c' (by rw [hthread]; rfl)).1
      have hreleases : (((s.connectionsMap (s.slots c').fd).toList.map Work.release).map Work.debt).sum ≤ 2 := by
        cases s.connectionsMap (s.slots c').fd <;> simp [Work.debt]
      rw [setupDebt_of_newConnection (c := c') rest (by rw [threads_after_self]; rfl),
        setupDebt_of_newConnection rest (by rw [hthread]), stage_establish_after rfl, hthread, Slot.establish,
        hinsert]
      simp only [goOn, Slot.goOn, Thread.debt, Pc.debt, List.map_nil, List.sum_nil, Stage.index]
      omega
  | @onConnect c' rest ok hthread hconnect =>
      obtain rfl : c' = c := hsetsUp
      obtain rfl : t = 0 := (hw.setsUp t c' (by rw [hthread]; rfl)).1
      rw [setupDebt_of_not_newConnection (by simp [threads_after_self, goOn]),
        setupDebt_of_newConnection rest (by rw [hthread]), hthread, hconnect]
      simp only [goOn, Thread.debt, Pc.debt, Work.debt, List.map_cons, List.map_nil, List.sum_cons, List.sum_nil,
        Stage.index]
      omega
  | @establish c' rest ok hthread hconstructed hinsert hbefore =>
      obtain rfl : c' = c := hsetsUp
      obtain rfl : t = 0 := (hw.setsUp t c' (by rw [hthread]; rfl)).1
      have hindex : ((s.slots c').establish ok).stage.index = (s.slots c').stage.index + 1 :=
        Slot.index_establish_of hconstructed (hw.establishing 0 c' rest (by rw [hthread])).2
      rw [setupDebt_of_newConnection (c := c') rest (by rw [threads_after_self]; rfl),
        setupDebt_of_newConnection rest (by rw [hthread]), stage_establish_after rfl, hindex, hthread]
      simp only [goOn, Thread.debt, Pc.debt, List.map_nil, List.sum_nil, Stage.index] at hbefore ⊢
      omega
  | _ => exact hsetsUp.elim

/-- **Every step is paid for.** -/
theorem Goes.debt (h : Goes s t move o) (hs : s.Regular) (ht : t ≤ s.threadNums) :
    (s.after t o).debt + 1 ≤ s.debt + move.credit := by
  obtain ⟨hw, hh, -⟩ := hs.sound
  have hglobal := tally_after ht (h.loop_le hw hh ht) EventLoop.debt Thread.debt
  have hlocal : o.queue.debt + o.thread.debt + (s.after t o).setupDebt + 1
      ≤ (s.loops o.loop).debt + (s.threads t).debt + s.setupDebt + move.credit := by
    by_cases hsetsUp : ∃ c, o.effect.SetsUp c
    · obtain ⟨c, hsetsUp⟩ := hsetsUp
      exact h.debt_setUp hw hsetsUp
    · have hnot : ∀ c, ¬o.effect.SetsUp c := fun c hc => hsetsUp ⟨c, hc⟩
      have hpays := h.debt_local (hs.wakes ht) hnot
      rw [h.setupDebt (tidy_of_reachable hs.fresh t) hnot]
      omega
  unfold Server.debt
  omega

/-- Work is pending on a connection only while a thread is in its handlers. -/
def Busy (s : Server) : Prop :=
  ∀ c, (s.slots c).session.stack ≠ [] →
    ∃ guard rest, (s.threads (s.slots c).eventLoop).pc = .handleEvent c guard rest

theorem Goes.handleEvent_pc (h : Goes s t move o) (hfinds : s.Finds o) {guard : Bool} {rest : List Ready}
    (hpc : (s.threads t).pc = .handleEvent c guard rest) (hbusy : (s.slots c).session.stack ≠ []) :
    o.thread.pc = .handleEvent c guard rest := by
  cases h with
  | assertFailed hthread hnone => exact absurd hnone (hfinds _ _ rfl)
  | handled hthread hidle =>
      rw [hthread] at hpc
      cases hpc
      exact absurd hidle hbusy
  | _ hthread =>
      rw [hthread] at hpc
      first
        | exact hpc
        | cases hpc

theorem Busy.after (hs : s.Busy) (hw : s.Wired) (hfinds : s.Finds o) (h : Goes s t move o) :
    (s.after t o).Busy := by
  intro c hbusy
  by_cases hsession : ∃ label session, o.effect = .session c label session
  · obtain ⟨label, session, heffect⟩ := hsession
    have hbelongs : s.Belongs t c ∧ ∃ guard rest, o.thread.pc = .handleEvent c guard rest := by
      cases h with
      | dispatch hthread =>
          cases heffect
          exact ⟨(hw.ready t (.conn _ c _) (by rw [hthread]; exact List.mem_cons_self)).1, _, _, rfl⟩
      | run hthread =>
          cases heffect
          exact ⟨hw.handling t c _ _ (by rw [hthread]), _, _, rfl⟩
      | _ => cases heffect
    obtain ⟨hbelongs, guard, rest, hpc⟩ := hbelongs
    refine ⟨guard, rest, ?_⟩
    rw [(h.belongs hw hbelongs).eventLoop, threads_after_self, hpc]
  · obtain ⟨conn, hframe⟩ := h.session_frame hw fun label session heq => hsession ⟨label, session, heq⟩
    rw [hframe] at hbusy
    have hold : (s.slots c).session.stack ≠ [] := hbusy
    obtain ⟨guard, rest, hpc⟩ := hs c hold
    have hbelongs := hw.handling _ c guard rest hpc
    refine ⟨guard, rest, ?_⟩
    rw [(h.belongs hw hbelongs).eventLoop]
    by_cases hne : (s.slots c).eventLoop = t
    · rw [hne] at hpc ⊢
      rw [threads_after_self]
      exact h.handleEvent_pc hfinds hpc hold
    · rwa [threads_after_of_ne hne]

theorem Regular.busy (hs : s.Regular) : s.Busy := by
  refine Machine.Reachable.invariant (fun s h c hbusy => ?_) (fun s action s' hs hinv _ hstep => ?_) hs
  · rw [h.1.slots] at hbusy
    exact absurd rfl hbusy
  · have hs : s.Regular := hs
    obtain ⟨hw, -, hsound⟩ := hs.sound
    obtain ⟨ht, o, hgoes, rfl⟩ := step_cases hstep
    exact hinv.after hw (hsound.findsItself hw ht hgoes).finds hgoes

theorem control_of_work {pc : Pc} {item : Work} {rest : List Work}
    (hthread : s.threads t = ⟨pc, item :: rest⟩) :
    s.control t (.next ok) = some (s.doWork t pc item rest ok) := by
  unfold control
  rw [hthread]

theorem control_of_idle {pc : Pc} (hthread : s.threads t = ⟨pc, []⟩) :
    s.control t move = s.advance t pc move := by
  unfold control
  rw [hthread]

theorem step_isSome (ht : t ≤ s.threadNums) (h : (s.control t move).isSome) : (s.step (t, move)).isSome := by
  rw [step, if_pos ht, Option.isSome_map]
  exact h

/-- A thread that neither waits nor is in the handlers of a connection can go on by itself. -/
theorem Regular.goes_on (hs : s.Regular) (ht : t ≤ s.threadNums) : s.threads t = ⟨.epollWait, []⟩ ∨
    (∃ c guard rest, s.threads t = ⟨.handleEvent c guard rest, []⟩ ∧ (s.slots c).session.stack ≠ []) ∨
      ∃ move, Registers s (t, move) ∧ move.credit = 0 ∧ (s.step (t, move)).isSome := by
  obtain ⟨hw, -, -⟩ := hs.sound
  have hgo (move : Move) (hok : move.CtlSucceeds) (hcredit : move.credit = 0)
      (h : (s.control t move).isSome) :
      ∃ move, Registers s (t, move) ∧ move.credit = 0 ∧ (s.step (t, move)).isSome :=
    ⟨move, hok, hcredit, step_isSome ht h⟩
  rcases hthread : s.threads t with ⟨pc, _ | ⟨item, work⟩⟩
  · have hadvance (move : Move) (hok : move.CtlSucceeds) (hcredit : move.credit = 0)
        (h : (s.advance t pc move).isSome) :
        ∃ move, Registers s (t, move) ∧ move.credit = 0 ∧ (s.step (t, move)).isSome :=
      hgo move hok hcredit (by rwa [control_of_idle hthread])
    cases pc with
    | epollWait => exact .inl rfl
    | batch rest =>
        refine .inr (.inr ?_)
        rcases rest with _ | ⟨_ | _ | ⟨fd, c, events⟩, rest⟩
        · exact hadvance (.next true) rfl rfl rfl
        · exact hadvance (.next true) rfl rfl rfl
        · exact hadvance (.accept none) trivial rfl rfl
        · -- the handlers of the connection run on this thread only, which is not in them
          have hidle : (s.slots c).session.stack = [] := by
            by_contra hbusy
            obtain ⟨guard, rest', hpc⟩ := hs.busy c hbusy
            have hbelongs := (hw.ready t (.conn fd c events) (by rw [hthread]; exact List.mem_cons_self)).1
            rw [hbelongs.eventLoop, hthread] at hpc
            cases hpc
          refine hadvance (.next true) rfl rfl ?_
          rw [advance, Session.step, hidle]
          rfl
    | accepted c fd rest => exact .inr (.inr (hadvance (.construct .invalid false true) rfl rfl rfl))
    | newConnection c rest =>
        obtain ⟨hconstructed, hdone⟩ := hw.establishing t c rest (by rw [hthread])
        refine .inr (.inr (hadvance (.next true) rfl rfl ?_))
        rw [advance, establish]
        cases hstage : (s.slots c).stage with
        | construct => exact absurd hstage hconstructed
        | done => exact absurd hstage hdone
        | _ => rfl
    | handleEvent c guard rest =>
        by_cases hbusy : (s.slots c).session.stack = []
        · refine .inr (.inr (hadvance (.next true) rfl rfl ?_))
          rw [advance, if_pos hbusy]
          rfl
        · exact .inr (.inl ⟨c, guard, rest, rfl, hbusy⟩)
    | swap => exact .inr (.inr (hadvance (.next true) rfl rfl rfl))
    | funcs called rest => cases rest <;> exact .inr (.inr (hadvance (.next true) rfl rfl rfl))
    | destroyFuncs rest => cases rest <;> exact .inr (.inr (hadvance (.next true) rfl rfl rfl))
    | aborted =>
        obtain ⟨r, hr, hbehaves⟩ := exists_behaves hs ht
        refine absurd ?_ (Reactor.sound_of_reachable hr).running
        rw [hbehaves.pc, hthread]
        rfl
  · exact .inr (.inr (hgo (.next true) rfl rfl (by rw [control_of_work hthread]; rfl)))

theorem Fresh.debt (hs : s.Fresh) : s.debt = s.threadNums + 1 := by
  have htally : s.tally EventLoop.debt Thread.debt = s.threadNums + 1 := by
    unfold tally
    rw [Finset.sum_congr rfl fun i _ => show EventLoop.debt (s.loops i) + Thread.debt (s.threads i) = 1 by
      rw [hs.loops, hs.threads]
      rfl, Finset.sum_const_nat (m := 1) fun _ _ => rfl, Finset.card_range, Nat.mul_one]
  rw [Server.debt, htally, setupDebt_of_not_newConnection (by rw [hs.threads]; nofun), Nat.add_zero]

end Server

end EpollServer
