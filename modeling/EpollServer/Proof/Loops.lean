import EpollServer.Proof.CloseProtocol
import EpollServer.Proof.Reactor

/-!
# Each loop of the server is a reactor

Seen from one of its loops, a run of the server is a run of `Reactor`: the thread of the loop goes through
`Start`, and every other thread now and then comes by with `QueueOneFunc`. Each step of the server is none, one
or two actions of the reactor. What is known of a single loop and the threads that use it therefore holds of all
loops of the server at once.
-/

namespace EpollServer

/-- What a ready channel is to a loop that only looks at its task queue. -/
def Ready.kind : Ready → ReadyChannel
  | .wakeup => .wakeup
  | .accept | .conn _ _ _ => .other

/-- Whether a piece of work may put a function into a queue or is on its way to do so. -/
def Work.queues : Work → Bool
  | .runOneFunc _ _ | .queueOneFunc _ _ | .wakeup _ | .func _ _ => true
  | .release _ | .destructor _ => false

/-- Whether the code of a handler or of a function runs. -/
def Pc.inside : Pc → Bool
  | .handleEvent _ _ _ | .funcs _ _ => true
  | _ => false

/-- Where the thread is in the `Start` of its loop. -/
def Thread.point (thread : Thread) : LoopPc Task :=
  match thread.pc with
  | .epollWait | .destroyFuncs _ => .epollWait
  | .batch rest => .batch (rest.map Ready.kind)
  | .accepted _ _ rest | .newConnection _ rest | .handleEvent _ _ rest => .handler (rest.map Ready.kind)
  | .swap => .swap
  | .funcs _ rest => if thread.work = [] then .funcs rest else .func rest
  | .aborted => .aborted

/-- What a piece of work of the thread with this id does to the task queue of loop `l`. -/
def Work.onQueue (l : Nat) (current : Tid) : Work → List (Reactor.Action Task)
  | .queueOneFunc l' cb => if l' = l then [.emplaceBack current cb] else []
  | .wakeup l' => if l' = l then [.wakeup current] else []
  | .runOneFunc _ _ | .func _ _ | .release _ | .destructor _ => []

/-- What a thread does in the `Start` of its loop when it goes on. A function returns with the last work in it. -/
def Thread.onLoop (thread after : Thread) : List (Reactor.Action Task) :=
  match thread.work with
  | _ :: _ =>
      match thread.pc with
      | .funcs _ _ => if after.work = [] then [.funcDone] else []
      | _ => []
  | [] =>
      match thread.pc, after.pc with
      | .epollWait, .batch ready => [.epollWait (ready.map Ready.kind)]
      | .batch [], _ => [.handleToDoList]
      | .batch (.accept :: _), .batch _ => [.handleEvent, .handled]
      | .batch (_ :: _), _ => [.handleEvent]
      | .newConnection _ _, .batch _ | .handleEvent _ _ _, .batch _ => [.handled]
      | .swap, _ => [.swap]
      | .funcs _ (_ :: _), _ => [.runFunc]
      | .funcs _ [], _ => [.funcsDone]
      | _, _ => []

namespace Server

variable {s s' : Server} {t c l : Nat} {move : Move} {o : Outcome}

/-- A thread finishes `QueueOneFunc` before it does anything else, calls it only from a handler or a function,
and has nothing left to do when it waits. -/
structure Tidy (thread : Thread) : Prop where
  tail : ∀ l, .wakeup l ∉ thread.work.tail
  inside : ∀ item ∈ thread.work, item.queues = true → thread.pc.inside = true
  waiting : thread.pc = .epollWait → thread.work = []

theorem Tidy.notMem_rest {thread : Thread} {pc : Pc} {item : Work} {rest : List Work} (hs : Tidy thread)
    (hthread : thread = ⟨pc, item :: rest⟩) : .wakeup l ∉ rest := by
  have htail := hs.tail l
  rwa [hthread] at htail

theorem Goes.tidy (h : Goes s t move o) (hs : Tidy (s.threads t)) : Tidy o.thread := by
  obtain ⟨htail, hinside, hwaiting⟩ := hs
  have hquiet : ∀ pc, Tidy ⟨pc, []⟩ := by
    intro pc
    exact ⟨fun _ => List.not_mem_nil, fun _ h => absurd h List.not_mem_nil, fun _ => rfl⟩
  have hrelease : ∀ pc c, pc ≠ .epollWait → Tidy ⟨pc, [.release c]⟩ := by
    intro pc c hpc
    refine ⟨fun _ => List.not_mem_nil, fun item hitem hqueues => ?_, fun h => absurd h hpc⟩
    obtain rfl := List.mem_singleton.mp hitem
    cases hqueues
  cases h with
  | runInline hthread | runQueued hthread | emplaceBack hthread | erase hthread =>
      rw [hthread] at htail hinside hwaiting
      have hpc := hinside _ List.mem_cons_self rfl
      exact ⟨fun l => by simpa [goOn] using htail l, fun _ _ _ => hpc,
        fun h => absurd (hwaiting h) (List.cons_ne_nil _ _)⟩
  | wakeup hthread | unregister hthread | release hthread | close hthread =>
      rw [hthread] at htail hinside hwaiting
      exact ⟨fun l hmem => htail l (List.mem_of_mem_tail hmem),
        fun item hitem => hinside item (List.mem_cons_of_mem _ hitem),
        fun h => absurd (hwaiting h) (List.cons_ne_nil _ _)⟩
  | expire hthread =>
      rw [hthread] at htail hinside hwaiting
      refine ⟨fun l => htail l, fun item hitem hqueues => ?_,
        fun h => absurd (hwaiting h) (List.cons_ne_nil _ _)⟩
      rcases List.mem_cons.mp hitem with rfl | hitem
      · cases hqueues
      · exact hinside item (List.mem_cons_of_mem _ hitem) hqueues
  | insert hthread =>
      refine ⟨fun l hmem => ?_, fun item hitem hqueues => ?_, fun h => ?_⟩
      · obtain ⟨e, -, heq⟩ := List.mem_map.mp (List.mem_of_mem_tail hmem)
        cases heq
      · obtain ⟨e, -, rfl⟩ := List.mem_map.mp hitem
        cases hqueues
      · cases h
  | run =>
      refine ⟨fun l => ?_, fun _ _ _ => rfl, fun h => ?_⟩
      · dsimp only [goOn]
        split <;> simp
      · cases h
  | handled =>
      dsimp only [goOn]
      split
      · exact hrelease _ _ (by simp)
      · exact hquiet _
  | onConnect | destroyFunc => exact hrelease _ _ (by simp)
  | runFunc => exact ⟨fun _ => List.not_mem_nil, fun _ _ _ => rfl, fun h => by cases h⟩
  | _ => exact hquiet _

theorem tidy_of_reachable {ok : Server → Nat × Move → Prop} (hs : Machine.Reachable Server.step ok Fresh s)
    (t : Nat) : Tidy (s.threads t) := by
  induction hs with
  | init h =>
      rw [h.threads]
      exact ⟨fun _ => List.not_mem_nil, fun _ h => absurd h List.not_mem_nil, fun _ => rfl⟩
  | @step s s' action hs hok hstep ih =>
      obtain ⟨-, o, hgoes, rfl⟩ := step_cases hstep
      by_cases hne : t = action.1
      · subst hne
        rw [threads_after_self]
        exact hgoes.tidy ih
      · rwa [threads_after_of_ne hne]

/-- Loop `l` of the server, its thread and the threads in its `QueueOneFunc` are where `r` is. The functions that `r`
has queued and run are no part of the server's state; how they grow is said by `reactions`. -/
structure Behaves (s : Server) (l : Nat) (r : Reactor Task) : Prop where
  loop : r.loop = s.loops l
  runner : r.runner = s.tid l
  pc : r.pc = (s.threads l).point
  queueing : ∀ current, r.queueing current = true ↔
    ∃ t ≤ s.threadNums, s.tid t = current ∧ .wakeup l ∈ (s.threads t).work

/-- What a step in which thread `t` goes on is for loop `l`. -/
def reactions (s : Server) (l t : Nat) (after : Thread) : List (Reactor.Action Task) :=
  (match (s.threads t).work with
    | item :: _ => item.onQueue l (s.tid t)
    | [] => []) ++ if t = l then (s.threads t).onLoop after else []

/-- What a run is for loop `l`. -/
def reactionsAlong (s : Server) (l : Nat) (actions : List (Nat × Move)) : List (Reactor.Action Task) :=
  Machine.answers Server.step (fun s action s' => s.reactions l action.1 (s'.threads action.1)) s actions

/-- A step is one half of `QueueOneFunc`, or some other work, or one of `Start`. -/
theorem Goes.kinds (h : Goes s t move o)
    (hfound : ∀ pc l c rest, s.threads t = ⟨pc, .func l (.handleCloseInLoop c) :: rest⟩ →
      s.connectionsMap (s.slots c).fd ≠ none) :
    (∃ pc l cb rest, s.threads t = ⟨pc, .queueOneFunc l cb :: rest⟩ ∧
        o = ⟨.none, ⟨pc, .wakeup l :: rest⟩, l, (s.loops l).emplaceBack cb⟩) ∨
      (∃ pc l rest, s.threads t = ⟨pc, .wakeup l :: rest⟩ ∧
        o = ⟨.none, ⟨pc, rest⟩, l, (s.loops l).wakeup (s.tid t)⟩) ∨
      (∃ pc item rest effect work, s.threads t = ⟨pc, item :: rest⟩ ∧ o = s.goOn t effect pc work ∧
        (∀ l current, item.onQueue l current = []) ∧ ∀ l, .wakeup l ∈ work → .wakeup l ∈ rest) ∨
      (s.threads t).work = [] := by
  cases h with
  | emplaceBack hthread => exact .inl ⟨_, _, _, _, hthread, rfl⟩
  | wakeup hthread => exact .inr (.inl ⟨_, _, _, hthread, rfl⟩)
  | assertFailed hthread hnone => exact absurd hnone (hfound _ _ _ _ hthread)
  | runInline hthread | runQueued hthread | erase hthread | expire hthread =>
      exact .inr (.inr (.inl ⟨_, _, _, _, _, hthread, rfl, fun _ _ => rfl, fun l hmem => by simpa using hmem⟩))
  | unregister hthread | release hthread | close hthread =>
      exact .inr (.inr (.inl ⟨_, _, _, _, _, hthread, rfl, fun _ _ => rfl, fun l hmem => hmem⟩))
  | _ hthread => exact .inr (.inr (.inr (by rw [hthread])))

section Step

variable {r : Reactor Task}

/-- From `r` the actions lead to `r'`. -/
abbrev Leads (r : Reactor Task) (actions : List (Reactor.Action Task)) (r' : Reactor Task) : Prop :=
  Machine.run Reactor.step (fun _ _ => True) r actions = some r'

theorem leads_of_step {r' : Reactor Task} {action : Reactor.Action Task} (h : r.step action = some r') :
    Leads r [action] r' := Machine.run_cons.mpr ⟨trivial, r', h, rfl⟩

theorem reactions_of_work {pc : Pc} {item : Work} {rest : List Work} {after : Thread}
    (hthread : s.threads t = ⟨pc, item :: rest⟩) : s.reactions l t after
      = item.onQueue l (s.tid t) ++ if t = l then Thread.onLoop ⟨pc, item :: rest⟩ after else [] := by
  rw [reactions, hthread]

theorem reactions_of_start {after : Thread} (hidle : (s.threads t).work = []) :
    s.reactions l t after = if t = l then (s.threads t).onLoop after else [] := by
  rw [reactions, hidle, List.nil_append]

/-- When all work in a function is done, the function returns. -/
theorem leads_of_work {pc : Pc} {item : Work} {rest : List Work} (work : List Work)
    (hpc : r.pc = Thread.point ⟨pc, item :: rest⟩) (hidle : work = [] → r.queueing r.runner = false) :
    Leads r (Thread.onLoop ⟨pc, item :: rest⟩ ⟨pc, work⟩) { r with pc := Thread.point ⟨pc, work⟩ } := by
  have hsame (h : Thread.point ⟨pc, work⟩ = r.pc) : Leads r [] { r with pc := Thread.point ⟨pc, work⟩ } := by
    rw [h]
    rfl
  cases pc with
  | funcs called rest' =>
      dsimp only [Thread.onLoop]
      by_cases hwork : work = []
      · subst hwork
        have hfunc : r.pc = .func rest' := hpc
        refine leads_of_step ?_
        simp [Reactor.step, hfunc, hidle, Thread.point]
      · rw [if_neg hwork]
        refine hsame ?_
        rw [hpc]
        simp [Thread.point, hwork]
  | _ => exact hsame hpc.symm

theorem ExactTid.tid_eq (hs : s.ExactTid) (hl : l ≤ s.threadNums) : (s.loops l).tid = s.tid l := by
  have htest := (hs l hl l hl).mpr rfl
  exact (beq_iff_eq.mp htest).symm

theorem ExactTid.injective (hs : s.ExactTid) {t' : Nat} (ht : t ≤ s.threadNums) (ht' : t' ≤ s.threadNums)
    (h : s.tid t = s.tid t') : t = t' := by
  refine (hs t ht t' ht').mp ?_
  rw [EventLoop.isInLoopThread, hs.tid_eq ht', h, beq_self_eq_true]

variable (hs : s.Behaves l r)
include hs

theorem Behaves.idle (hexact : s.ExactTid) (ht : t ≤ s.threadNums)
    (hmem : .wakeup l ∉ (s.threads t).work) : r.queueing (s.tid t) = false := by
  refine Bool.eq_false_iff.mpr fun hqueueing => hmem ?_
  obtain ⟨t', ht', htid, hmem'⟩ := (hs.queueing _).mp hqueueing
  rwa [hexact.injective ht' ht htid] at hmem'

theorem Behaves.queueing_keep (hmem : .wakeup l ∈ o.thread.work ↔ .wakeup l ∈ (s.threads t).work)
    (current : Tid) : r.queueing current = true ↔ ∃ t' ≤ (s.after t o).threadNums,
      (s.after t o).tid t' = current ∧ .wakeup l ∈ ((s.after t o).threads t').work := by
  rw [hs.queueing, threadNums_after, tid_after]
  refine exists_congr fun t' => and_congr_right fun _ => and_congr_right fun _ => ?_
  by_cases hne : t' = t
  · rw [hne, threads_after_self, hmem]
  · rw [threads_after_of_ne hne]

theorem Behaves.queueing_set (hexact : s.ExactTid) (ht : t ≤ s.threadNums) {queueing : Bool}
    (hmem : .wakeup l ∈ o.thread.work ↔ queueing = true) (current : Tid) :
    Function.update r.queueing (s.tid t) queueing current = true ↔ ∃ t' ≤ (s.after t o).threadNums,
      (s.after t o).tid t' = current ∧ .wakeup l ∈ ((s.after t o).threads t').work := by
  rw [threadNums_after, tid_after]
  by_cases hcurrent : current = s.tid t
  · subst hcurrent
    rw [Function.update_self, ← hmem]
    constructor
    · intro h
      exact ⟨t, ht, rfl, by rwa [threads_after_self]⟩
    · rintro ⟨t', ht', htid, h⟩
      rwa [hexact.injective ht' ht htid, threads_after_self] at h
  · rw [Function.update_of_ne hcurrent, hs.queueing]
    refine exists_congr fun t' => and_congr_right fun _ => and_congr_right fun htid => ?_
    have hne : t' ≠ t := by
      rintro rfl
      exact hcurrent htid.symm
    rw [threads_after_of_ne hne]

/-- A step that leaves the queue of the loop alone, and its thread where it is. -/
theorem Behaves.stutter (hloop : (s.after t o).loops l = s.loops l)
    (hmem : .wakeup l ∈ o.thread.work ↔ .wakeup l ∈ (s.threads t).work)
    (hpoint : ((s.after t o).threads l).point = (s.threads l).point) : (s.after t o).Behaves l r where
  loop := hs.loop.trans hloop.symm
  runner := by rw [tid_after]; exact hs.runner
  pc := hs.pc.trans hpoint.symm
  queueing := hs.queueing_keep hmem

/-- A step of the loop's own thread. -/
theorem Behaves.own {r' : Reactor Task} (ho : o.loop = l) (hloop : r'.loop = o.queue)
    (hrunner : r'.runner = r.runner) (hqueueing : r'.queueing = r.queueing) (hpc : r'.pc = o.thread.point)
    (hmem : .wakeup l ∈ o.thread.work ↔ .wakeup l ∈ (s.threads l).work) : (s.after l o).Behaves l r' where
  loop := by
    rw [hloop, ← ho]
    exact loops_after_self.symm
  runner := by rw [hrunner, tid_after]; exact hs.runner
  pc := by rw [hpc, threads_after_self]
  queueing := by
    rw [hqueueing]
    exact hs.queueing_keep hmem

omit hs in
theorem inside_point {pc : Pc} {item : Work} {rest : List Work} (h : pc.inside = true) :
    (Thread.point ⟨pc, item :: rest⟩).inside = true := by
  cases pc <;> first | rfl | cases h

variable (hexact : s.ExactTid) (ht : t ≤ s.threadNums) (htidy : Tidy (s.threads t))
include hexact ht htidy

/-- Work that does not touch the queue of the loop. If it is done by the loop's own thread, then the function
that does it may return. -/
theorem Behaves.work {pc : Pc} {item : Work} {rest work : List Work}
    (hthread : s.threads t = ⟨pc, item :: rest⟩) (hwork : o.thread = ⟨pc, work⟩)
    (hloop : (s.after t o).loops l = s.loops l) (hitem : item.onQueue l (s.tid t) = [])
    (hrest : .wakeup l ∈ work → .wakeup l ∈ rest) :
    ∃ r', Leads r (s.reactions l t o.thread) r' ∧ (s.after t o).Behaves l r' := by
  have hne : .wakeup l ≠ item := by
    rintro rfl
    simp [Work.onQueue] at hitem
  rw [reactions_of_work hthread, hitem, List.nil_append, hwork]
  have htail : .wakeup l ∉ rest := htidy.notMem_rest hthread
  have hout : .wakeup l ∉ (s.threads t).work := by
    rw [hthread]
    simp [hne, htail]
  have hmem : .wakeup l ∈ o.thread.work ↔ .wakeup l ∈ (s.threads t).work := by
    rw [hwork]
    exact iff_of_false (fun h => htail (hrest h)) hout
  by_cases hne : t = l
  · subst hne
    have hidle : r.queueing r.runner = false := by
      rw [hs.runner]
      exact hs.idle hexact ht hout
    rw [if_pos rfl]
    refine ⟨_, leads_of_work work (hs.pc.trans (congrArg Thread.point hthread)) fun _ => hidle, ?_, ?_, ?_, ?_⟩
    · exact hs.loop.trans hloop.symm
    · rw [tid_after]
      exact hs.runner
    · rw [threads_after_self, hwork]
    · exact hs.queueing_keep hmem
  · rw [if_neg hne]
    exact ⟨r, rfl, hs.stutter hloop hmem (by rw [threads_after_of_ne (Ne.symm hne)])⟩

/-- The first half of `QueueOneFunc` on the loop. -/
theorem Behaves.emplaceBack {pc : Pc} {cb : Task} {rest : List Work}
    (hthread : s.threads t = ⟨pc, .queueOneFunc l cb :: rest⟩) (hwork : o.thread = ⟨pc, .wakeup l :: rest⟩)
    (hloop : (s.after t o).loops l = (s.loops l).emplaceBack cb) (hl : l ≤ s.threadNums) :
    ∃ r', Leads r (s.reactions l t o.thread) r' ∧ (s.after t o).Behaves l r' := by
  have hreactions : s.reactions l t o.thread = [.emplaceBack (s.tid t) cb] := by
    rw [reactions_of_work hthread, hwork, Work.onQueue, if_pos rfl]
    cases pc <;> simp [Thread.onLoop]
  rw [hreactions]
  have htail : .wakeup l ∉ rest := htidy.notMem_rest hthread
  have hidle : r.queueing (s.tid t) = false := by
    refine hs.idle hexact ht ?_
    rw [hthread]
    simpa using htail
  have hinside : s.tid t = r.runner → r.pc.inside = true := by
    intro htid
    obtain rfl : t = l := hexact.injective ht hl (htid.trans hs.runner)
    rw [hs.pc, hthread]
    apply inside_point
    have hinside := htidy.inside (.queueOneFunc t cb) (by rw [hthread]; exact List.mem_cons_self) rfl
    rwa [hthread] at hinside
  refine ⟨_, leads_of_step (if_pos ⟨hidle, hinside⟩), ?_, ?_, ?_, ?_⟩
  · rw [hloop]
    exact congrArg (EventLoop.emplaceBack · cb) hs.loop
  · rw [tid_after]
    exact hs.runner
  · rw [hs.pc]
    by_cases hne : l = t
    · subst hne
      rw [threads_after_self, hwork, hthread]
      cases pc <;> simp [Thread.point]
    · rw [threads_after_of_ne hne]
  · exact hs.queueing_set hexact ht (by rw [hwork]; simp)

/-- The second half of `QueueOneFunc` on the loop. -/
theorem Behaves.wakeup {pc : Pc} {rest : List Work}
    (hthread : s.threads t = ⟨pc, .wakeup l :: rest⟩) (hwork : o.thread = ⟨pc, rest⟩)
    (hloop : (s.after t o).loops l = (s.loops l).wakeup (s.tid t)) :
    ∃ r', Leads r (s.reactions l t o.thread) r' ∧ (s.after t o).Behaves l r' := by
  rw [reactions_of_work hthread, hwork, Work.onQueue, if_pos rfl]
  have htail : .wakeup l ∉ rest := htidy.notMem_rest hthread
  have hqueueing : r.queueing (s.tid t) = true :=
    (hs.queueing _).mpr ⟨t, ht, rfl, by rw [hthread]; exact List.mem_cons_self⟩
  have hwrite : r.step (.wakeup (s.tid t)) = some { r with
      loop := r.loop.wakeup (s.tid t)
      queueing := Function.update r.queueing (s.tid t) false } := if_pos hqueueing
  have hmem : .wakeup l ∈ o.thread.work ↔ false = true := by
    rw [hwork]
    exact iff_of_false htail Bool.false_ne_true
  have hloop' : r.loop.wakeup (s.tid t) = (s.after t o).loops l := by
    rw [hloop]
    exact congrArg (EventLoop.wakeup · (s.tid t)) hs.loop
  have hrunner : r.runner = (s.after t o).tid l := by
    rw [tid_after]
    exact hs.runner
  by_cases hne : t = l
  · subst hne
    have hreturn := leads_of_work (r := { r with
      loop := r.loop.wakeup (s.tid t)
      queueing := Function.update r.queueing (s.tid t) false }) rest
      (hs.pc.trans (congrArg Thread.point hthread)) fun _ => by rw [hs.runner]; exact Function.update_self ..
    rw [if_pos rfl]
    refine ⟨_, Machine.run_cons.mpr ⟨trivial, _, hwrite, hreturn⟩, hloop', hrunner, ?_,
      hs.queueing_set hexact ht hmem⟩
    rw [threads_after_self, hwork]
  · rw [if_neg hne]
    refine ⟨_, leads_of_step hwrite, hloop', hrunner, ?_, hs.queueing_set hexact ht hmem⟩
    rw [threads_after_of_ne (Ne.symm hne)]
    exact hs.pc

omit hs hexact ht htidy in
theorem count_kind (ready : List Ready) :
    (ready.map Ready.kind).count .wakeup = (ready.map Ready.channel).count .wakeup := by
  induction ready with
  | nil => rfl
  | cons item ready ih => cases item <;> simp [Ready.kind, Ready.channel, ih]

omit hs hexact ht htidy in
theorem reports_kind {ready : List Ready} (hnodup : (ready.map Ready.channel).Nodup)
    (hready : ∀ item ∈ ready, s.Reports l item) : Reactor.Reports (s.loops l) (ready.map Ready.kind) := by
  refine ⟨?_, fun hmem => ?_⟩
  · rw [count_kind]
    exact List.nodup_iff_count_le_one.mp hnodup _
  · obtain ⟨item, hitem, hkind⟩ := List.mem_map.mp hmem
    cases item with
    | wakeup => exact hready _ hitem
    | accept | conn => cases hkind

omit hs hexact ht htidy in
theorem Goes.start_frame (h : Goes s t move o) (hidle : (s.threads t).work = []) :
    o.loop = t ∧ ∀ l, .wakeup l ∉ o.thread.work := by
  cases h with
  | runInline hthread | runQueued hthread | emplaceBack hthread | wakeup hthread | erase hthread
  | assertFailed hthread | unregister hthread | release hthread | expire hthread | close hthread =>
      rw [hthread] at hidle
      cases hidle
  | insert =>
      refine ⟨rfl, fun l hmem => ?_⟩
      obtain ⟨e, -, heq⟩ := List.mem_map.mp hmem
      cases heq
  | run =>
      refine ⟨rfl, fun l => ?_⟩
      dsimp only [goOn]
      split <;> simp
  | handled =>
      refine ⟨rfl, fun l => ?_⟩
      dsimp only [goOn]
      split <;> simp
  | _ => exact ⟨rfl, fun l => by simp [goOn]⟩

/-- A step of `Start`. -/
theorem Behaves.start (h : Goes s t move o) (hidle : (s.threads t).work = [])
    (hnodup : ∀ ready, move = .epollWait ready → (ready.map Ready.channel).Nodup) :
    ∃ r', Leads r (s.reactions l t o.thread) r' ∧ (s.after t o).Behaves l r' := by
  obtain ⟨ho, hout⟩ := h.start_frame hidle
  have hmem : .wakeup l ∈ o.thread.work ↔ .wakeup l ∈ (s.threads t).work := by
    rw [hidle]
    exact iff_of_false (hout l) List.not_mem_nil
  rw [reactions_of_start hidle]
  by_cases hne : l = t
  · subst hne
    have hquiet : r.queueing r.runner = false := by
      rw [hs.runner]
      exact hs.idle hexact ht (by rw [hidle]; exact List.not_mem_nil)
    have hpc := hs.pc
    rw [if_pos rfl]
    -- the step is one of the reactor, or it stays inside of a handler
    have own : ∀ r', Leads r ((s.threads l).onLoop o.thread) r' → r'.loop = o.queue → r'.runner = r.runner →
        r'.queueing = r.queueing → r'.pc = o.thread.point →
          ∃ r', Leads r ((s.threads l).onLoop o.thread) r' ∧ (s.after l o).Behaves l r' :=
      fun r' hleads hloop hrunner hqueueing hpc => ⟨r', hleads, hs.own ho hloop hrunner hqueueing hpc hmem⟩
    have stay : (s.threads l).onLoop o.thread = [] → o.queue = s.loops l →
        o.thread.point = (s.threads l).point →
          ∃ r', Leads r ((s.threads l).onLoop o.thread) r' ∧ (s.after l o).Behaves l r' :=
      fun hnone hqueue hpoint =>
        own r (by rw [hnone]; rfl) (hs.loop.trans hqueue.symm) rfl rfl (hpc.trans hpoint.symm)
    cases h with
    | runInline hthread | runQueued hthread | emplaceBack hthread | wakeup hthread | erase hthread
    | assertFailed hthread | unregister hthread | release hthread | expire hthread | close hthread =>
        rw [hthread] at hidle
        cases hidle
    | @epollWait ready hthread hready =>
        rw [hthread] at hpc own ⊢
        have hreports := reports_kind (hnodup ready rfl) hready
        rw [← hs.loop] at hreports
        have hstep : r.step (.epollWait (ready.map Ready.kind))
            = some { r with pc := .batch (ready.map Ready.kind) } := by
          simp [Reactor.step, hpc, Thread.point, hreports]
        exact own _ (leads_of_step hstep) hs.loop rfl rfl rfl
    | @handleRead rest ok hthread =>
        rw [hthread] at hpc own ⊢
        have hstep : r.step .handleEvent = some { r with
            loop := r.loop.handleRead.1
            pc := if r.loop.handleRead.2 then .batch (rest.map Ready.kind) else .aborted } := by
          simp [Reactor.step, hpc, Thread.point, Ready.kind]
        refine own _ (leads_of_step hstep) (congrArg (fun loop => loop.handleRead.1) hs.loop) rfl rfl ?_
        dsimp only
        rw [hs.loop]
        cases (s.loops l).handleRead.2 <;> rfl
    | @acceptFailed rest hthread =>
        rw [hthread] at hpc own ⊢
        have hcall : r.step .handleEvent = some { r with pc := .handler (rest.map Ready.kind) } := by
          simp [Reactor.step, hpc, Thread.point, Ready.kind]
        have hreturn : Reactor.step { r with pc := .handler (rest.map Ready.kind) } .handled
            = some { r with pc := .batch (rest.map Ready.kind) } := by
          simp [Reactor.step, hquiet]
        exact own _ (Machine.run_cons.mpr ⟨trivial, _, hcall, leads_of_step hreturn⟩) hs.loop rfl rfl rfl
    | @accept rest fd hthread =>
        rw [hthread] at hpc own ⊢
        have hcall : r.step .handleEvent = some { r with pc := .handler (rest.map Ready.kind) } := by
          simp [Reactor.step, hpc, Thread.point, Ready.kind]
        exact own _ (leads_of_step hcall) hs.loop rfl rfl rfl
    | @dispatch fd c events rest ok session hthread =>
        rw [hthread] at hpc own ⊢
        have hcall : r.step .handleEvent = some { r with pc := .handler (rest.map Ready.kind) } := by
          simp [Reactor.step, hpc, Thread.point, Ready.kind]
        exact own _ (leads_of_step hcall) hs.loop rfl rfl rfl
    | batchDone hthread =>
        rw [hthread] at hpc own ⊢
        have hstep : r.step .handleToDoList
            = some { r with loop := r.loop.setCallingFuncs true, pc := .swap } := by
          simp [Reactor.step, hpc, Thread.point]
        exact own _ (leads_of_step hstep) (congrArg (EventLoop.setCallingFuncs · true) hs.loop) rfl rfl rfl
    | construct hthread | insert hthread | establish hthread | run hthread =>
        exact stay (by rw [hthread]; rfl) rfl (by rw [hthread]; rfl)
    | @onConnect c rest ok hthread | @handled c guard rest ok hthread =>
        rw [hthread] at hpc own ⊢
        have hreturn : r.step .handled = some { r with pc := .batch (rest.map Ready.kind) } := by
          simp [Reactor.step, hpc, Thread.point, hquiet]
        exact own _ (leads_of_step hreturn) hs.loop rfl rfl rfl
    | swap hthread =>
        rw [hthread] at hpc own ⊢
        have hstep : r.step .swap = some { r with loop := r.loop.swap.1, pc := .funcs r.loop.swap.2 } := by
          simp [Reactor.step, hpc, Thread.point]
        refine own _ (leads_of_step hstep) (congrArg (fun loop => loop.swap.1) hs.loop) rfl rfl ?_
        exact congrArg (fun loop => LoopPc.funcs loop.swap.2) hs.loop
    | @runFunc called cb rest ok hthread =>
        rw [hthread] at hpc own ⊢
        have hstep : r.step .runFunc = some { r with pc := .func rest, ran := r.ran ++ [(r.runner, cb)] } := by
          simp [Reactor.step, hpc, Thread.point]
        exact own _ (leads_of_step hstep) hs.loop rfl rfl rfl
    | funcsDone hthread =>
        rw [hthread] at hpc own ⊢
        have hstep : r.step .funcsDone
            = some { r with loop := r.loop.setCallingFuncs false, pc := .epollWait } := by
          simp [Reactor.step, hpc, Thread.point]
        exact own _ (leads_of_step hstep) (congrArg (EventLoop.setCallingFuncs · false) hs.loop) rfl rfl rfl
    | destroyFunc hthread | start hthread => exact stay (by rw [hthread]; rfl) rfl (by rw [hthread]; rfl)
  · rw [if_neg (Ne.symm hne)]
    exact ⟨r, rfl, hs.stutter (loops_after_of_ne (by rw [ho]; exact hne)) hmem
      (by rw [threads_after_of_ne hne])⟩

theorem Behaves.after (h : Goes s t move o) (hl : l ≤ s.threadNums)
    (hfound : ∀ pc l c rest, s.threads t = ⟨pc, .func l (.handleCloseInLoop c) :: rest⟩ →
      s.connectionsMap (s.slots c).fd ≠ none)
    (hnodup : ∀ ready, move = .epollWait ready → (ready.map Ready.channel).Nodup) :
    ∃ r', Leads r (s.reactions l t o.thread) r' ∧ (s.after t o).Behaves l r' := by
  rcases h.kinds hfound with ⟨pc, l', cb, rest, hthread, ho⟩ | ⟨pc, l', rest, hthread, ho⟩ |
    ⟨pc, item, rest, effect, work, hthread, ho, hitem, hrest⟩ | hidle
  · by_cases hl' : l' = l
    · subst hl'
      refine hs.emplaceBack hexact ht htidy hthread (by rw [ho]) ?_ hl
      rw [ho]
      exact loops_after_self
    · have hloop : (s.after t o).loops l = s.loops l := loops_after_of_ne (by rw [ho]; exact Ne.symm hl')
      refine hs.work hexact ht htidy hthread (by rw [ho]) hloop (if_neg hl') fun hmem => ?_
      simpa [Ne.symm hl'] using hmem
  · by_cases hl' : l' = l
    · subst hl'
      refine hs.wakeup hexact ht htidy hthread (by rw [ho]) ?_
      rw [ho]
      exact loops_after_self
    · have hloop : (s.after t o).loops l = s.loops l := loops_after_of_ne (by rw [ho]; exact Ne.symm hl')
      exact hs.work hexact ht htidy hthread (by rw [ho]) hloop (if_neg hl') id
  · refine hs.work hexact ht htidy hthread (by rw [ho]; rfl) ?_ (hitem l _) (hrest l)
    by_cases hne : l = t
    · rw [ho, hne]
      exact Function.update_self ..
    · exact loops_after_of_ne (by rw [ho]; exact hne)
  · exact hs.start hexact ht htidy h hidle hnodup

end Step

theorem Fresh.behaves (hs : s.Fresh) (hexact : s.ExactTid) (hl : l ≤ s.threadNums) :
    ∃ r : Reactor Task, r.Fresh ∧ s.Behaves l r := by
  refine ⟨⟨s.loops l, s.tid l, .epollWait, fun _ => false, [], []⟩, ⟨?_, rfl, fun _ => rfl, rfl, rfl⟩,
    ⟨rfl, rfl, ?_, ?_⟩⟩
  · change s.loops l = .new (s.tid l)
    rw [hs.loops, hexact.tid_eq hl]
  · rw [hs.threads]
    rfl
  · intro current
    refine iff_of_false Bool.false_ne_true ?_
    rintro ⟨t, -, -, hmem⟩
    rw [hs.threads] at hmem
    cases hmem

theorem nodup_of_step {ready : List Ready} (h : s.step (t, .epollWait ready) = some s') :
    (ready.map Ready.channel).Nodup := by
  obtain ⟨-, o, hgoes, -⟩ := step_cases h
  obtain ⟨-, h⟩ := Option.ite_none_right_eq_some.mp h
  obtain ⟨o', h, -⟩ := Option.map_eq_some_iff.mp h
  cases hgoes with
  | epollWait hthread =>
      dsimp only at h
      unfold control at h
      rw [hthread] at h
      exact (Option.ite_none_right_eq_some.mp h).1.1

/-- The runs in which `IsInLoopThread` is exact and `epoll_ctl` succeeds. -/
abbrev Regular : Server → Prop :=
  Machine.Reachable Server.step Registers fun s => s.Fresh ∧ s.ExactTid

theorem Regular.fresh (hs : s.Regular) : Machine.Reachable Server.step Registers Fresh s :=
  hs.mono (fun _ => And.left) fun _ _ => id

theorem Regular.sound (hs : s.Regular) : s.Wired ∧ s.Homed ∧ s.Sound :=
  sound_of_reachable (fun _ _ => deregisters_of_ctlSucceeds) hs.fresh

theorem Regular.exactTid (hs : s.Regular) : s.ExactTid := by
  refine Machine.Reachable.invariant (fun _ h => h.2) (fun s action s' _ hexact _ hstep => ?_) hs
  obtain ⟨-, o, hgoes, rfl⟩ := step_cases hstep
  intro t ht l hl
  rw [threadNums_after] at ht hl
  rw [tid_after, ← hexact t ht l hl, EventLoop.isInLoopThread, EventLoop.isInLoopThread, hgoes.loop_tid]

/-- **Each step of the server is a step of the reactor**, two, or none. -/
theorem Regular.reacts (hs : s.Regular) (hl : l ≤ s.threadNums) {r : Reactor Task} (hb : s.Behaves l r)
    (hstep : s.step (t, move) = some s') :
    ∃ r', Leads r (s.reactions l t (s'.threads t)) r' ∧ s'.Behaves l r' := by
  obtain ⟨hw, -, hsound⟩ := hs.sound
  obtain ⟨ht, o, hgoes, hafter⟩ := step_cases hstep
  have hfound : ∀ pc l c rest, s.threads t = ⟨pc, .func l (.handleCloseInLoop c) :: rest⟩ →
      s.connectionsMap (s.slots c).fd ≠ none := by
    intro pc l c rest hthread
    rw [hsound.found hw ht hthread]
    nofun
  have hnodup : ∀ ready, move = .epollWait ready → (ready.map Ready.channel).Nodup := by
    rintro ready rfl
    exact nodup_of_step hstep
  subst hafter
  rw [threads_after_self]
  exact hb.after hs.exactTid ht (tidy_of_reachable hs.fresh t) hgoes hl hfound hnodup

/-- So each run of the server is a run of the reactor. -/
theorem Regular.reacts_along (hs : s.Regular) (hl : l ≤ s.threadNums) {r : Reactor Task} (hb : s.Behaves l r)
    {actions : List (Nat × Move)} (hrun : Machine.run Server.step Registers s actions = some s') :
    ∃ r', Leads r (s.reactionsAlong l actions) r' ∧ s'.Behaves l r' := by
  have hreacts : ∀ (s : Server) (action : Nat × Move) (s' : Server) (r : Reactor Task),
      s.Regular ∧ l ≤ s.threadNums → s.Behaves l r → Registers s action → s.step action = some s' →
      (s'.Regular ∧ l ≤ s'.threadNums) ∧
        ∃ r', Leads r (s.reactions l action.1 (s'.threads action.1)) r' ∧ s'.Behaves l r' := by
    rintro s ⟨t, move⟩ s' r ⟨hs, hl⟩ hb hok hstep
    refine ⟨⟨.step hs hok hstep, ?_⟩, hs.reacts hl hb hstep⟩
    obtain ⟨-, o, -, rfl⟩ := step_cases hstep
    rwa [threadNums_after]
  exact Machine.run_simulates hreacts ⟨hs, hl⟩ hb hrun

theorem exists_behaves (hs : s.Regular) (hl : l ≤ s.threadNums) :
    ∃ r : Reactor Task, Machine.Reachable Reactor.step (fun _ _ => True) Reactor.Fresh r ∧ s.Behaves l r := by
  suffices h : ∃ r, Machine.Reachable Reactor.step (fun _ _ => True) Reactor.Fresh r ∧
      (l ≤ s.threadNums → s.Behaves l r) by
    obtain ⟨r, hr, hbehaves⟩ := h
    exact ⟨r, hr, hbehaves hl⟩
  refine Machine.Reachable.simulate (R := fun s r => l ≤ s.threadNums → s.Behaves l r) ?_ ?_ hs
  · rintro s ⟨hfresh, hexact⟩
    by_cases hl : l ≤ s.threadNums
    · obtain ⟨r, hr, hbehaves⟩ := hfresh.behaves hexact hl
      exact ⟨r, hr, fun _ => hbehaves⟩
    · exact ⟨⟨.new 0, 0, .epollWait, fun _ => false, [], []⟩, ⟨rfl, rfl, fun _ => rfl, rfl, rfl⟩,
        fun h => absurd h hl⟩
  · rintro s ⟨t, move⟩ s' r (hs : s.Regular) - hstep - hbehaves
    have hnums : s'.threadNums = s.threadNums := by
      obtain ⟨-, o, -, rfl⟩ := step_cases hstep
      exact threadNums_after
    by_cases hl : l ≤ s.threadNums
    · obtain ⟨r', hleads, hafter⟩ := hs.reacts hl (hbehaves hl) hstep
      exact ⟨r', .run (.init rfl) hleads, fun _ => hafter⟩
    · exact ⟨r, .init rfl, fun h => absurd (hnums ▸ h) hl⟩

theorem Behaves.awake {r : Reactor Task} (hb : s.Behaves l r) (hs : r.Sound)
    (hpc : (s.threads l).pc = .epollWait) (hwork : (s.threads l).work = [])
    (hqueued : (s.loops l).toDoList ≠ []) :
    0 < (s.loops l).wakeupEvent ∨ ∃ t ≤ s.threadNums, t ≠ l ∧ .wakeup l ∈ (s.threads t).work := by
  rw [← hb.loop] at hqueued ⊢
  rcases hs.awake hqueued with h | h | ⟨current, hcurrent⟩
  · rw [hb.pc, Thread.point, hpc] at h
    cases h
  · exact .inl h
  · obtain ⟨t, ht, -, hmem⟩ := (hb.queueing current).mp hcurrent
    refine .inr ⟨t, ht, ?_, hmem⟩
    rintro rfl
    rw [hwork] at hmem
    cases hmem

/-- **Each loop of the server is a reactor.** Where `IsInLoopThread` is exact and `epoll_ctl` succeeds, each of its
states belongs to one of the reactor, and each step of the server is the reactor's `reactions`, which say what
is put into the queue and when the next function is called; so each run is a run of the reactor. Hence no assert of
the server fails, and no loop waits while a function is in its queue, unless its eventfd is set or another thread
is about to set it. -/
theorem loop_is_reactor (hs : s.Regular) (hl : l ≤ s.threadNums) :
    (∃ r : Reactor Task, Machine.Reachable Reactor.step (fun _ _ => True) Reactor.Fresh r ∧ s.Behaves l r) ∧
      (∀ r, s.Behaves l r → ∀ t move s', s.step (t, move) = some s' →
        ∃ r', Machine.run Reactor.step (fun _ _ => True) r (s.reactions l t (s'.threads t)) = some r' ∧
          s'.Behaves l r') ∧
      (∀ r, s.Behaves l r → ∀ actions s', Machine.run Server.step Registers s actions = some s' →
        ∃ r', Machine.run Reactor.step (fun _ _ => True) r (s.reactionsAlong l actions) = some r' ∧
          s'.Behaves l r') ∧
      (s.threads l).pc ≠ .aborted ∧
      ((s.threads l).pc = .epollWait → (s.loops l).toDoList ≠ [] →
        0 < (s.loops l).wakeupEvent ∨ ∃ t ≤ s.threadNums, t ≠ l ∧ .wakeup l ∈ (s.threads t).work) := by
  obtain ⟨r, hr, hbehaves⟩ := exists_behaves hs hl
  have hsound := Reactor.sound_of_reachable hr
  have htidy := tidy_of_reachable hs.fresh l
  refine ⟨⟨r, hr, hbehaves⟩, fun _ hb _ _ _ hstep => hs.reacts hl hb hstep,
    fun _ hb _ _ hrun => hs.reacts_along hl hb hrun, fun hpc => ?_, fun hpc hqueued => ?_⟩
  · refine hsound.running ?_
    rw [hbehaves.pc, Thread.point, hpc]
  · exact hbehaves.awake hsound hpc (htidy.waiting hpc) hqueued

/-- A connection of a sub reactor ends while the main reactor waits. -/
def closing : List (Nat × Move) :=
  [(0, .epollWait [.accept]), (0, .accept (some 7)), (0, .construct .invalid false true)] ++
    List.replicate 11 (0, .next true) ++
    [(1, .epollWait [.conn 7 0 { EpollEvents.none with epollin := true }]), (1, .next true),
      (1, .run .tau), (1, .run (.read 8 (.data []))), (1, .run .tau), (1, .run .onClose), (1, .next true),
      (1, .next true)]

theorem loop_is_reactor_closing : ∃ s : Server, s.Regular ∧ (s.loops 0).toDoList = [.handleCloseInLoop 0] ∧
    (0 < (s.loops 0).wakeupEvent ∨ ∃ t ≤ s.threadNums, t ≠ 0 ∧ .wakeup 0 ∈ (s.threads t).work) := by
  have hview : (Machine.run Server.step Registers (start 1 id id) closing).map
      (fun s => ((s.loops 0).toDoList, (s.threads 0).pc)) = some ([.handleCloseInLoop 0], .epollWait) := by
    decide +kernel
  obtain ⟨s, hrun, hend⟩ := Option.map_eq_some_iff.mp hview
  obtain ⟨hqueued, hpc⟩ := Prod.mk.inj hend
  have hs : s.Regular := .run (.init ⟨fresh_start 1 id id, exactTid_start 1⟩) hrun
  obtain ⟨-, -, -, -, hawake⟩ := loop_is_reactor hs (Nat.zero_le _)
  exact ⟨s, hs, hqueued, hawake hpc (by rw [hqueued]; nofun)⟩

end Server

end EpollServer
