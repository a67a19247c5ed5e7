import EpollServer.Proof.Wired

/-!
# On which thread a function runs

A bound function is destined for one loop: `HandleCloseInLoop` for the main reactor's, which owns
`connectionsMap`, and `ConnectionDestructor` for the one of its connection. `RunOneFunc` calls a function at
once if the caller's id is the `tid_` of the loop. The constructor does not set `tid_`, so this is the
loop's own thread only if no other thread happens to have the id that the main reactor's loop holds.
-/

namespace EpollServer

/-- The functions in the local vector of `HandleToDoList`, called or not. -/
def Pc.tasks : Pc → List Task
  | .funcs called rest => called ++ rest
  | _ => []

/-- The functions that `HandleToDoList` has called. -/
def Pc.called : Pc → List Task
  | .funcs called _ => called
  | _ => []

namespace Server

variable {s s' : Server} {t : Nat} {move : Move} {o : Outcome}

/-- The id that the main reactor's loop holds is not the one of another thread. -/
def MainTid (s : Server) : Prop := ∀ t ≤ s.threadNums, s.tid t = (s.loops 0).tid → t = 0

/-- The loop that a function is given to. -/
def home (s : Server) : Task → Nat
  | .handleCloseInLoop _ => 0
  | .connectionDestructor c => (s.slots c).eventLoop

/-- A function is with loop `l`, where it belongs. -/
structure Destined (s : Server) (l : Nat) (cb : Task) : Prop where
  constructed : (s.slots cb.conn).stage ≠ .construct
  home : s.home cb = l

/-- What thread `t` may have to do. A function that is called is one that `HandleToDoList` holds, or
`HandleCloseInLoop` at once. -/
def Permits (s : Server) (t : Nat) (called : List Task) : Work → Prop
  | .runOneFunc l cb => s.Destined l cb ∧ cb = .handleCloseInLoop cb.conn
  | .queueOneFunc l cb => s.Destined l cb
  | .wakeup l => l ≤ s.threadNums
  | .func l cb => l = t ∧ s.Destined l cb ∧ (cb = .handleCloseInLoop cb.conn ∨ cb ∈ called)
  | .release _ | .destructor _ => True

/-- Every function is where it belongs. -/
structure Placed (s : Server) : Prop where
  mainTid : s.MainTid
  queued : ∀ l, ∀ cb ∈ (s.loops l).toDoList, s.Destined l cb
  tasks : ∀ t, ∀ cb ∈ (s.threads t).pc.tasks, s.Destined t cb
  work : ∀ t, ∀ item ∈ (s.threads t).work, s.Permits t (s.threads t).pc.called item

/-- What is left of `Permits` if ids clash: `HandleCloseInLoop` may be called by any thread. -/
def Allows (s : Server) (t : Nat) (called : List Task) : Work → Prop
  | .func l cb => s.Destined l cb ∧ (cb = .handleCloseInLoop cb.conn ∨ l = t ∧ cb ∈ called)
  | item => s.Permits t called item

/-- What is left of `Placed` if ids clash. -/
structure Homed (s : Server) : Prop where
  queued : ∀ l, ∀ cb ∈ (s.loops l).toDoList, s.Destined l cb
  tasks : ∀ t, ∀ cb ∈ (s.threads t).pc.tasks, s.Destined t cb
  work : ∀ t, ∀ item ∈ (s.threads t).work, s.Allows t (s.threads t).pc.called item

theorem permits_iff {called : List Task} {item : Work} : s.Permits t called item ↔
    s.Allows t called item ∧ ∀ l cb, item = .func l cb → l = t := by
  cases item with
  | func l cb =>
      constructor
      · rintro ⟨hl, hdestined, hor⟩
        refine ⟨⟨hdestined, hor.imp_right fun hmem => ⟨hl, hmem⟩⟩, ?_⟩
        rintro _ _ ⟨⟩
        exact hl
      · rintro ⟨⟨hdestined, hor⟩, hl⟩
        exact ⟨hl l cb rfl, hdestined, hor.imp_right And.right⟩
  | _ => exact ⟨fun h => ⟨h, by simp⟩, And.left⟩

theorem Placed.homed (hplaced : s.Placed) : s.Homed where
  queued := hplaced.queued
  tasks := hplaced.tasks
  work t item hitem := (permits_iff.mp (hplaced.work t item hitem)).1

theorem Fresh.homed (hs : s.Fresh) : s.Homed where
  queued l cb h := by
    rw [hs.loops] at h
    cases h
  tasks t cb h := by
    rw [hs.threads] at h
    cases h
  work t item h := by
    rw [hs.threads] at h
    cases h

theorem Fresh.placed (hs : s.Fresh) (htid : s.MainTid) : s.Placed where
  mainTid := htid
  queued := hs.homed.queued
  tasks := hs.homed.tasks
  work t item h := by
    rw [hs.threads] at h
    cases h

theorem Wired.home_le (hs : s.Wired) (cb : Task) : s.home cb ≤ s.threadNums := by
  cases cb with
  | handleCloseInLoop => exact Nat.zero_le _
  | connectionDestructor c => exact hs.loop_le c

theorem Destined.le {l : Nat} {cb : Task} (h : s.Destined l cb) (hs : s.Wired) : l ≤ s.threadNums :=
  h.home ▸ hs.home_le cb

theorem Goes.loop_le (h : Goes s t move o) (hs : s.Wired) (hhomed : s.Homed) (ht : t ≤ s.threadNums) :
    o.loop ≤ s.threadNums := by
  cases h with
  | @emplaceBack pc l cb rest ok hthread =>
      have hitem := hhomed.work t (.queueOneFunc l cb) (by rw [hthread]; exact List.mem_cons_self)
      exact Destined.le hitem hs
  | @wakeup pc l rest ok hthread =>
      exact hhomed.work t (.wakeup l) (by rw [hthread]; exact List.mem_cons_self)
  | _ => exact ht

section Local

variable (h : Goes s t move o)
include h

theorem Goes.loop_tid (l : Nat) : ((s.after t o).loops l).tid = (s.loops l).tid := by
  have hqueue : o.queue.tid = (s.loops o.loop).tid := by
    cases h with
    | wakeup => exact EventLoop.tid_wakeup _ _
    | handleRead => exact EventLoop.tid_handleRead _
    | _ => rfl
  by_cases hl : l = o.loop
  · rw [hl, loops_after_self, hqueue]
  · rw [loops_after_of_ne hl]

theorem Goes.queued {l : Nat} {cb : Task} (hcb : cb ∈ ((s.after t o).loops l).toDoList) :
    cb ∈ (s.loops l).toDoList ∨ .queueOneFunc l cb ∈ (s.threads t).work := by
  by_cases hl : l = o.loop
  · subst hl
    rw [loops_after_self] at hcb
    cases h with
    | emplaceBack hthread =>
        rw [hthread]
        rcases List.mem_append.mp hcb with hcb | hcb
        · exact .inl hcb
        · obtain rfl := List.mem_singleton.mp hcb
          exact .inr List.mem_cons_self
    | wakeup => exact .inl (by simpa using hcb)
    | handleRead => exact .inl (by simpa using hcb)
    | swap => cases hcb
    | _ => exact .inl hcb
  · rw [loops_after_of_ne hl] at hcb
    exact .inl hcb

/-- What `HandleToDoList` holds it held before, or it was taken by the swap. -/
theorem Goes.tasks {cb : Task} (hcb : cb ∈ o.thread.pc.tasks) :
    cb ∈ (s.threads t).pc.tasks ∨ cb ∈ (s.loops t).toDoList := by
  cases h with
  | handleRead =>
      dsimp only at hcb
      split at hcb <;> cases hcb
  | swap => exact .inr hcb
  | runFunc hthread =>
      rw [hthread]
      exact .inl (by simpa [goOn, Pc.tasks] using hcb)
  | _ hthread =>
      rw [hthread]
      first
        | exact .inl hcb
        | cases hcb

end Local

section Step

variable (hs : s.Wired) (hhomed : s.Homed) (h : Goes s t move o)
include hs h

theorem Goes.destined {l : Nat} {cb : Task} (hcb : s.Destined l cb) : (s.after t o).Destined l cb := by
  refine ⟨h.constructed hs hcb.constructed, ?_⟩
  rw [← hcb.home]
  cases cb with
  | handleCloseInLoop => rfl
  | connectionDestructor c => exact (h.fixed hs hcb.constructed).2

theorem Goes.allows {t' : Nat} {called : List Task} {item : Work} (hitem : s.Allows t' called item) :
    (s.after t o).Allows t' called item := by
  cases item with
  | runOneFunc l cb => exact ⟨h.destined hs hitem.1, hitem.2⟩
  | queueOneFunc l cb => exact h.destined hs hitem
  | wakeup l =>
      change l ≤ (s.after t o).threadNums
      rw [threadNums_after]
      exact hitem
  | func l cb => exact ⟨h.destined hs hitem.1, hitem.2⟩
  | release | destructor => trivial

include hhomed

theorem Goes.work {item : Work} (hitem : item ∈ o.thread.work) : s.Allows t o.thread.pc.called item := by
  have hhead {pc : Pc} {item : Work} {rest : List Work} (hthread : s.threads t = ⟨pc, item :: rest⟩) :
      s.Allows t pc.called item := by
    have hallows := hhomed.work t item (by rw [hthread]; exact List.mem_cons_self)
    rwa [hthread] at hallows
  have hrest {pc : Pc} {a : Work} {rest : List Work} (hthread : s.threads t = ⟨pc, a :: rest⟩)
      {item : Work} (hitem : item ∈ rest) : s.Allows t pc.called item := by
    have hallows := hhomed.work t item (by rw [hthread]; exact List.mem_cons_of_mem a hitem)
    rwa [hthread] at hallows
  cases h with
  | runInline hthread =>
      rcases List.mem_cons.mp hitem with rfl | hitem
      · exact ⟨(hhead hthread).1, .inl (hhead hthread).2⟩
      · rcases List.mem_cons.mp hitem with rfl | hitem
        · trivial
        · exact hrest hthread hitem
  | runQueued hthread =>
      rcases List.mem_cons.mp hitem with rfl | hitem
      · exact (hhead hthread).1
      · rcases List.mem_cons.mp hitem with rfl | hitem
        · trivial
        · exact hrest hthread hitem
  | @emplaceBack pc l cb rest ok hthread =>
      rcases List.mem_cons.mp hitem with rfl | hitem
      · have hdestined : s.Destined l cb := hhead hthread
        exact hdestined.le hs
      · exact hrest hthread hitem
  | erase hthread =>
      rcases List.mem_cons.mp hitem with rfl | hitem
      · trivial
      · rcases List.mem_cons.mp hitem with rfl | hitem
        · exact ⟨(hhead hthread).1.constructed, rfl⟩
        · exact hrest hthread hitem
  | expire hthread =>
      rcases List.mem_cons.mp hitem with rfl | hitem
      · trivial
      · exact hrest hthread hitem
  | wakeup hthread | unregister hthread | release hthread | close hthread =>
      exact hrest hthread hitem
  | insert hthread =>
      obtain ⟨e, -, rfl⟩ := List.mem_map.mp hitem
      trivial
  | onConnect | destroyFunc =>
      obtain rfl := List.mem_singleton.mp hitem
      trivial
  | @run c guard rest label session hthread =>
      simp only [goOn] at hitem
      split at hitem
      · rcases List.mem_cons.mp hitem with rfl | hitem
        · have hbelongs := hs.handling t c guard rest (by rw [hthread])
          exact ⟨⟨hbelongs.constructed, rfl⟩, rfl⟩
        · obtain rfl := List.mem_singleton.mp hitem
          trivial
      · cases hitem
  | handled =>
      simp only [goOn] at hitem
      split at hitem
      · obtain rfl := List.mem_singleton.mp hitem
        trivial
      · cases hitem
  | @runFunc called cb rest ok hthread =>
      obtain rfl := List.mem_singleton.mp hitem
      have hdestined := hhomed.tasks t cb (by rw [hthread]; exact List.mem_append_right _ List.mem_cons_self)
      exact ⟨hdestined, .inr ⟨rfl, List.mem_append_right called (List.mem_singleton.mpr rfl)⟩⟩
  | _ => cases hitem

theorem Homed.after : (s.after t o).Homed where
  queued l cb hcb := by
    apply h.destined hs
    rcases h.queued hcb with hcb | hitem
    · exact hhomed.queued l cb hcb
    · exact hhomed.work t _ hitem
  tasks t' cb hcb := by
    apply h.destined hs
    by_cases hne : t' = t
    · subst hne
      rw [threads_after_self] at hcb
      rcases h.tasks hcb with hcb | hcb
      · exact hhomed.tasks t' cb hcb
      · exact hhomed.queued t' cb hcb
    · rw [threads_after_of_ne hne] at hcb
      exact hhomed.tasks t' cb hcb
  work t' item hitem := by
    apply h.allows hs
    by_cases hne : t' = t
    · subst hne
      rw [threads_after_self] at hitem ⊢
      exact h.work hs hhomed hitem
    · rw [threads_after_of_ne hne] at hitem ⊢
      exact hhomed.work t' item hitem

omit hs hhomed in
theorem Goes.func_loop (hplaced : s.Placed) (ht : t ≤ s.threadNums) {l : Nat} {cb : Task}
    (hitem : .func l cb ∈ o.thread.work) : l = t := by
  have hrest {pc : Pc} {a : Work} {rest : List Work} (hthread : s.threads t = ⟨pc, a :: rest⟩)
      (hmem : .func l cb ∈ rest) : l = t := by
    have hpermits := hplaced.work t (.func l cb) (by rw [hthread]; exact List.mem_cons_of_mem a hmem)
    exact hpermits.1
  cases h with
  | @runInline pc l' cb' rest ok hthread hin =>
      obtain ⟨hdestined, htask⟩ := hplaced.work t (.runOneFunc l' cb')
        (by rw [hthread]; exact List.mem_cons_self)
      obtain rfl : 0 = l' := by
        rw [htask] at hdestined
        exact hdestined.home
      have htid : t = 0 := hplaced.mainTid t ht (by simpa [EventLoop.isInLoopThread] using hin)
      rcases List.mem_cons.mp hitem with heq | hitem
      · cases heq
        exact htid.symm
      · exact hrest hthread (by simpa using hitem)
  | runQueued hthread | emplaceBack hthread | wakeup hthread | erase hthread | unregister hthread
  | release hthread | expire hthread | close hthread =>
      exact hrest hthread (by simpa [goOn] using hitem)
  | runFunc =>
      cases List.mem_singleton.mp hitem
      rfl
  | insert =>
      obtain ⟨e, -, heq⟩ := List.mem_map.mp hitem
      cases heq
  | run | handled =>
      simp only [goOn] at hitem
      split at hitem <;> simp at hitem
  | onConnect | destroyFunc => cases List.mem_singleton.mp hitem
  | _ => cases hitem

omit hhomed in
theorem Placed.after (hplaced : s.Placed) (ht : t ≤ s.threadNums) : (s.after t o).Placed where
  mainTid := by
    intro t' ht'
    rw [tid_after, h.loop_tid]
    rw [threadNums_after] at ht'
    exact hplaced.mainTid t' ht'
  queued := (hplaced.homed.after hs h).queued
  tasks := (hplaced.homed.after hs h).tasks
  work t' item hitem := by
    refine permits_iff.mpr ⟨(hplaced.homed.after hs h).work t' item hitem, ?_⟩
    rintro l cb rfl
    by_cases hne : t' = t
    · subst hne
      rw [threads_after_self] at hitem
      exact h.func_loop hplaced ht hitem
    · rw [threads_after_of_ne hne] at hitem
      exact (hplaced.work t' _ hitem).1

end Step

theorem placed_of_reachable {ok : Server → Nat × Move → Prop}
    (hs : Machine.Reachable Server.step ok (fun s => s.Fresh ∧ s.MainTid) s) : s.Wired ∧ s.Placed := by
  induction hs with
  | init h => exact ⟨h.1.wired, h.1.placed h.2⟩
  | step hs hok hstep ih =>
      obtain ⟨ht, o, hgoes, rfl⟩ := step_cases hstep
      exact ⟨ih.1.after hgoes, ih.2.after ih.1 hgoes ht⟩

/-- What an event says about threads: functions are called by the thread of their loop, and
`connectionsMap` is used by the main reactor's thread. -/
def InPlace : Nat × Event → Prop
  | (t, .func l _) => t = l
  | (t, .connectionsMap) => t = 0
  | _ => True

theorem Placed.inPlace (hs : s.Wired) (hplaced : s.Placed) {event : Event} (h : s.Shows t event) :
    InPlace (t, event) := by
  have hfunc {pc : Pc} {l : Nat} {cb : Task} {rest : List Work}
      (hthread : s.threads t = ⟨pc, .func l cb :: rest⟩) : l = t ∧ s.Destined l cb := by
    have hitem := hplaced.work t (.func l cb) (by rw [hthread]; exact List.mem_cons_self)
    exact ⟨hitem.1, hitem.2.1⟩
  cases event with
  | func l cb =>
      obtain ⟨pc, rest, hthread⟩ := h
      exact (hfunc hthread).1.symm
  | connectionsMap =>
      rcases h with ⟨pc, l, c, rest, hthread⟩ | ⟨c, rest, hthread⟩
      · obtain ⟨hl, hdestined⟩ := hfunc hthread
        exact hl.symm.trans hdestined.home.symm
      · exact (hs.setsUp t c (by rw [hthread]; rfl)).1
  | _ => trivial

/-- **Thread confinement.** If the id that the main reactor's loop holds is not the one of another thread,
then every function is called by the thread of the loop that it was given to, and every lookup, insertion
and erasure of `connectionsMap` is made by the main reactor's thread. -/
theorem confined (hs : Machine.Reachable Server.step (fun _ _ => True) (fun s => s.Fresh ∧ s.MainTid) s) :
    ∀ entry ∈ s.trace, InPlace entry := by
  induction hs with
  | init h =>
      rw [h.1.trace]
      exact fun entry h => absurd h List.not_mem_nil
  | step hs hok hstep ih =>
      obtain ⟨-, o, hgoes, rfl⟩ := step_cases hstep
      obtain ⟨hwired, hplaced⟩ := placed_of_reachable hs
      obtain ⟨events, htrace, hevents⟩ := hgoes.trace
      rw [htrace]
      refine List.forall_mem_append.mpr ⟨ih, fun ⟨t', event⟩ hmem => ?_⟩
      obtain ⟨rfl, hshows⟩ := hevents _ hmem
      exact hplaced.inPlace hwired hshows

/-- A sub reactor's connection ends, and `HandleCloseInLoop` waits for the main reactor. -/
theorem confined_queued : ∃ s : Server,
    Machine.Reachable Server.step (fun _ _ => True) (fun s => s.Fresh ∧ s.MainTid) s ∧
      (0, .func 0 (.handleCloseInLoop 0)) ∈ s.trace ∧ ∀ entry ∈ s.trace, InPlace entry := by
  have hfresh := fresh_start 1 id id
  have htid : (start 1 id id).MainTid := fun t _ h => h
  obtain ⟨s, hrun, htrace⟩ : ∃ s, Machine.run Server.step (fun _ _ => True) (start 1 id id)
      [(0, .epollWait [.accept]), (0, .accept (some 7)), (0, .construct .invalid false true),
        (0, .next true), (0, .next true), (0, .next true), (0, .next true), (0, .next true),
        (0, .next true), (0, .next true),
        (1, .epollWait [.conn 7 0 { EpollEvents.none with epollin := true }]), (1, .next true),
        (1, .run .tau), (1, .run (.read 8 (.data []))), (1, .run .tau), (1, .run .onClose),
        (1, .next true), (1, .next true), (0, .next true), (0, .next true), (0, .next true),
        (0, .next true)] = some s ∧
      s.trace = [(0, .connectionsMap), (0, .onConnect 0), (1, .onClose 0),
        (0, .func 0 (.handleCloseInLoop 0)), (0, .connectionsMap)] := ⟨_, rfl, rfl⟩
  have hs : Machine.Reachable Server.step (fun _ _ => True) (fun s => s.Fresh ∧ s.MainTid) s :=
    .run (.init ⟨hfresh, htid⟩) hrun
  exact ⟨s, hs, by rw [htrace]; simp, confined hs⟩

/-- The `tid_` of the main reactor's loop happens to be the id of a sub reactor's thread, which then runs
`HandleCloseInLoop` itself. -/
theorem unconfined : ¬∀ s : Server, Machine.Reachable Server.step (fun _ _ => True) Fresh s →
    ∀ entry ∈ s.trace, InPlace entry := by
  intro h
  obtain ⟨s, hrun, htrace⟩ : ∃ s, Machine.run Server.step (fun _ _ => True) (start 1 id fun _ => 1)
      [(0, .epollWait [.accept]), (0, .accept (some 7)), (0, .construct .invalid false true),
        (0, .next true), (0, .next true), (0, .next true), (0, .next true), (0, .next true),
        (0, .next true), (0, .next true),
        (1, .epollWait [.conn 7 0 { EpollEvents.none with epollin := true }]), (1, .next true),
        (1, .run .tau), (1, .run (.read 8 (.data []))), (1, .run .tau), (1, .run .onClose),
        (1, .next true), (1, .next true)] = some s ∧
      s.trace = [(0, .connectionsMap), (0, .onConnect 0), (1, .onClose 0),
        (1, .func 0 (.handleCloseInLoop 0)), (1, .connectionsMap)] := ⟨_, rfl, rfl⟩
  have hs := Machine.Reachable.run (.init (fresh_start 1 id fun _ => 1)) hrun
  have hplace : InPlace (1, .connectionsMap) := h s hs _ (by rw [htrace]; simp)
  exact absurd (show 1 = 0 from hplace) (by decide)

end Server

end EpollServer
