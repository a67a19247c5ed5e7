import EpollServer.Lib.Tally
import EpollServer.Server
import Mathlib.Algebra.Order.BigOperators.Group.Finset

/-!
# What a thread can do next

`Server.Goes` lists the steps of a thread, one case for each kind. The results below say what a step does
to each part of the state, so that no invariant has to look into the step function again.
-/

namespace EpollServer

namespace Server

variable {s s' : Server} {t : Nat} {move : Move} {o : Outcome}

/-- The steps of thread `t`. -/
inductive Goes (s : Server) (t : Nat) : Move → Outcome → Prop
  | runInline {pc l cb rest ok} (hthread : s.threads t = ⟨pc, .runOneFunc l cb :: rest⟩)
      (hin : (s.loops l).isInLoopThread (s.tid t) = true) :
      Goes s t (.next ok) (s.goOn t .none pc (.func l cb :: .release cb.conn :: rest))
  | runQueued {pc l cb rest ok} (hthread : s.threads t = ⟨pc, .runOneFunc l cb :: rest⟩) :
      Goes s t (.next ok) (s.goOn t (.copy cb.conn) pc (.queueOneFunc l cb :: .release cb.conn :: rest))
  | emplaceBack {pc l cb rest ok} (hthread : s.threads t = ⟨pc, .queueOneFunc l cb :: rest⟩) :
      Goes s t (.next ok) ⟨.none, ⟨pc, .wakeup l :: rest⟩, l, (s.loops l).emplaceBack cb⟩
  | wakeup {pc l rest ok} (hthread : s.threads t = ⟨pc, .wakeup l :: rest⟩) :
      Goes s t (.next ok) ⟨.none, ⟨pc, rest⟩, l, (s.loops l).wakeup (s.tid t)⟩
  | erase {pc l c e rest ok} (hthread : s.threads t = ⟨pc, .func l (.handleCloseInLoop c) :: rest⟩)
      (hfound : s.connectionsMap (s.slots c).fd = some e) :
      Goes s t (.next ok) (s.goOn t (.handleCloseInLoop l c) pc
        (.release e :: .queueOneFunc (s.slots c).eventLoop (.connectionDestructor c) :: rest))
  | assertFailed {pc l c rest ok} (hthread : s.threads t = ⟨pc, .func l (.handleCloseInLoop c) :: rest⟩)
      (hnone : s.connectionsMap (s.slots c).fd = none) :
      Goes s t (.next ok) (s.goOn t (.handleCloseInLoop l c) .aborted [])
  | unregister {pc l c rest ok}
      (hthread : s.threads t = ⟨pc, .func l (.connectionDestructor c) :: rest⟩) :
      Goes s t (.next ok) (s.goOn t (.connectionDestructor l c ok) pc rest)
  | release {pc c rest ok} (hthread : s.threads t = ⟨pc, .release c :: rest⟩)
      (howned : (s.setThread t ⟨pc, rest⟩).Owned c) : Goes s t (.next ok) (s.goOn t (.drop c) pc rest)
  | expire {pc c rest ok} (hthread : s.threads t = ⟨pc, .release c :: rest⟩)
      (hlast : ¬(s.setThread t ⟨pc, rest⟩).Owned c) :
      Goes s t (.next ok) (s.goOn t (.expire c) pc (.destructor c :: rest))
  | close {pc c rest ok} (hthread : s.threads t = ⟨pc, .destructor c :: rest⟩) :
      Goes s t (.next ok) (s.goOn t (.close c) pc rest)
  | epollWait {ready} (hthread : s.threads t = ⟨.epollWait, []⟩)
      (hready : ∀ item ∈ ready, s.Reports t item) :
      Goes s t (.epollWait ready) (s.goOn t .none (.batch ready) [])
  | handleRead {rest ok} (hthread : s.threads t = ⟨.batch (.wakeup :: rest), []⟩) :
      Goes s t (.next ok) ⟨.none, ⟨if (s.loops t).handleRead.2 then .batch rest else .aborted, []⟩, t,
        (s.loops t).handleRead.1⟩
  | acceptFailed {rest} (hthread : s.threads t = ⟨.batch (.accept :: rest), []⟩) :
      Goes s t (.accept none) (s.goOn t .none (.batch rest) [])
  | accept {rest fd} (hthread : s.threads t = ⟨.batch (.accept :: rest), []⟩) (hfree : s.files fd = none) :
      Goes s t (.accept (some fd)) (s.goOn t (.accept fd) (.accepted s.accepted fd rest) [])
  | dispatch {fd c events rest ok session}
      (hthread : s.threads t = ⟨.batch (.conn fd c events :: rest), []⟩)
      (hstep : (s.slots c).session.step (.event events) = some session) :
      Goes s t (.next ok) (s.goOn t (.session c (.event events) session)
        (.handleEvent c ((s.slots c).session.conn.channel.tied && (s.slots c).lock) rest) [])
  | batchDone {ok} (hthread : s.threads t = ⟨.batch [], []⟩) :
      Goes s t (.next ok) ⟨.none, ⟨.swap, []⟩, t, (s.loops t).setCallingFuncs true⟩
  | construct {c fd rest state tied ok} (hthread : s.threads t = ⟨.accepted c fd rest, []⟩) :
      Goes s t (.construct state tied ok)
        (s.goOn t (.construct c fd state tied ok) (.newConnection c rest) [])
  | insert {c rest ok} (hthread : s.threads t = ⟨.newConnection c rest, []⟩)
      (hstage : (s.slots c).stage = .insert) :
      Goes s t (.next ok) (s.goOn t (.establish c ok) (.newConnection c rest)
        ((s.connectionsMap (s.slots c).fd).toList.map .release))
  | onConnect {c rest ok} (hthread : s.threads t = ⟨.newConnection c rest, []⟩)
      (hstage : (s.slots c).stage = .onConnect) :
      Goes s t (.next ok) (s.goOn t (.establish c ok) (.batch rest) [.release c])
  | establish {c rest ok} (hthread : s.threads t = ⟨.newConnection c rest, []⟩)
      (hconstructed : (s.slots c).stage ≠ .construct) (hinsert : (s.slots c).stage ≠ .insert)
      (hbefore : (s.slots c).stage.index < Stage.onConnect.index) :
      Goes s t (.next ok) (s.goOn t (.establish c ok) (.newConnection c rest) [])
  | run {c guard rest label session} (hthread : s.threads t = ⟨.handleEvent c guard rest, []⟩)
      (hbusy : (s.slots c).session.stack ≠ [])
      (hstep : (s.slots c).session.step label = some session) :
      Goes s t (.run label) (s.goOn t (.session c label session) (.handleEvent c guard rest)
        (if label = .onClose then [.runOneFunc 0 (.handleCloseInLoop c), .release c] else []))
  | handled {c guard rest ok} (hthread : s.threads t = ⟨.handleEvent c guard rest, []⟩)
      (hidle : (s.slots c).session.stack = []) :
      Goes s t (.next ok) (s.goOn t .none (.batch rest) (if guard then [.release c] else []))
  | swap {ok} (hthread : s.threads t = ⟨.swap, []⟩) :
      Goes s t (.next ok) ⟨.none, ⟨.funcs [] (s.loops t).swap.2, []⟩, t, (s.loops t).swap.1⟩
  | runFunc {called cb rest ok} (hthread : s.threads t = ⟨.funcs called (cb :: rest), []⟩) :
      Goes s t (.next ok) (s.goOn t .none (.funcs (called ++ [cb]) rest) [.func t cb])
  | funcsDone {called ok} (hthread : s.threads t = ⟨.funcs called [], []⟩) :
      Goes s t (.next ok) ⟨.none, ⟨.destroyFuncs called, []⟩, t, (s.loops t).setCallingFuncs false⟩
  | destroyFunc {cb rest ok} (hthread : s.threads t = ⟨.destroyFuncs (cb :: rest), []⟩) :
      Goes s t (.next ok) (s.goOn t .none (.destroyFuncs rest) [.release cb.conn])
  | start {ok} (hthread : s.threads t = ⟨.destroyFuncs [], []⟩) :
      Goes s t (.next ok) (s.goOn t .none .epollWait [])

theorem goes_doWork {pc : Pc} {item : Work} {rest : List Work} {ok : Bool}
    (hthread : s.threads t = ⟨pc, item :: rest⟩) : Goes s t (.next ok) (s.doWork t pc item rest ok) := by
  cases item with
  | runOneFunc l cb =>
      unfold doWork
      dsimp only
      split
      · exact .runInline hthread ‹_›
      · exact .runQueued hthread
  | queueOneFunc l cb => exact .emplaceBack hthread
  | wakeup l => exact .wakeup hthread
  | func l cb =>
      cases cb with
      | handleCloseInLoop c =>
          unfold doWork
          dsimp only
          split
          · exact .assertFailed hthread ‹_›
          · exact .erase hthread ‹_›
      | connectionDestructor c => exact .unregister hthread
  | release c =>
      unfold doWork
      dsimp only
      split
      · exact .release hthread ‹_›
      · exact .expire hthread ‹_›
  | destructor c => exact .close hthread

theorem goes_establish {c : Nat} {rest : List Ready} {ok : Bool}
    (hthread : s.threads t = ⟨.newConnection c rest, []⟩) (h : s.establish t c rest ok = some o) :
    Goes s t (.next ok) o := by
  unfold establish at h
  split at h
  · cases h
  · cases h
  · cases h
    exact .insert hthread ‹_›
  · cases h
    exact .onConnect hthread ‹_›
  · cases h
    rename_i hconstruct hdone hinsert honConnect
    refine .establish hthread hconstruct hinsert ?_
    cases hstage : (s.slots c).stage with
    | construct | insert | onConnect | done => simp [hstage] at hconstruct hdone hinsert honConnect
    | setCallbacks | setConnected | tie | enableRead => decide

theorem goes_advance {pc : Pc} (hthread : s.threads t = ⟨pc, []⟩) (h : s.advance t pc move = some o) :
    Goes s t move o := by
  unfold advance at h
  split at h
  · obtain ⟨⟨-, hready⟩, h⟩ := Option.ite_none_right_eq_some.mp h
    cases h
    exact .epollWait hthread hready
  · cases h
    exact .handleRead hthread
  · cases h
    exact .acceptFailed hthread
  · obtain ⟨hfree, h⟩ := Option.ite_none_right_eq_some.mp h
    cases h
    exact .accept hthread hfree
  · obtain ⟨session, hstep, h⟩ := Option.bind_eq_some_iff.mp h
    cases h
    exact .dispatch hthread hstep
  · cases h
    exact .batchDone hthread
  · cases h
    exact .construct hthread
  · exact goes_establish hthread h
  · obtain ⟨hbusy, h⟩ := Option.ite_none_left_eq_some.mp h
    obtain ⟨session, hstep, h⟩ := Option.bind_eq_some_iff.mp h
    cases h
    exact .run hthread hbusy hstep
  · obtain ⟨hidle, h⟩ := Option.ite_none_right_eq_some.mp h
    cases h
    exact .handled hthread hidle
  · cases h
    exact .swap hthread
  · cases h
    exact .runFunc hthread
  · cases h
    exact .funcsDone hthread
  · cases h
    exact .destroyFunc hthread
  · cases h
    exact .start hthread
  · cases h

theorem goes_control (h : s.control t move = some o) : Goes s t move o := by
  have hthread {work : List Work} (hwork : (s.threads t).work = work) :
      s.threads t = ⟨(s.threads t).pc, work⟩ := hwork ▸ rfl
  unfold control at h
  split at h
  · rename_i hwork
    cases h
    exact goes_doWork (hthread hwork)
  · cases h
  · rename_i hwork
    exact goes_advance (hthread hwork) h

/-- **What a step can do.** -/
theorem step_cases {action : Nat × Move} (h : s.step action = some s') :
    action.1 ≤ s.threadNums ∧ ∃ o, Goes s action.1 action.2 o ∧ s' = s.after action.1 o := by
  obtain ⟨hle, h⟩ := Option.ite_none_right_eq_some.mp h
  obtain ⟨o, hcontrol, rfl⟩ := Option.map_eq_some_iff.mp h
  exact ⟨hle, o, goes_control hcontrol, rfl⟩

section Fields

variable (s : Server) (t c : Nat) (ok : Bool) (label : Label) (session : Session)

@[simp]
theorem slots_newConnection : (s.newConnection t c ok).slots
    = Function.update s.slots c ((s.slots c).establish ok) := by
  unfold newConnection
  dsimp only
  split <;> rfl

@[simp]
theorem slots_runSession : (s.runSession t c label session).slots
    = Function.update s.slots c { s.slots c with session := session } := by
  unfold runSession
  dsimp only
  split <;> (try split) <;> rfl

theorem newConnection_frame : ∃ connectionsMap epoll trace,
    s.newConnection t c ok = { s with
      slots := Function.update s.slots c ((s.slots c).establish ok)
      connectionsMap := connectionsMap
      epoll := epoll
      trace := trace } := by
  unfold newConnection
  dsimp only
  split <;> exact ⟨_, _, _, rfl⟩

theorem runSession_frame : ∃ epoll input output trace,
    s.runSession t c label session = { s with
      slots := Function.update s.slots c { s.slots c with session := session }
      epoll := epoll
      input := input
      output := output
      trace := trace } := by
  unfold runSession
  dsimp only
  split <;> (try split) <;> exact ⟨_, _, _, _, rfl⟩

theorem connectionsMap_newConnection : (s.newConnection t c ok).connectionsMap
    = if (s.slots c).stage = .insert then Function.update s.connectionsMap (s.slots c).fd (some c)
      else s.connectionsMap := by
  unfold newConnection
  dsimp only
  cases (s.slots c).stage <;> rfl

theorem epoll_newConnection : (s.newConnection t c ok).epoll
    = if (s.slots c).stage = .enableRead then
        ((s.setSlot c ((s.slots c).establish ok)).undateChannel c ok).epoll
      else s.epoll := by
  unfold newConnection
  dsimp only
  cases (s.slots c).stage <;> rfl

theorem epoll_runSession : (s.runSession t c label session).epoll = match label with
    | .epollCtl ok => ((s.setSession c session).undateChannel c ok).epoll
    | _ => s.epoll := by
  cases label with
  | read | write =>
      unfold runSession
      dsimp only
      split <;> rfl
  | _ => rfl

theorem handleCloseInLoop_of_some {loop e : Nat} (h : s.connectionsMap (s.slots c).fd = some e) :
    s.handleCloseInLoop t loop c = { s with
      connectionsMap := Function.update s.connectionsMap (s.slots c).fd none
      slots := Function.update s.slots e { s.slots e with erased := (s.slots e).erased + 1 }
      trace := s.trace ++ [(t, .func loop (.handleCloseInLoop c))] ++ [(t, .connectionsMap)] } := by
  simp only [handleCloseInLoop, log, h]
  rfl

theorem handleCloseInLoop_of_none {loop : Nat} (h : s.connectionsMap (s.slots c).fd = none) :
    s.handleCloseInLoop t loop c = { s with
      trace := s.trace ++ [(t, .func loop (.handleCloseInLoop c))] ++ [(t, .connectionsMap)] } := by
  simp only [handleCloseInLoop, log, h]

variable (effect : Effect)

/-- What an effect leaves alone: the number of threads and their ids, and what only `Accept`, the
constructor or the destructor changes. -/
theorem apply_frame : (s.apply t effect).threadNums = s.threadNums ∧
    (s.apply t effect).tid = s.tid ∧
    ((∀ c fd state tied ok, effect ≠ .construct c fd state tied ok) →
      (s.apply t effect).next = s.next) ∧
    ((∀ fd, effect ≠ .accept fd) → (s.apply t effect).accepted = s.accepted) ∧
    ((∀ fd, effect ≠ .accept fd) → (∀ c, effect ≠ .close c) →
      (s.apply t effect).files = s.files) := by
  cases effect with
  | accept fd => exact ⟨rfl, rfl, fun _ => rfl, fun h => absurd rfl (h fd), fun h => absurd rfl (h fd)⟩
  | construct c fd state tied ok =>
      exact ⟨rfl, rfl, fun h => absurd rfl (h c fd state tied ok), fun _ => rfl, fun _ _ => rfl⟩
  | close c => exact ⟨rfl, rfl, fun _ => rfl, fun _ => rfl, fun _ h => absurd rfl (h c)⟩
  | establish c ok =>
      obtain ⟨_, _, _, hframe⟩ := s.newConnection_frame t c ok
      rw [apply, hframe]
      exact ⟨rfl, rfl, fun _ => rfl, fun _ => rfl, fun _ _ => rfl⟩
  | session c label session =>
      obtain ⟨_, _, _, _, hframe⟩ := s.runSession_frame t c label session
      rw [apply, hframe]
      exact ⟨rfl, rfl, fun _ => rfl, fun _ => rfl, fun _ _ => rfl⟩
  | handleCloseInLoop loop c =>
      cases h : s.connectionsMap (s.slots c).fd with
      | none =>
          rw [apply, handleCloseInLoop_of_none s t c h]
          exact ⟨rfl, rfl, fun _ => rfl, fun _ => rfl, fun _ _ => rfl⟩
      | some e =>
          rw [apply, handleCloseInLoop_of_some s t c h]
          exact ⟨rfl, rfl, fun _ => rfl, fun _ => rfl, fun _ _ => rfl⟩
  | none | copy | drop | connectionDestructor | expire =>
      exact ⟨rfl, rfl, fun _ => rfl, fun _ => rfl, fun _ _ => rfl⟩

theorem connectionsMap_apply (hestablish : ∀ c ok, effect ≠ .establish c ok)
    (herase : ∀ l c, effect ≠ .handleCloseInLoop l c) :
    (s.apply t effect).connectionsMap = s.connectionsMap := by
  cases effect with
  | establish c ok => exact absurd rfl (hestablish c ok)
  | handleCloseInLoop l c => exact absurd rfl (herase l c)
  | session c label session =>
      obtain ⟨_, _, _, _, hframe⟩ := s.runSession_frame t c label session
      rw [apply, hframe]
  | _ => rfl

/-- The connection that an effect changes, and what it makes of it. -/
def touched : Effect → Option (Nat × Slot)
  | .none | .copy _ | .drop _ | .accept _ => none
  | .construct c fd state tied ok => some (c, .new (.new s.nextEventLoop.1 fd state tied ok))
  | .establish c ok => some (c, (s.slots c).establish ok)
  | .session c _ session => some (c, { s.slots c with session := session })
  | .handleCloseInLoop _ c => (s.connectionsMap (s.slots c).fd).map fun e =>
      (e, { s.slots e with erased := (s.slots e).erased + 1 })
  | .connectionDestructor _ c ok => some (c, { s.slots c with
      session := { (s.slots c).session with conn := { (s.slots c).session.conn with
        channel := (s.slots c).session.conn.channel.deleteChannel ok } }
      unregistered := (s.slots c).unregistered + 1 })
  | .expire c => some (c, { s.slots c with expired := true })
  | .close c => some (c, { s.slots c with closed := (s.slots c).closed + 1 })

theorem slots_apply : (s.apply t effect).slots
    = (s.touched effect).elim s.slots fun p => Function.update s.slots p.1 p.2 := by
  cases effect with
  | establish c ok => exact s.slots_newConnection t c ok
  | session c label session => exact s.slots_runSession t c label session
  | handleCloseInLoop loop c =>
      cases h : s.connectionsMap (s.slots c).fd with
      | none =>
          rw [apply, handleCloseInLoop_of_none s t c h, touched, h]
          rfl
      | some e =>
          rw [apply, handleCloseInLoop_of_some s t c h, touched, h]
          rfl
  | _ => rfl

theorem slots_apply_cases : (s.apply t effect).slots c = s.slots c ∨
    ∃ slot, s.touched effect = some (c, slot) ∧ (s.apply t effect).slots c = slot := by
  rw [slots_apply]
  cases htouched : s.touched effect with
  | none => exact .inl rfl
  | some p =>
      obtain ⟨c', slot⟩ := p
      by_cases hc : c = c'
      · subst hc
        exact .inr ⟨slot, rfl, Function.update_self ..⟩
      · exact .inl (Function.update_of_ne hc _ _)

end Fields

@[simp]
theorem threadNums_after : (s.after t o).threadNums = s.threadNums := (s.apply_frame t o.effect).1

@[simp]
theorem tid_after : (s.after t o).tid = s.tid := (s.apply_frame t o.effect).2.1

theorem threads_after_self : (s.after t o).threads t = o.thread := by simp [after]

theorem threads_after_of_ne {t' : Nat} (hne : t' ≠ t) : (s.after t o).threads t' = s.threads t' := by
  simp [after, hne]

theorem slots_after_session (heffect : o.effect = .session c label session) :
    (s.after t o).slots c = { s.slots c with session := session } := by
  change (s.apply t o.effect).slots c = _
  rw [heffect, apply, slots_runSession, Function.update_self]

theorem loops_after_self : (s.after t o).loops o.loop = o.queue := by simp [after]

theorem loops_after_of_ne {l : Nat} (hne : l ≠ o.loop) : (s.after t o).loops l = s.loops l := by
  simp [after, hne]

theorem tally_pos_iff {f : EventLoop Task → Nat} {g : Thread → Nat} : 0 < s.tally f g ↔
    ∃ i ≤ s.threadNums, 0 < f (s.loops i) ∨ 0 < g (s.threads i) := by
  simp only [tally, Finset.sum_pos_iff, Finset.mem_range_succ_iff, Nat.add_pos_iff_pos_or_pos]

theorem tally_setThread (ht : t ≤ s.threadNums) (thread : Thread) (f : EventLoop Task → Nat)
    (g : Thread → Nat) :
    (s.setThread t thread).tally f g + g (s.threads t) = s.tally f g + g thread := by
  have hsum := Tally.sum_add_eq (show t ∈ Finset.range (s.threadNums + 1) from Finset.mem_range_succ_iff.mpr ht)
    (f := fun i => f (s.loops i) + g (s.threads i))
    (g := fun i => f (s.loops i) + g (Function.update s.threads t thread i))
    fun i hi => by simp [Function.update_of_ne hi]
  rw [Function.update_self] at hsum
  unfold tally
  dsimp only [setThread] at hsum ⊢
  omega

theorem tally_setLoop {l : Nat} (hl : l ≤ s.threadNums) (loop : EventLoop Task)
    (f : EventLoop Task → Nat) (g : Thread → Nat) :
    { s with loops := Function.update s.loops l loop }.tally f g + f (s.loops l)
      = s.tally f g + f loop := by
  have hsum := Tally.sum_add_eq (show l ∈ Finset.range (s.threadNums + 1) from Finset.mem_range_succ_iff.mpr hl)
    (f := fun i => f (s.loops i) + g (s.threads i))
    (g := fun i => f (Function.update s.loops l loop i) + g (s.threads i))
    fun i hi => by simp [Function.update_of_ne hi]
  rw [Function.update_self] at hsum
  unfold tally
  dsimp only at hsum ⊢
  omega

/-- The sums over threads and loops change with the thread that goes on and the loop that it uses. -/
theorem tally_after (ht : t ≤ s.threadNums) (hl : o.loop ≤ s.threadNums) (f : EventLoop Task → Nat)
    (g : Thread → Nat) : (s.after t o).tally f g + f (s.loops o.loop) + g (s.threads t)
      = s.tally f g + f o.queue + g o.thread := by
  have hthread := tally_setThread ht o.thread f g
  have hloop := tally_setLoop (s := s.setThread t o.thread) hl o.queue f g
  have hafter : (s.after t o).tally f g = Server.tally
      { s.setThread t o.thread with loops := Function.update s.loops o.loop o.queue } f g := by
    unfold tally
    rw [threadNums_after]
    rfl
  rw [hafter]
  change _ + f (s.loops o.loop) = _ at hloop
  dsimp only [setThread] at hthread hloop ⊢
  omega

/-- The connection in whose handlers the action is a step, with that step. -/
def runs (s : Server) (action : Nat × Move) : Option (Nat × Label) :=
  match (s.threads action.1).pc, action.2 with
  | .handleEvent c _ _, .run label => some (c, label)
  | _, _ => none

/-- What a thread is about to do when its step shows an event. -/
def Shows (s : Server) (t : Nat) : Event → Prop
  | .onConnect c =>
      (s.slots c).stage = .onConnect ∧ ∃ rest, s.threads t = ⟨.newConnection c rest, []⟩
  | .onMessage c | .onClose c =>
      (s.slots c).session.stack ≠ [] ∧ ∃ guard rest, s.threads t = ⟨.handleEvent c guard rest, []⟩
  | .func l cb => ∃ pc rest, s.threads t = ⟨pc, .func l cb :: rest⟩
  | .connectionsMap => (∃ pc l c rest, s.threads t = ⟨pc, .func l (.handleCloseInLoop c) :: rest⟩) ∨
      ∃ c rest, s.threads t = ⟨.newConnection c rest, []⟩

/-- **What a step adds to the trace.** -/
theorem Goes.trace (h : Goes s t move o) :
    ∃ events, (s.after t o).trace = s.trace ++ events ∧
      ∀ entry ∈ events, entry.1 = t ∧ s.Shows t entry.2 := by
  have hnone : ∃ events, s.trace = s.trace ++ events ∧
      ∀ entry ∈ events, entry.1 = t ∧ s.Shows t entry.2 := ⟨[], by simp⟩
  cases h with
  | erase hthread hfound =>
      refine ⟨_, (congrArg Server.trace (handleCloseInLoop_of_some _ _ _ hfound)).trans
        (List.append_assoc ..), ?_⟩
      simp [Shows, hthread]
  | assertFailed hthread hnone =>
      refine ⟨_, (congrArg Server.trace (handleCloseInLoop_of_none _ _ _ hnone)).trans
        (List.append_assoc ..), ?_⟩
      simp [Shows, hthread]
  | unregister hthread => exact ⟨_, rfl, by simp [Shows, hthread]⟩
  | @insert c rest ok hthread hstage =>
      refine ⟨[(t, .connectionsMap)], ?_, by simp [Shows, hthread]⟩
      simp [after, apply, goOn, newConnection, log, setSlot, hstage]
  | @onConnect c rest ok hthread hstage =>
      refine ⟨[(t, .onConnect c)], ?_, by simp [Shows, hthread, hstage]⟩
      simp [after, apply, goOn, newConnection, log, setSlot, hstage]
  | @establish c rest ok hthread hconstructed hinsert hbefore =>
      refine ⟨[], ?_, by simp⟩
      cases hstage : (s.slots c).stage with
      | construct | insert => simp [hstage] at hconstructed hinsert
      | onConnect | done => simp [hstage, Stage.index] at hbefore
      | setCallbacks | setConnected | tie | enableRead =>
          simp [after, apply, goOn, newConnection, setSlot, undateChannel, hstage]
  | @run c guard rest label session hthread hbusy =>
      cases label with
      | onMessage | onClose => exact ⟨_, rfl, by simp [Shows, hthread, hbusy]⟩
      | read | write =>
          refine ⟨[], ?_, by simp⟩
          simp only [after, apply, goOn, runSession]
          split <;> simp [setSession, setSlot]
      | event | call | tau | epollCtl => exact hnone
  | _ => exact hnone

end Server

end EpollServer
