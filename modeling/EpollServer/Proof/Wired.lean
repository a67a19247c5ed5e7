import EpollServer.Lib.RoundRobin
import EpollServer.Proof.Control
import EpollServer.Proof.Delivery

/-!
# Connections on their way to their loops

What needs no assumption about thread ids or `epoll_ctl`: thread 0 alone sets connections up, a connection
keeps its descriptor and its loop, epoll sets hold only channels of connections of their loop, and before
`EnableRead` a channel is registered for nothing that its handlers react to. So the handlers of a
connection first run after its `EnableRead`, on the thread of its loop.
-/

namespace EpollServer

namespace Op

variable {c c' : Connection} {op : Op} {label : Label} {ops : List Op}

theorem Exec.fixed (h : Exec c op label c' ops) :
    c'.clientFd = c.clientFd ∧ c'.eventLoop = c.eventLoop := by
  cases h with
  | @read r =>
      obtain ⟨_, _, _, _, _, hframe⟩ := c.readNonBlocking_frame r
      rw [hframe]
      exact ⟨rfl, rfl⟩
  | _ => exact ⟨rfl, rfl⟩

end Op

namespace Session

variable {s s' : Session} {label : Label}

theorem step_fixed (h : s.step label = some s') :
    s'.conn.clientFd = s.conn.clientFd ∧ s'.conn.eventLoop = s.conn.eventLoop := by
  rcases step_cases h with ⟨-, events, -, rfl⟩ | ⟨-, f, -, rfl⟩ | ⟨op, rest, conn, ops, -, hexec, rfl⟩
  · exact ⟨rfl, rfl⟩
  · exact ⟨rfl, rfl⟩
  · exact (Op.exec_cases hexec).fixed

theorem stack_of_event {events : EpollEvents} (h : s.step (.event events) = some s') : s.stack = [] := by
  rcases step_cases h with ⟨hidle, -⟩ | ⟨hidle, -⟩ | ⟨op, rest, conn, ops, -, hexec, -⟩
  · exact hidle
  · exact hidle
  · cases Op.exec_cases hexec

theorem handleEvent_unhandled {events : EpollEvents} (hread : events.isReadable = false)
    (hwrite : events.isWritable = false) : (s.handleEvent events).stack = [] := by
  simp [handleEvent, Connection.handleEventWithGuard, Channel.setReadyEvents, hread, hwrite]

end Session

/-- The events that `EnableET` registers. -/
def EpollEvents.et : EpollEvents := { EpollEvents.none with epollet := true }

theorem EpollEvents.unhandled_of_et (current : EpollEvents) :
    (current.reported .et).isReadable = false ∧ (current.reported .et).isWritable = false := by
  simp [reported, et, none, isReadable, isWritable]

theorem Stage.index_injective : Function.Injective Stage.index := by
  intro a b h
  cases a <;> cases b <;> first | rfl | cases h

namespace Slot

/-- A connection whose `EnableRead` is still to come: nothing happened on it yet. -/
structure Early (slot : Slot) : Prop where
  stack : slot.session.stack = []
  history : slot.session.history = .new
  reader : slot.session.conn.reader.Initial
  size_le : slot.session.conn.readBuffer.length ≤ maxTlvLength
  sendBuffer : slot.session.conn.sendBuffer = .new
  listening : slot.session.conn.channel.listeningEvents = .et
  callback : Stage.insert.index ≤ slot.stage.index → slot.session.conn.onMessageCallback = true
  connected : Stage.tie.index ≤ slot.stage.index → slot.session.conn.state = .connected

theorem early_new (loop : Nat) (fd : Fd) (state : ConnectionState) (tied ok : Bool) :
    (new (.new loop fd state tied ok)).Early where
  stack := rfl
  history := rfl
  reader := ⟨rfl, rfl, rfl⟩
  size_le := Nat.zero_le _
  sendBuffer := rfl
  listening := by simp [new, Session.new, Connection.new, Channel.enableET, Channel.listen]; rfl
  callback h := absurd h (by simp [new, Stage.index])
  connected h := absurd h (by simp [new, Stage.index])

/-- What one step can do to a connection, where `n` is the number of the last loop. -/
inductive Change (n : Nat) (slot : Slot) : Slot → Prop
  | construct {loop fd state tied ok} (hstage : slot.stage = .construct) (hloop : loop ≤ n) :
      Change n slot (.new (.new loop fd state tied ok))
  | establish {ok} (hstage : slot.stage ≠ .construct) : Change n slot (slot.establish ok)
  | session {label session} (hstep : slot.session.step label = some session)
      (hconstructed : slot.stage ≠ .construct)
      (hearly : slot.stage.index ≤ Stage.enableRead.index →
        ∃ events : EpollEvents, label = .event events ∧
          events.isReadable = false ∧ events.isWritable = false) :
      Change n slot { slot with session := session }
  /-- Its end: the channel is deregistered, and what is counted changes. -/
  | finish {channel : Channel} {expired erased unregistered closed}
      (hlistening : channel.listeningEvents = slot.session.conn.channel.listeningEvents) :
      Change n slot { slot with
        session := { slot.session with conn := { slot.session.conn with channel := channel } }
        expired := expired
        erased := erased
        unregistered := unregistered
        closed := closed }

variable {n : Nat} {slot slot' : Slot}

theorem establish_frame (slot : Slot) (ok : Bool) :
    ∃ stage conn, slot.establish ok = slot.goOn stage conn := by
  unfold establish
  cases h : slot.stage with
  | construct | done => exact ⟨slot.stage, slot.session.conn, by rw [goOn]⟩
  | _ => exact ⟨_, _, rfl⟩

theorem index_establish_of {ok : Bool} (hconstructed : slot.stage ≠ .construct)
    (hdone : slot.stage ≠ .done) : (slot.establish ok).stage.index = slot.stage.index + 1 := by
  unfold establish
  cases h : slot.stage with
  | construct => exact absurd h hconstructed
  | done => exact absurd h hdone
  | _ => rfl

theorem index_establish (ok : Bool) : slot.stage.index ≤ (slot.establish ok).stage.index := by
  unfold establish
  cases hstage : slot.stage <;> simp [goOn, hstage, Stage.index]

theorem establish_ne_done (ok : Bool) (hstage : slot.stage.index < Stage.onConnect.index) :
    (slot.establish ok).stage ≠ .done := by
  unfold establish
  cases h : slot.stage <;> simp [goOn, h, Stage.index] at hstage ⊢

theorem Change.index_le (h : slot.Change n slot') : slot.stage.index ≤ slot'.stage.index := by
  cases h with
  | construct hstage =>
      rw [hstage]
      exact Nat.zero_le _
  | @establish ok => exact slot.index_establish ok
  | session | finish => exact Nat.le_refl _

theorem Change.fixed (h : slot.Change n slot') (hconstructed : slot.stage ≠ .construct) :
    slot'.fd = slot.fd ∧ slot'.eventLoop = slot.eventLoop := by
  cases h with
  | construct hstage => exact absurd hstage hconstructed
  | @establish ok =>
      unfold Slot.establish
      cases slot.stage <;> exact ⟨rfl, rfl⟩
  | session hstep => exact Session.step_fixed hstep
  | finish => exact ⟨rfl, rfl⟩

theorem Change.eventLoop_le (h : slot.Change n slot') (hle : slot.eventLoop ≤ n) :
    slot'.eventLoop ≤ n := by
  by_cases hconstructed : slot.stage = .construct
  · cases h with
    | construct hstage hloop => exact hloop
    | establish hstage => exact absurd hconstructed hstage
    | session hstep hstage => exact absurd hconstructed hstage
    | finish => exact hle
  · rwa [(h.fixed hconstructed).2]

theorem Early.establish (hs : slot.Early) (ok : Bool)
    (hstage : (slot.establish ok).stage.index ≤ Stage.enableRead.index) : (slot.establish ok).Early := by
  cases h : slot.stage with
  | construct | done => rwa [Slot.establish, h]
  | setCallbacks =>
      rw [Slot.establish, h]
      exact ⟨hs.stack, hs.history, hs.reader, hs.size_le, hs.sendBuffer, hs.listening, fun _ => rfl,
        fun h => absurd h (by simp [goOn, Stage.index])⟩
  | insert =>
      rw [Slot.establish, h]
      exact ⟨hs.stack, hs.history, hs.reader, hs.size_le, hs.sendBuffer, hs.listening,
        fun _ => hs.callback (by simp [h]), fun h => absurd h (by simp [goOn, Stage.index])⟩
  | setConnected =>
      rw [Slot.establish, h]
      exact ⟨hs.stack, hs.history, hs.reader, hs.size_le, hs.sendBuffer, hs.listening,
        fun _ => hs.callback (by simp [h, Stage.index]), fun _ => rfl⟩
  | tie =>
      rw [Slot.establish, h]
      exact ⟨hs.stack, hs.history, hs.reader, hs.size_le, hs.sendBuffer, hs.listening,
        fun _ => hs.callback (by simp [h, Stage.index]), fun _ => hs.connected (by simp [h])⟩
  | enableRead | onConnect =>
      rw [Slot.establish, h] at hstage
      exact absurd hstage (by simp [goOn, Stage.index])

theorem Early.fresh (hs : slot.Early) {ok : Bool} (hstage : slot.stage = .enableRead) :
    (slot.establish ok).session.Fresh := by
  rw [Slot.establish, hstage]
  exact ⟨hs.stack, hs.history, hs.connected (by simp [hstage, Stage.index]),
    hs.callback (by simp [hstage, Stage.index]), hs.reader, hs.size_le, hs.sendBuffer⟩

theorem Early.change (hs : slot.Early) (h : slot.Change n slot')
    (hstage : slot'.stage.index ≤ Stage.enableRead.index) : slot'.Early := by
  cases h with
  | construct => exact early_new _ _ _ _ _
  | @establish ok => exact hs.establish ok hstage
  | session hstep hconstructed hearly =>
      obtain ⟨events, rfl, hread, hwrite⟩ := hearly hstage
      rw [Session.step, hs.stack] at hstep
      cases hstep
      exact ⟨Session.handleEvent_unhandled hread hwrite, hs.history, hs.reader, hs.size_le,
        hs.sendBuffer, hs.listening, hs.callback, hs.connected⟩
  | finish hlistening =>
      exact ⟨hs.stack, hs.history, hs.reader, hs.size_le, hs.sendBuffer, hlistening.trans hs.listening,
        hs.callback, hs.connected⟩

end Slot

namespace Pc

/-- The channels that `epoll_wait` returned and that are still to be handled. -/
def ready : Pc → List Ready
  | .batch rest | .accepted _ _ rest | .newConnection _ rest | .handleEvent _ _ rest => rest
  | _ => []

/-- Whether the thread is setting up connection `c`. -/
def SetsUp (c : Nat) : Pc → Prop
  | .accepted c' _ _ | .newConnection c' _ => c' = c
  | _ => False

end Pc

/-- Whether a step is one of setting up connection `c`. -/
def Effect.SetsUp (c : Nat) : Effect → Prop
  | .construct c' _ _ _ _ | .establish c' _ => c' = c
  | _ => False

namespace Server

variable {s s' : Server} {t c : Nat} {move : Move} {o : Outcome}

/-- Connection `c` belongs to loop `l`. -/
structure Belongs (s : Server) (l c : Nat) : Prop where
  constructed : (s.slots c).stage ≠ .construct
  eventLoop : (s.slots c).eventLoop = l

/-- What holds of a channel that the loop of thread `t` got from `epoll_wait`. -/
def Expected (s : Server) (t : Nat) : Ready → Prop
  | .wakeup => True
  | .accept => t = 0
  | .conn fd c events => s.Belongs t c ∧ (s.slots c).fd = fd ∧
      ((s.slots c).stage.index ≤ Stage.enableRead.index →
        events.isReadable = false ∧ events.isWritable = false)

/-- Threads and epoll sets deal with connections of their own loop, and thread 0 sets connections up. -/
structure Wired (s : Server) : Prop where
  loop_le : ∀ c, (s.slots c).eventLoop ≤ s.threadNums
  next_lt : s.threadNums = 0 ∨ s.next < s.threadNums
  fresh : ∀ c, s.accepted ≤ c → (s.slots c).stage = .construct
  early : ∀ c, (s.slots c).stage.index ≤ Stage.enableRead.index → (s.slots c).Early
  epoll : ∀ l fd c registered, s.epoll l fd = some (c, registered) → s.Belongs l c ∧
    (s.slots c).fd = fd ∧ ((s.slots c).stage.index ≤ Stage.enableRead.index → registered = .et)
  ready : ∀ t, ∀ item ∈ (s.threads t).pc.ready, s.Expected t item
  handling : ∀ t c guard rest, (s.threads t).pc = .handleEvent c guard rest → s.Belongs t c
  setsUp : ∀ t c, (s.threads t).pc.SetsUp c → t = 0 ∧ c < s.accepted
  accepting : ∀ t c fd rest, (s.threads t).pc = .accepted c fd rest → (s.slots c).stage = .construct
  establishing : ∀ t c rest, (s.threads t).pc = .newConnection c rest →
    (s.slots c).stage ≠ .construct ∧ (s.slots c).stage ≠ .done

theorem Fresh.wired (hs : s.Fresh) : s.Wired where
  loop_le c := by
    rw [hs.slots]
    exact Nat.zero_le _
  next_lt := by
    rw [hs.next]
    exact Nat.eq_zero_or_pos _
  fresh c _ := by rw [hs.slots]; rfl
  early c _ := by
    rw [hs.slots]
    exact { Slot.early_new 0 0 .invalid false false with
      callback := fun h => absurd h (by decide), connected := fun h => absurd h (by decide) }
  epoll l fd c registered h := by
    rw [hs.epoll] at h
    cases h
  ready t item h := by
    rw [hs.threads] at h
    cases h
  handling t c guard rest h := by
    rw [hs.threads] at h
    cases h
  setsUp t c h := by
    rw [hs.threads] at h
    exact h.elim
  accepting t c fd rest h := by
    rw [hs.threads] at h
    cases h
  establishing t c rest h := by
    rw [hs.threads] at h
    cases h

theorem entry_of_reports {fd : Fd} {events : EpollEvents} (h : s.Reports t (.conn fd c events)) :
    ∃ registered, s.epoll t fd = some (c, registered) ∧ events.reported registered = events := by
  cases hentry : s.epoll t fd with
  | none =>
      rw [Reports, hentry] at h
      exact h.elim
  | some entry =>
      rw [Reports, hentry] at h
      obtain ⟨rfl, hevents⟩ := h
      exact ⟨entry.2, rfl, hevents⟩

theorem Wired.expected (hs : s.Wired) {item : Ready} (h : s.Reports t item) : s.Expected t item := by
  cases item with
  | wakeup => trivial
  | accept => exact h
  | conn fd c events =>
      obtain ⟨registered, hentry, hevents⟩ := entry_of_reports h
      obtain ⟨hbelongs, hfd, hearly⟩ := hs.epoll t fd c registered hentry
      refine ⟨hbelongs, hfd, fun hstage => ?_⟩
      rw [← hevents, hearly hstage]
      exact EpollEvents.unhandled_of_et events

theorem Goes.ready (h : Goes s t move o) {item : Ready} (hitem : item ∈ o.thread.pc.ready) :
    item ∈ (s.threads t).pc.ready ∨ s.Reports t item := by
  cases h with
  | epollWait hthread hready => exact .inr (hready item hitem)
  | @handleRead rest _ hthread =>
      refine .inl ?_
      rw [hthread]
      dsimp only at hitem
      split at hitem
      · exact List.mem_cons_of_mem _ hitem
      · cases hitem
  | _ hthread =>
      rw [hthread]
      first
        | exact .inl hitem
        | exact .inl (List.mem_cons_of_mem _ hitem)
        | cases hitem

theorem Goes.handling (h : Goes s t move o) {guard : Bool} {rest : List Ready}
    (hpc : o.thread.pc = .handleEvent c guard rest) :
    (∃ guard rest, (s.threads t).pc = .handleEvent c guard rest) ∨
      ∃ fd events, .conn fd c events ∈ (s.threads t).pc.ready := by
  cases h with
  | handleRead hthread =>
      dsimp only at hpc
      split at hpc <;> cases hpc
  | dispatch hthread =>
      cases hpc
      rw [hthread]
      exact .inr ⟨_, _, List.mem_cons_self⟩
  | _ hthread =>
      rw [hthread]
      first
        | exact .inl ⟨_, _, hpc⟩
        | cases hpc

/-- A session makes a step because its channel was ready, or in the handlers of its connection. -/
theorem Goes.session (h : Goes s t move o) {label : Label} {session : Session}
    (heffect : o.effect = .session c label session) : (s.slots c).session.step label = some session ∧
      ((∃ fd events, label = .event events ∧ .conn fd c events ∈ (s.threads t).pc.ready) ∨
        (s.slots c).session.stack ≠ [] ∧ move = .run label ∧
          ∃ guard rest, (s.threads t).pc = .handleEvent c guard rest) := by
  cases h with
  | @dispatch fd c' events rest ok session' hthread hstep =>
      cases heffect
      refine ⟨hstep, .inl ⟨fd, events, rfl, ?_⟩⟩
      rw [hthread]
      exact List.mem_cons_self
  | @run c' guard rest label' session' hthread hbusy hstep =>
      cases heffect
      exact ⟨hstep, .inr ⟨hbusy, rfl, guard, rest, by rw [hthread]⟩⟩
  | _ => cases heffect

theorem Goes.setsUp (h : Goes s t move o) (hpc : o.thread.pc.SetsUp c) :
    (s.threads t).pc.SetsUp c ∨
      c = s.accepted ∧ .accept ∈ (s.threads t).pc.ready ∧ (s.after t o).accepted = s.accepted + 1 := by
  cases h with
  | handleRead hthread =>
      dsimp only at hpc
      split at hpc <;> exact hpc.elim
  | accept hthread =>
      rw [hthread]
      exact .inr ⟨Eq.symm hpc, List.mem_cons_self, rfl⟩
  | _ hthread =>
      rw [hthread]
      first
        | exact .inl hpc
        | exact hpc.elim

theorem Goes.accepting (h : Goes s t move o) {fd : Fd} {rest : List Ready}
    (hpc : o.thread.pc = .accepted c fd rest) :
    (s.threads t).pc = .accepted c fd rest ∨ c = s.accepted ∧ o.effect = .accept fd := by
  cases h with
  | handleRead hthread =>
      dsimp only at hpc
      split at hpc <;> cases hpc
  | accept hthread =>
      cases hpc
      exact .inr ⟨rfl, rfl⟩
  | _ hthread =>
      rw [hthread]
      first
        | exact .inl hpc
        | cases hpc

theorem Goes.effect_setsUp (h : Goes s t move o) (heffect : o.effect.SetsUp c) :
    (s.threads t).pc.SetsUp c := by
  cases h with
  | construct hthread | insert hthread | onConnect hthread | establish hthread =>
      rw [hthread]
      exact heffect
  | _ => exact heffect.elim

/-- Only `HandleNewConnection` moves a connection to another stage. -/
theorem stage_apply {effect : Effect} (heffect : ¬effect.SetsUp c) :
    ((s.apply t effect).slots c).stage = (s.slots c).stage := by
  rcases s.slots_apply_cases t c effect with heq | ⟨slot, htouched, heq⟩
  · rw [heq]
  · rw [heq]
    cases effect with
    | construct | establish =>
        cases htouched
        exact absurd rfl heffect
    | handleCloseInLoop loop c' =>
        obtain ⟨e, -, heq⟩ := Option.map_eq_some_iff.mp htouched
        cases heq
        rfl
    | none | copy | drop | accept => cases htouched
    | session | connectionDestructor | expire | close =>
        cases htouched
        rfl

theorem Goes.stage_eq (h : Goes s t move o) (hpc : ¬(s.threads t).pc.SetsUp c) :
    ((s.after t o).slots c).stage = (s.slots c).stage :=
  stage_apply fun heffect => hpc (h.effect_setsUp heffect)

theorem Goes.accepted (h : Goes s t move o) : (s.after t o).accepted = s.accepted ∨
    (s.after t o).accepted = s.accepted + 1 ∧ .accept ∈ (s.threads t).pc.ready := by
  cases h with
  | accept hthread =>
      rw [hthread]
      exact .inr ⟨rfl, List.mem_cons_self⟩
  | _ => exact .inl ((s.apply_frame t _).2.2.2.1 nofun)

theorem Wired.nextEventLoop_spec (hs : s.Wired) : s.nextEventLoop.1 ≤ s.threadNums ∧
    (s.threadNums = 0 ∨ s.nextEventLoop.2 < s.threadNums) := by
  unfold nextEventLoop
  split
  · exact ⟨Nat.zero_le _, .inl ‹_›⟩
  · have hnext := hs.next_lt.resolve_left ‹_›
    exact ⟨hnext, .inr (RoundRobin.next_lt hnext)⟩

/-- **What one step can do to a connection.** -/
theorem Goes.slots (h : Goes s t move o) (hs : s.Wired) (c : Nat) :
    (s.after t o).slots c = s.slots c ∨
      (s.slots c).Change s.threadNums ((s.after t o).slots c) := by
  refine (s.slots_apply_cases t c o.effect).imp_right fun ⟨slot, htouched, heq⟩ => ?_
  change Slot.Change _ _ ((s.apply t o.effect).slots c)
  rw [heq]
  cases h with
  | construct hthread =>
      cases htouched
      exact .construct (hs.accepting t _ _ _ (by rw [hthread])) hs.nextEventLoop_spec.1
  | insert hthread | onConnect hthread | establish hthread =>
      cases htouched
      exact .establish (hs.establishing t _ _ (by rw [hthread])).1
  | @dispatch fd _ events rest _ _ hthread hstep =>
      cases htouched
      have hitem := hs.ready t (.conn fd c events) (by rw [hthread]; exact List.mem_cons_self)
      exact .session hstep hitem.1.constructed fun h => ⟨events, rfl, hitem.2.2 h⟩
  | run hthread hbusy hstep =>
      cases htouched
      have hbelongs := hs.handling t _ _ _ (by rw [hthread])
      exact .session hstep hbelongs.constructed fun h => absurd (hs.early _ h).stack hbusy
  | erase | assertFailed =>
      obtain ⟨e, -, heq⟩ := Option.map_eq_some_iff.mp htouched
      cases heq
      exact .finish rfl
  | unregister =>
      cases htouched
      exact .finish (by cases ‹Bool› <;> rfl)
  | expire | close =>
      cases htouched
      exact .finish rfl
  | _ => cases htouched

theorem epoll_undateChannel {ok : Bool} {l c' : Nat} {fd : Fd} {registered : EpollEvents}
    (hentry : (s.undateChannel c ok).epoll l fd = some (c', registered)) :
    s.epoll l fd = some (c', registered) ∨ c' = c ∧ l = (s.slots c).eventLoop ∧
      fd = (s.slots c).fd ∧ registered = (s.slots c).session.conn.channel.listeningEvents := by
  unfold undateChannel at hentry
  cases ok with
  | false => exact .inl hentry
  | true =>
      by_cases hl : l = (s.slots c).eventLoop
      · subst hl
        by_cases hfd : fd = (s.slots c).fd
        · subst hfd
          simp at hentry
          exact .inr ⟨hentry.1.symm, rfl, rfl, hentry.2.symm⟩
        · exact .inl (by simpa [hfd] using hentry)
      · exact .inl (by simpa [hl] using hentry)

theorem epoll_remove {epoll : Fd → Option (Nat × EpollEvents)} {fd fd' : Fd}
    {entry : Nat × EpollEvents} (hentry : Function.update epoll fd' none fd = some entry) :
    fd ≠ fd' ∧ epoll fd = some entry := by
  by_cases hfd : fd = fd'
  · subst hfd
    simp at hentry
  · exact ⟨hfd, by rwa [Function.update_of_ne hfd] at hentry⟩

/-- Where the entries of the epoll sets come from: they were there, or the thread that sets a connection
up or runs its handlers has registered what its channel listens to. -/
theorem Goes.epoll (h : Goes s t move o) (hs : s.Wired) {l : Nat} {fd : Fd} {registered : EpollEvents}
    (hentry : (s.after t o).epoll l fd = some (c, registered)) :
    s.epoll l fd = some (c, registered) ∨
      (o.effect.SetsUp c ∧ (s.slots c).stage.index ≤ Stage.enableRead.index ∨
        (s.slots c).session.stack ≠ [] ∧ ∃ guard rest, (s.threads t).pc = .handleEvent c guard rest) ∧
      l = ((s.after t o).slots c).eventLoop ∧ fd = ((s.after t o).slots c).fd ∧
        registered = ((s.after t o).slots c).session.conn.channel.listeningEvents := by
  cases h with
  | construct hthread =>
      exact (epoll_undateChannel hentry).imp_right fun ⟨hc, hrest⟩ => by
        subst hc
        have hstage := hs.accepting t _ _ _ (by rw [hthread])
        exact ⟨.inl ⟨rfl, by rw [hstage]; decide⟩, hrest⟩
  | @insert c' rest ok | @onConnect c' rest ok | @establish c' rest ok =>
      change (s.newConnection t c' ok).epoll l fd = _ at hentry
      change _ ∨ _ ∧ l = ((s.newConnection t c' ok).slots c).eventLoop ∧
        fd = ((s.newConnection t c' ok).slots c).fd ∧
          registered = ((s.newConnection t c' ok).slots c).session.conn.channel.listeningEvents
      rw [epoll_newConnection] at hentry
      rw [slots_newConnection]
      split at hentry
      · rename_i hstage
        exact (epoll_undateChannel hentry).imp_right fun ⟨hc, hrest⟩ => by
          subst hc
          exact ⟨.inl ⟨rfl, by rw [hstage]⟩, hrest⟩
      · exact .inl hentry
  | dispatch => exact .inl hentry
  | @run c' guard rest label session hthread hbusy =>
      rw [hthread]
      change (s.runSession t c' label session).epoll l fd = _ at hentry
      change _ ∨ _ ∧ l = ((s.runSession t c' label session).slots c).eventLoop ∧
        fd = ((s.runSession t c' label session).slots c).fd ∧
          registered = ((s.runSession t c' label session).slots c).session.conn.channel.listeningEvents
      rw [epoll_runSession] at hentry
      rw [slots_runSession]
      split at hentry
      · exact (epoll_undateChannel hentry).imp_right fun ⟨hc, hrest⟩ => by
          subst hc
          exact ⟨.inr ⟨hbusy, _, _, rfl⟩, hrest⟩
      · exact .inl hentry
  | erase hthread hfound =>
      change (s.handleCloseInLoop _ _ _).epoll l fd = _ at hentry
      rw [handleCloseInLoop_of_some _ _ _ hfound] at hentry
      exact .inl hentry
  | assertFailed hthread hnone =>
      change (s.handleCloseInLoop _ _ _).epoll l fd = _ at hentry
      rw [handleCloseInLoop_of_none _ _ _ hnone] at hentry
      exact .inl hentry
  | @unregister pc l' c' rest ok hthread =>
      refine .inl ?_
      cases ok with
      | false => exact hentry
      | true =>
          change Function.update s.epoll (s.slots c').eventLoop _ l fd = _ at hentry
          by_cases hl : l = (s.slots c').eventLoop
          · subst hl
            rw [Function.update_self] at hentry
            exact (epoll_remove hentry).2
          · rwa [Function.update_of_ne hl] at hentry
  | close hthread => exact .inl (epoll_remove hentry).2
  | _ => exact .inl hentry

section Step

variable (hs : s.Wired) (h : Goes s t move o)
include hs h

theorem Goes.index_le (c : Nat) : (s.slots c).stage.index ≤ ((s.after t o).slots c).stage.index := by
  rcases h.slots hs c with heq | hchange
  · rw [heq]
  · exact hchange.index_le

theorem Goes.constructed (hconstructed : (s.slots c).stage ≠ .construct) :
    ((s.after t o).slots c).stage ≠ .construct := by
  have hle := h.index_le hs c
  intro hstage
  rw [hstage] at hle
  cases hc : (s.slots c).stage <;> simp [hc, Stage.index] at hle hconstructed

theorem Goes.fixed (hconstructed : (s.slots c).stage ≠ .construct) :
    ((s.after t o).slots c).fd = (s.slots c).fd ∧
      ((s.after t o).slots c).eventLoop = (s.slots c).eventLoop := by
  rcases h.slots hs c with heq | hchange
  · rw [heq]
    exact ⟨rfl, rfl⟩
  · exact hchange.fixed hconstructed

theorem Goes.belongs {l : Nat} (hbelongs : s.Belongs l c) : (s.after t o).Belongs l c :=
  ⟨h.constructed hs hbelongs.constructed,
    (h.fixed hs hbelongs.constructed).2.trans hbelongs.eventLoop⟩

theorem Goes.expected {t' : Nat} {item : Ready} (hitem : s.Expected t' item) :
    (s.after t o).Expected t' item := by
  cases item with
  | wakeup => trivial
  | accept => exact hitem
  | conn fd c events =>
      obtain ⟨hbelongs, hfd, hearly⟩ := hitem
      exact ⟨h.belongs hs hbelongs, (h.fixed hs hbelongs.constructed).1.trans hfd,
        fun hstage => hearly (Nat.le_trans (h.index_le hs c) hstage)⟩

theorem Wired.after_loop_le (c : Nat) : ((s.after t o).slots c).eventLoop ≤ s.threadNums := by
  rcases h.slots hs c with heq | hchange
  · rw [heq]
    exact hs.loop_le c
  · exact hchange.eventLoop_le (hs.loop_le c)

omit h in
theorem Wired.after_next_lt : s.threadNums = 0 ∨ (s.after t o).next < s.threadNums := by
  cases heffect : o.effect with
  | construct c fd state tied ok =>
      have hnext : (s.after t o).next = s.nextEventLoop.2 := by
        rw [after, heffect]
        rfl
      rw [hnext]
      exact hs.nextEventLoop_spec.2
  | _ =>
      have hnext : (s.after t o).next = s.next :=
        (s.apply_frame t o.effect).2.2.1 (by simp [heffect])
      rw [hnext]
      exact hs.next_lt

theorem Wired.after_fresh (hc : (s.after t o).accepted ≤ c) :
    ((s.after t o).slots c).stage = .construct := by
  have hle : s.accepted ≤ (s.after t o).accepted := by
    rcases h.accepted with heq | ⟨heq, -⟩ <;> omega
  rw [h.stage_eq fun hpc => ?_]
  · exact hs.fresh c (Nat.le_trans hle hc)
  · have hlt := (hs.setsUp t c hpc).2
    omega

theorem Wired.after_early (hc : ((s.after t o).slots c).stage.index ≤ Stage.enableRead.index) :
    ((s.after t o).slots c).Early := by
  have hearly := hs.early c (Nat.le_trans (h.index_le hs c) hc)
  rcases h.slots hs c with heq | hchange
  · rwa [heq]
  · exact hearly.change hchange hc

theorem Goes.setUp_constructed (heffect : o.effect.SetsUp c) :
    ((s.after t o).slots c).stage ≠ .construct := by
  have hbefore := h.constructed (c := c) hs
  cases h with
  | construct hthread =>
      obtain rfl := heffect
      change (Function.update s.slots _ _ _).stage ≠ _
      rw [Function.update_self]
      nofun
  | insert hthread | onConnect hthread | establish hthread =>
      obtain rfl := heffect
      exact hbefore (hs.establishing t _ _ (by rw [hthread])).1
  | _ => exact heffect.elim

theorem Wired.after_epoll {l : Nat} {fd : Fd} {registered : EpollEvents}
    (hentry : (s.after t o).epoll l fd = some (c, registered)) : (s.after t o).Belongs l c ∧
      ((s.after t o).slots c).fd = fd ∧
        (((s.after t o).slots c).stage.index ≤ Stage.enableRead.index → registered = .et) := by
  rcases h.epoll hs hentry with hold | ⟨huser, hl, hfd, hregistered⟩
  · obtain ⟨hbelongs, hfd, hearly⟩ := hs.epoll l fd c registered hold
    exact ⟨h.belongs hs hbelongs, (h.fixed hs hbelongs.constructed).1.trans hfd,
      fun hstage => hearly (Nat.le_trans (h.index_le hs c) hstage)⟩
  · have hconstructed : ((s.after t o).slots c).stage ≠ .construct := by
      rcases huser with ⟨hsetsUp, -⟩ | ⟨-, guard, rest, hpc⟩
      · exact h.setUp_constructed hs hsetsUp
      · exact h.constructed hs (hs.handling t c guard rest hpc).constructed
    exact ⟨⟨hconstructed, hl.symm⟩, hfd.symm,
      fun hstage => hregistered.trans (hs.after_early h hstage).listening⟩

theorem Wired.after_ready {t' : Nat} {item : Ready}
    (hitem : item ∈ ((s.after t o).threads t').pc.ready) : (s.after t o).Expected t' item := by
  apply h.expected hs
  by_cases hne : t' = t
  · subst hne
    rw [threads_after_self] at hitem
    exact (h.ready hitem).elim (hs.ready t' item) hs.expected
  · rw [threads_after_of_ne hne] at hitem
    exact hs.ready t' item hitem

theorem Wired.after_handling {t' : Nat} {guard : Bool} {rest : List Ready}
    (hpc : ((s.after t o).threads t').pc = .handleEvent c guard rest) :
    (s.after t o).Belongs t' c := by
  apply h.belongs hs
  by_cases hne : t' = t
  · subst hne
    rw [threads_after_self] at hpc
    rcases h.handling hpc with ⟨guard, rest, hpc⟩ | ⟨fd, events, hitem⟩
    · exact hs.handling t' c guard rest hpc
    · exact (hs.ready t' _ hitem).1
  · rw [threads_after_of_ne hne] at hpc
    exact hs.handling t' c guard rest hpc

theorem Wired.after_setsUp {t' : Nat} (hpc : ((s.after t o).threads t').pc.SetsUp c) :
    t' = 0 ∧ c < (s.after t o).accepted := by
  have hle : s.accepted ≤ (s.after t o).accepted := by
    rcases h.accepted with heq | ⟨heq, -⟩ <;> omega
  by_cases hne : t' = t
  · subst hne
    rw [threads_after_self] at hpc
    rcases h.setsUp hpc with hbefore | ⟨rfl, hitem, haccepted⟩
    · have := hs.setsUp t' c hbefore
      omega
    · exact ⟨hs.ready t' .accept hitem, by omega⟩
  · rw [threads_after_of_ne hne] at hpc
    have := hs.setsUp t' c hpc
    omega

/-- While thread 0 sets a connection up, no other thread changes its stage. -/
theorem Wired.stage_of_setsUp {t' : Nat} (hne : t' ≠ t) (hpc : (s.threads t').pc.SetsUp c) :
    ((s.after t o).slots c).stage = (s.slots c).stage := by
  refine h.stage_eq fun hown => hne ?_
  rw [(hs.setsUp t' c hpc).1, (hs.setsUp t c hown).1]

theorem Wired.after_accepting {t' : Nat} {fd : Fd} {rest : List Ready}
    (hpc : ((s.after t o).threads t').pc = .accepted c fd rest) :
    ((s.after t o).slots c).stage = .construct := by
  by_cases hne : t' = t
  · subst hne
    rw [threads_after_self] at hpc
    have hstage : ((s.after t' o).slots c).stage = (s.slots c).stage := by
      refine stage_apply fun heffect => ?_
      cases h with
      | construct | insert | onConnect | establish => cases hpc
      | _ => exact heffect
    rw [hstage]
    rcases h.accepting hpc with hbefore | ⟨rfl, -⟩
    · exact hs.accepting t' c fd rest hbefore
    · exact hs.fresh _ (Nat.le_refl _)
  · rw [threads_after_of_ne hne] at hpc
    rw [hs.stage_of_setsUp h hne (by rw [hpc]; rfl)]
    exact hs.accepting t' c fd rest hpc

theorem Wired.after_establishing {t' : Nat} {rest : List Ready}
    (hpc : ((s.after t o).threads t').pc = .newConnection c rest) :
    ((s.after t o).slots c).stage ≠ .construct ∧ ((s.after t o).slots c).stage ≠ .done := by
  by_cases hne : t' = t
  · subst hne
    rw [threads_after_self] at hpc
    by_cases heffect : o.effect.SetsUp c
    · refine ⟨h.setUp_constructed hs heffect, ?_⟩
      cases h with
      | construct =>
          obtain rfl := heffect
          change (Function.update s.slots _ _ _).stage ≠ _
          rw [Function.update_self]
          nofun
      | @insert c' _ ok hthread hstage =>
          obtain rfl : c' = c := heffect
          change ((s.newConnection t' c' ok).slots c').stage ≠ _
          rw [slots_newConnection, Function.update_self, Slot.establish, hstage]
          nofun
      | onConnect => cases hpc
      | @establish c' _ ok hthread hconstructed hinsert hbefore =>
          obtain rfl : c' = c := heffect
          change ((s.newConnection t' c' ok).slots c').stage ≠ _
          rw [slots_newConnection, Function.update_self]
          exact Slot.establish_ne_done ok hbefore
      | _ => exact heffect.elim
    · have hstage : ((s.after t' o).slots c).stage = (s.slots c).stage := stage_apply heffect
      rw [hstage]
      cases h with
      | construct | insert | establish =>
          cases hpc
          exact absurd rfl heffect
      | handleRead =>
          dsimp only at hpc
          split at hpc <;> cases hpc
      | _ hthread =>
          first
            | exact hs.establishing t' c rest (by rw [hthread]; exact hpc)
            | cases hpc
  · rw [threads_after_of_ne hne] at hpc
    rw [hs.stage_of_setsUp h hne (by rw [hpc]; rfl)]
    exact hs.establishing t' c rest hpc

theorem Wired.after : (s.after t o).Wired where
  loop_le c := by
    rw [threadNums_after]
    exact hs.after_loop_le h c
  next_lt := by
    rw [threadNums_after]
    exact hs.after_next_lt
  fresh _ := hs.after_fresh h
  early _ := hs.after_early h
  epoll _ _ _ _ := hs.after_epoll h
  ready _ _ := hs.after_ready h
  handling _ _ _ _ := hs.after_handling h
  setsUp _ _ := hs.after_setsUp h
  accepting _ _ _ _ := hs.after_accepting h
  establishing _ _ _ := hs.after_establishing h

end Step

/-- In every run, whatever thread ids and `epoll_ctl` are. -/
theorem wired_of_reachable {ok : Server → Nat × Move → Prop}
    (hs : Machine.Reachable Server.step ok Fresh s) : s.Wired := by
  refine hs.invariant (fun _ hs => hs.wired) fun s action s' _ hinv _ hstep => ?_
  obtain ⟨-, o, hgoes, rfl⟩ := step_cases hstep
  exact hinv.after hgoes

end Server

end EpollServer
