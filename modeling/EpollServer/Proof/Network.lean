import EpollServer.Network
import EpollServer.Proof.Batches
import EpollServer.Proof.Callbacks
import EpollServer.Proof.Resting

/-!
# Each connection of the server, alone

`Network.endpoint` is what one connection of the server is by itself: its session, its socket and its item. What
`epoll_wait` returned of it and its thread has not come to yet counts as handled. Whatever the other connections
and threads do, a step of the server is then a step of this endpoint, or nothing. So what holds of one connection
with one thread holds of each connection of the server.
-/

namespace EpollServer

/-- The step of an endpoint that its peer takes. -/
def Peer.action : Peer → Endpoint.Action
  | .arrive bytes => .arrive bytes
  | .fin => .fin
  | .drain => .drain

theorem Endpoint.step_peer {e : Endpoint} {event : Peer} {socket : Socket}
    (h : e.socket.peer event = some socket) : e.step event.action
      = some { e with socket := socket, item := { e.item with ready := true } } := by
  cases event with
  | arrive =>
      obtain ⟨hopen, heq⟩ := Option.ite_none_right_eq_some.mp h
      cases heq
      exact if_pos hopen
  | fin =>
      obtain ⟨hopen, heq⟩ := Option.ite_none_right_eq_some.mp h
      cases heq
      exact if_pos hopen
  | drain =>
      obtain ⟨hfull, heq⟩ := Option.ite_none_right_eq_some.mp h
      cases heq
      exact if_pos hfull

theorem Session.Fresh.handleEvent {s : Session} (hs : s.Fresh) {events : EpollEvents}
    (hread : events.isReadable = false) (hwrite : events.isWritable = false) : (s.handleEvent events).Fresh :=
  ⟨handleEvent_unhandled hread hwrite, hs.history, hs.state, hs.callback, hs.reader, hs.size_le, hs.sendBuffer⟩

theorem Socket.received_of_peer {k k' : Socket} {event : Peer} {read : List UInt8}
    (h : k.peer event = some k') (hk : k.received = read ++ k.recvQueue) : k'.received = read ++ k'.recvQueue := by
  cases event with
  | arrive bytes =>
      obtain ⟨-, h⟩ := Option.ite_none_right_eq_some.mp h
      cases h
      rw [hk, List.append_assoc]
  | fin | drain =>
      obtain ⟨-, h⟩ := Option.ite_none_right_eq_some.mp h
      cases h
      exact hk

namespace Network

variable {n n' : Network} {action : Action} {t c : Nat} {move : Move} {o : Outcome} {full : Bool}

/-- **What a step of a thread can do.** -/
theorem step_thread (h : n.step (.thread t move full) = some n') :
    t ≤ n.server.threadNums ∧ n.Waits t move ∧ ∃ o sockets, Server.Goes n.server t move o ∧
      n.server.step (t, move) = some (n.server.after t o) ∧ n.answer o.effect full = some sockets ∧
        n' = n.after t move o sockets := by
  obtain ⟨⟨ht, hwaits⟩, h⟩ := Option.ite_none_right_eq_some.mp h
  obtain ⟨o, hcontrol, h⟩ := Option.bind_eq_some_iff.mp h
  obtain ⟨sockets, hanswer, h⟩ := Option.bind_eq_some_iff.mp h
  refine ⟨ht, hwaits, o, sockets, Server.goes_control hcontrol, ?_, hanswer, (Option.some.inj h).symm⟩
  rw [Server.step, if_pos ht, hcontrol]
  rfl

theorem step_peer {k : Nat} {event : Peer} (h : n.step (.peer k event) = some n') :
    ∃ socket, (n.sockets k).peer event = some socket ∧ n' = { n with
      sockets := Function.update n.sockets k socket
      ready := Function.update n.ready k true } := by
  obtain ⟨socket, hpeer, h⟩ := Option.bind_eq_some_iff.mp h
  exact ⟨socket, hpeer, (Option.some.inj h).symm⟩

/-- The steps of the server in which `epoll_ctl` succeeds. -/
def Registers (n : Network) : Action → Prop
  | .peer _ _ => True
  | .thread t move _ => n.server.Registers (t, move)

instance (n : Network) : (action : Action) → Decidable (n.Registers action)
  | .peer _ _ => .isTrue trivial
  | .thread t move _ => inferInstanceAs (Decidable (n.server.Registers (t, move)))

/-- The server before its first connection; whatever the peers have sent is unread. -/
structure Fresh (n : Network) : Prop where
  server : n.server.Fresh
  exactTid : n.server.ExactTid
  received : ∀ k, (n.sockets k).received = (n.sockets k).recvQueue

theorem server_of_reachable {ok : Network → Action → Prop} {ok' : Server → Nat × Move → Prop}
    (hok : ∀ n t move full, ok n (.thread t move full) → ok' n.server (t, move))
    (hn : Machine.Reachable Network.step ok Fresh n) :
    Machine.Reachable Server.step ok' (fun s => s.Fresh ∧ s.ExactTid) n.server := by
  refine hn.map Network.server (fun n hn => .init ⟨hn.server, hn.exactTid⟩) fun n action n' _ hadmits h => ?_
  cases action with
  | peer k event =>
      obtain ⟨socket, -, rfl⟩ := step_peer h
      exact .inl rfl
  | thread t move full =>
      obtain ⟨-, -, o, sockets, -, hstep, -, rfl⟩ := step_thread h
      exact .inr ⟨(t, move), hok n t move full hadmits, hstep⟩

section Kernel

variable {sockets : Nat → Socket} {label : Label} {session : Session}

/-- A system call of a connection is answered by its own socket. -/
theorem answer_session (hfile : n.server.files (n.server.slots c).fd = some c)
    (hanswer : n.answer (.session c label session) full = some sockets) :
    (∀ k ≠ c, sockets k = n.sockets k) ∧
      ((∃ events, label = .event events) → sockets c = n.sockets c) ∧
      ∀ e : Endpoint, e.socket = n.sockets c → (∀ events, label ≠ .event events) →
        e.answer label full = some (sockets c) := by
  cases label with
  | read count r =>
      rw [answer, hfile] at hanswer
      obtain ⟨socket, hread, rfl⟩ := Option.map_eq_some_iff.mp hanswer
      refine ⟨fun k hk => Function.update_of_ne hk _ _, by simp, fun e he _ => ?_⟩
      rw [Function.update_self, Endpoint.answer, he, hread]
  | write bytes r =>
      rw [answer, hfile] at hanswer
      obtain rfl := Option.some.inj hanswer
      refine ⟨fun k hk => Function.update_of_ne hk _ _, by simp, fun e he _ => ?_⟩
      rw [Function.update_self, Endpoint.answer, he]
  | event events =>
      obtain rfl := Option.some.inj hanswer
      exact ⟨fun k _ => rfl, fun _ => rfl, fun e _ h => absurd rfl (h events)⟩
  | call | tau | epollCtl | onMessage | onClose =>
      obtain rfl := Option.some.inj hanswer
      exact ⟨fun k _ => rfl, fun _ => rfl, fun e he _ => congrArg some he⟩

theorem answer_silent {effect : Effect} (heffect : ∀ c label session, effect ≠ .session c label session)
    (hanswer : n.answer effect full = some sockets) : sockets = n.sockets := by
  cases effect with
  | session c label session => exact absurd rfl (heffect c label session)
  | _ => exact (Option.some.inj hanswer).symm

theorem undateChannel_of_ne {slot : Slot} {ok : Bool} {k : Nat} (hfile : n.server.files slot.fd = some k)
    (hne : c ≠ k) : n.undateChannel slot ok c = n.ready c := by
  rw [undateChannel, hfile]
  exact Function.update_of_ne hne _ _

theorem undateChannel_self {slot : Slot} {ok : Bool} (hfile : n.server.files slot.fd = some c) :
    n.undateChannel slot ok c
      = ((⟨.none, (n.server.epoll slot.eventLoop slot.fd).isSome && n.ready c⟩ : EpollItem).ctl
          slot.session.conn.channel.listeningEvents (n.sockets c).current ok).ready := by
  rw [undateChannel, hfile]
  exact Function.update_self ..

end Kernel

/-- Connection `c` by itself. -/
def endpoint (n : Network) (c : Nat) : Endpoint where
  session := ((n.server.threads (n.server.slots c).eventLoop).pc.reported c).elim
    (n.server.slots c).session (n.server.slots c).session.handleEvent
  socket := n.sockets c
  item := ⟨(n.server.slots c).session.conn.channel.listeningEvents, n.ready c⟩

/-- The step of connection `c` in a step of the server. -/
def projects (n : Network) (c : Nat) : Action → Option Endpoint.Action
  | .peer k event => if k = c then some event.action else none
  | .thread _ (.epollWait ready) _ => if c ∈ ready.filterMap Ready.conn? then some .epollWait else none
  | .thread t (.run label) full =>
      if n.server.runs (t, .run label) = some (c, label) then some (.run label full) else none
  | .thread _ (.accept _) _ | .thread _ (.construct _ _ _) _ | .thread _ (.next _) _ => none

/-- `ConnectionEstablished` has enabled reading on connection `c`, and `ConnectionDestructor` has not run. -/
structure Up (n : Network) (c : Nat) : Prop where
  enabled : Stage.enableRead.index < (n.server.slots c).stage.index
  registered : (n.server.slots c).unregistered = 0

theorem Up.constructed (hup : n.Up c) : (n.server.slots c).stage ≠ .construct := by
  intro hstage
  have henabled := hup.enabled
  rw [hstage] at henabled
  exact absurd henabled (by decide)

theorem Up.file (hup : n.Up c) (hs : n.server.Regular) :
    n.server.files (n.server.slots c).fd = some c := by
  obtain ⟨-, hh, hsound⟩ := hs.sound
  exact (hsound.present hh hup.constructed hup.registered).2.2

/-- The item of a connection is in the epoll set of its loop, with what its channel listens to. -/
theorem Up.entry (hup : n.Up c) (hs : n.server.Regular) :
    n.server.epoll (n.server.slots c).eventLoop (n.server.slots c).fd
      = some (c, (n.server.slots c).session.conn.channel.listeningEvents) := by
  obtain ⟨events, hentry, -⟩ :=
    (Server.registered_of_reachable hs.registering).watched hup.enabled hup.registered
  rw [hentry, Server.listening_of_reachable hs.fresh _ _ _ _ hentry]

theorem Up.idle_of_waiting (hs : n.server.Regular)
    (hpc : (n.server.threads (n.server.slots c).eventLoop).pc = .epollWait) :
    (n.server.slots c).session.stack = [] := by
  by_contra hbusy
  obtain ⟨guard, rest, hhandling⟩ := hs.busy c hbusy
  rw [hpc] at hhandling
  cases hhandling

/-- A connection in whose handlers something is left to do is registered. -/
theorem up_of_busy (hs : n.server.Regular) (hbusy : (n.server.slots c).session.stack ≠ []) : n.Up c := by
  obtain ⟨hw, -, hsound⟩ := hs.sound
  obtain ⟨guard, rest, hpc⟩ := hs.busy c hbusy
  refine ⟨?_, hsound.handling _ c guard rest hpc⟩
  by_contra hearly
  exact hbusy (hw.early c (Nat.le_of_not_lt hearly)).stack

theorem endpoint_of_none
    (h : (n.server.threads (n.server.slots c).eventLoop).pc.reported c = none) : n.endpoint c = {
      session := (n.server.slots c).session
      socket := n.sockets c
      item := ⟨(n.server.slots c).session.conn.channel.listeningEvents, n.ready c⟩ } := by
  rw [endpoint, h]
  rfl

theorem endpoint_of_some {events : EpollEvents}
    (h : (n.server.threads (n.server.slots c).eventLoop).pc.reported c = some events) : n.endpoint c = {
      session := (n.server.slots c).session.handleEvent events
      socket := n.sockets c
      item := ⟨(n.server.slots c).session.conn.channel.listeningEvents, n.ready c⟩ } := by
  rw [endpoint, h]
  rfl

/-- While its handlers run, a connection is what its endpoint is. -/
theorem endpoint_of_handling (hs : n.server.Regular) {guard : Bool} {rest : List Ready}
    (hpc : (n.server.threads t).pc = .handleEvent c guard rest) : n.endpoint c = {
      session := (n.server.slots c).session
      socket := n.sockets c
      item := ⟨(n.server.slots c).session.conn.channel.listeningEvents, n.ready c⟩ } := by
  have hloop := ((Server.wired_of_reachable hs.fresh).handling t c guard rest hpc).eventLoop
  have hnone := (Server.distinct_of_reachable hs.fresh).reported_handling hpc
  refine endpoint_of_none ?_
  rw [hloop]
  exact hpc ▸ hnone

theorem listening_endpoint : (n.endpoint c).session.conn.channel.listeningEvents
    = (n.server.slots c).session.conn.channel.listeningEvents := by
  cases hcase : (n.server.threads (n.server.slots c).eventLoop).pc.reported c with
  | none => rw [endpoint_of_none hcase]
  | some events =>
      rw [endpoint_of_some hcase]
      rfl

theorem endpoint_congr
    (hreported : (n'.server.threads (n'.server.slots c).eventLoop).pc.reported c
      = (n.server.threads (n.server.slots c).eventLoop).pc.reported c)
    (hsession : (n'.server.slots c).session = (n.server.slots c).session)
    (hsocket : n'.sockets c = n.sockets c) (hready : n'.ready c = n.ready c) :
    n'.endpoint c = n.endpoint c := by
  rw [endpoint, endpoint, hreported, hsession, hsocket, hready]

section Step

variable (hs : n.server.Regular) (ht : t ≤ n.server.threadNums) (h : Server.Goes n.server t move o)
  {sockets : Nat → Socket} {label : Label} {session : Session}
include hs h

/-- After a step of the session of connection `c`. -/
theorem endpoint_after_session (heffect : o.effect = .session c label session) (hup : n.Up c)
    (hloop : (n.server.slots c).eventLoop = t) (hnone : o.thread.pc.reported c = none) :
    (n.after t move o sockets).endpoint c = {
      session := session
      socket := sockets c
      item := ⟨session.conn.channel.listeningEvents, (n.after t move o sockets).ready c⟩ } := by
  have hsession : ((n.after t move o sockets).server.slots c).session = session :=
    congrArg Slot.session (Server.slots_after_session heffect)
  have hfixed := (h.fixed (Server.wired_of_reachable hs.fresh) hup.constructed).2
  have hafter : ((n.server.after t o).threads ((n.server.after t o).slots c).eventLoop).pc.reported c = none := by
    rwa [hfixed, hloop, Server.threads_after_self]
  rw [endpoint_of_none (n := n.after t move o sockets) hafter, hsession]
  rfl

/-- What the dispatch of its channel does was done when `epoll_wait` returned. -/
theorem endpoint_dispatch {events : EpollEvents} (heffect : o.effect = .session c (.event events) session)
    (hup : n.Up c) (hanswer : n.answer o.effect full = some sockets) :
    (n.after t move o sockets).endpoint c = n.endpoint c := by
  obtain ⟨hloop, ⟨ok, rfl⟩, hbefore, hafter, rfl⟩ := h.of_dispatch (Server.wired_of_reachable hs.fresh)
    (Server.distinct_of_reachable hs.fresh) heffect
  rw [endpoint_after_session hs h heffect hup hloop hafter, endpoint_of_some (hloop.symm ▸ hbefore)]
  rw [heffect] at hanswer
  have hready : (n.after t (.next ok) o sockets).ready c = n.ready c := by
    simp [after, rearm, heffect, returns]
  rw [(answer_session (hup.file hs) hanswer).2.1 ⟨events, rfl⟩, hready]
  rfl

/-- `epoll_ctl` for a connection acts on the item that it already has. -/
theorem undateChannel_after (ok : Bool) (hup : n.Up c) :
    n.undateChannel ((n.server.after t o).slots c) ok c = ((⟨.none, n.ready c⟩ : EpollItem).ctl
      ((n.server.after t o).slots c).session.conn.channel.listeningEvents (n.sockets c).current ok).ready := by
  obtain ⟨hfd, hloop⟩ := h.fixed (Server.wired_of_reachable hs.fresh) hup.constructed
  rw [undateChannel_self (hfd ▸ hup.file hs), hfd, hloop, hup.entry hs]
  rfl

/-- A step of the handlers of connection `c` is a step of its endpoint. -/
theorem endpoint_run (heffect : o.effect = .session c label session) (hlabel : ∀ events, label ≠ .event events)
    (hok : move.CtlSucceeds) (hup : n.Up c) (hanswer : n.answer o.effect full = some sockets) :
    (n.endpoint c).step (.run label full) = some ((n.after t move o sockets).endpoint c) := by
  obtain ⟨hloop, rfl, -, hbefore, hafter, hstep⟩ := h.of_run (Server.wired_of_reachable hs.fresh)
    (Server.distinct_of_reachable hs.fresh) heffect hlabel
  rw [endpoint_after_session hs h heffect hup hloop hafter, endpoint_of_none (hloop.symm ▸ hbefore)]
  have hready : (n.after t (.run label) o sockets).ready c = n.rearm o.effect (n.server.after t o) c := by
    simp [after, returns]
  have hctl := undateChannel_after hs h true hup
  have hsession : ((n.server.after t o).slots c).session = session := by
    rw [Server.slots_after_session heffect]
  rw [hready]
  rw [heffect] at hanswer ⊢
  have hsocket := (answer_session (hup.file hs) hanswer).2.2
    (Endpoint.mk (n.server.slots c).session (n.sockets c)
      ⟨(n.server.slots c).session.conn.channel.listeningEvents, n.ready c⟩) rfl hlabel
  refine Option.bind_eq_some_iff.mpr ⟨_, hsocket, Option.bind_eq_some_iff.mpr ⟨_, hstep, congrArg some ?_⟩⟩
  congr 1
  cases label with
  | epollCtl ok =>
      obtain rfl : ok = true := hok
      rw [rearm, hctl, hsession]
      rfl
  | event events => exact absurd rfl (hlabel events)
  | _ =>
      rw [Session.listening_of_not_epollCtl hstep (by simp)]
      rfl

theorem answer_live {c' : Nat} (heffect : o.effect = .session c' label session)
    (hanswer : n.answer o.effect full = some sockets) : n.server.files (n.server.slots c').fd = some c' ∧
      ((n.server.after t o).slots c').fd = (n.server.slots c').fd ∧
        n.answer (.session c' label session) full = some sockets := by
  obtain ⟨hw, hh, hsound⟩ := hs.sound
  obtain ⟨-, hlive, -⟩ := h.of_session hsound hw hh heffect
  exact ⟨hlive.file, (h.fixed hw hlive.belongs.constructed).1, heffect ▸ hanswer⟩

/-- Only steps of its session change the socket of a connection. -/
theorem socket_other (heffect : ∀ label session, o.effect ≠ .session c label session)
    (hanswer : n.answer o.effect full = some sockets) : sockets c = n.sockets c := by
  by_cases hsession : ∃ c' label session, o.effect = .session c' label session
  · obtain ⟨c', label, session, hcase⟩ := hsession
    obtain ⟨hfile, -, hanswer⟩ := answer_live hs h hcase hanswer
    refine (answer_session hfile hanswer).1 c ?_
    rintro rfl
    exact heffect _ _ hcase
  · refine congrFun (answer_silent (fun c' label session heq => ?_) hanswer) c
    exact hsession ⟨c', label, session, heq⟩

/-- Only `epoll_ctl` and `epoll_wait` change the item of a connection. -/
theorem rearm_other (hctl : ∀ ok session, o.effect ≠ .session c (.epollCtl ok) session)
    (hconstruct : ∀ fd state tied ok, o.effect ≠ .construct c fd state tied ok)
    (hread : ∀ ok, o.effect = .establish c ok → (n.server.slots c).stage ≠ .enableRead)
    (hanswer : n.answer o.effect full = some sockets) :
    n.rearm o.effect (n.server.after t o) c = n.ready c := by
  obtain ⟨hw, hh, hsound⟩ := hs.sound
  cases hcase : o.effect with
  | session c' label session =>
      obtain ⟨hfile, hfd, -⟩ := answer_live hs h hcase hanswer
      cases label with
      | epollCtl ok =>
          refine undateChannel_of_ne (hfd ▸ hfile) ?_
          rintro rfl
          exact hctl ok session hcase
      | _ => rfl
  | construct c' fd state tied ok =>
      have hne : c ≠ c' := by
        rintro rfl
        exact hconstruct _ _ _ _ hcase
      refine undateChannel_of_ne ?_ hne
      cases h with
      | construct hthread =>
          cases hcase
          change n.server.files (Function.update n.server.slots _ _ _).fd = _
          rw [Function.update_self]
          exact hsound.accepted t c' fd _ (by rw [hthread])
      | _ => cases hcase
  | establish c' ok =>
      rw [rearm]
      split
      · rename_i hstage
        have hne : c ≠ c' := by
          rintro rfl
          exact hread ok hcase hstage
        have hconstructed := (h.establishing hw hcase).1
        refine undateChannel_of_ne ?_ hne
        rw [(h.fixed hw hconstructed).1]
        exact (hsound.present hh hconstructed (hsound.early hw (by rw [hstage])).2.2).2.2
      · rfl
  | _ => rfl

omit hs in
/-- What was returned of a connection stays in the batch of its loop. -/
theorem reported_other (hw : n.server.Wired) (hconstructed : (n.server.slots c).stage ≠ .construct)
    (heffect : ∀ label session, o.effect ≠ .session c label session)
    (hmove : ∀ ready, move ≠ .epollWait ready) (hrunning : o.thread.pc ≠ .aborted) :
    ((n.server.after t o).threads ((n.server.after t o).slots c).eventLoop).pc.reported c
      = (n.server.threads (n.server.slots c).eventLoop).pc.reported c := by
  rw [(h.fixed hw hconstructed).2]
  by_cases hl : (n.server.slots c).eventLoop = t
  · rw [hl, Server.threads_after_self]
    exact h.reported hrunning hmove fun events session => heffect _ _
  · rw [Server.threads_after_of_ne hl]

/-- Nothing else is a step of connection `c`. -/
theorem endpoint_other (heffect : ∀ label session, o.effect ≠ .session c label session)
    (hmove : ∀ ready, move ≠ .epollWait ready) (hrunning : o.thread.pc ≠ .aborted) (hup : n.Up c)
    (hregistered : ((n.server.after t o).slots c).unregistered = 0)
    (hanswer : n.answer o.effect full = some sockets) :
    (n.after t move o sockets).endpoint c = n.endpoint c := by
  have hw := Server.wired_of_reachable hs.fresh
  have hsocket := socket_other hs h heffect hanswer
  have hrearm : n.rearm o.effect (n.server.after t o) c = n.ready c := by
    refine rearm_other hs h (fun _ _ => heffect _ _) (fun _ _ _ _ hcase => ?_) (fun _ _ hstage => ?_) hanswer
    · exact hup.constructed (h.stage_of_construct hw hcase)
    · exact absurd hup.enabled (by rw [hstage]; decide)
  have hreported := reported_other h hw hup.constructed heffect hmove hrunning
  have hsession := h.session_late hw hup.enabled (hregistered.trans hup.registered.symm) heffect
  have hready : (n.after t move o sockets).ready c = n.ready c := by
    cases move with
    | epollWait ready => exact absurd rfl (hmove ready)
    | _ => exact (Bool.and_true _).trans hrearm
  exact endpoint_congr hreported hsession hsocket hready

omit h in
/-- `epoll_wait` takes the items of the connections whose channels it returns. -/
theorem returns_iff {ready : List Ready} (hready : ∀ item ∈ ready, n.server.Reports t item) :
    n.returns (.epollWait ready) c = true ↔ c ∈ ready.filterMap Ready.conn? := by
  obtain ⟨hw, hh, hsound⟩ := hs.sound
  have hfile {fd : Fd} {c' : Nat} {events : EpollEvents} (hmem : .conn fd c' events ∈ ready) :
      n.server.files fd = some c' := by
    obtain ⟨registered, hentry, -⟩ := Server.entry_of_reports (hready _ hmem)
    obtain ⟨hbelongs, rfl, -⟩ := hw.epoll _ _ _ _ hentry
    exact (hsound.present hh hbelongs.constructed (hsound.registered _ _ _ _ hentry)).2.2
  rw [returns, List.any_eq_true, List.mem_filterMap]
  constructor <;> rintro ⟨item, hmem, hitem⟩ <;> refine ⟨item, hmem, ?_⟩
  · cases item with
    | wakeup | accept => cases hitem
    | conn fd c' events => exact (hfile hmem).symm.trans (of_decide_eq_true hitem)
  · cases item with
    | wakeup | accept => cases hitem
    | conn fd c' events => exact decide_eq_true ((hfile hmem).trans hitem)

end Step

section EpollWait

variable {ready : List Ready} {sockets : Nat → Socket} (hs : n.server.Regular)
  (h : Server.Goes n.server t (.epollWait ready) o) (hanswer : n.answer o.effect full = some sockets)
include h hanswer

theorem after_epollWait : sockets = n.sockets ∧ (n.server.after t o).slots = n.server.slots ∧
    ∀ k, (n.after t (.epollWait ready) o sockets).ready k
      = (n.ready k && !n.returns (.epollWait ready) k) := by
  obtain ⟨-, -, heffect, -⟩ := h.of_epollWait
  refine ⟨answer_silent (by simp [heffect]) hanswer, ?_, fun k => ?_⟩
  · rw [Server.after, heffect]
    rfl
  · rw [after, heffect]
    rfl

include hs

omit hanswer in
/-- It returns ready items. -/
theorem ready_of_returned (hwaits : n.Waits t (.epollWait ready)) (hmem : c ∈ ready.filterMap Ready.conn?) :
    n.ready c = true := by
  have hreturned := (returns_iff hs h.of_epollWait.2.1).mpr hmem
  rw [returns, List.any_eq_true] at hreturned
  obtain ⟨item, hitem, hfile⟩ := hreturned
  cases item with
  | wakeup | accept => cases hfile
  | conn fd c' events =>
      have hannounced : n.poll t fd = some events := hwaits _ hitem
      obtain ⟨k, hk, hannounced⟩ := Option.bind_eq_some_iff.mp hannounced
      obtain ⟨entry, -, hannounced⟩ := Option.bind_eq_some_iff.mp hannounced
      obtain rfl : k = c := Option.some.inj (hk.symm.trans (of_decide_eq_true hfile))
      exact (Option.ite_none_right_eq_some.mp hannounced).1

/-- `epoll_wait` dispatches the items of the connections that it returns. -/
theorem endpoint_returned (hwaits : n.Waits t (.epollWait ready)) (hup : n.Up c)
    (hmem : c ∈ ready.filterMap Ready.conn?) :
    (n.endpoint c).step .epollWait = some ((n.after t (.epollWait ready) o sockets).endpoint c) := by
  obtain ⟨hthread, hready, -, hpc⟩ := h.of_epollWait
  obtain ⟨hsockets, hslots, hitems⟩ := after_epollWait h hanswer
  have hw := Server.wired_of_reachable hs.fresh
  obtain ⟨hloop, events, hitem⟩ := hw.loop_of_returned hready hmem
  have hentry := hup.entry hs
  rw [hloop] at hentry
  have hannounced (events : EpollEvents) (h : n.Announces t (.conn (n.server.slots c).fd c events)) :
      n.ready c = true ∧
        events = (n.sockets c).current.reported (n.server.slots c).session.conn.channel.listeningEvents := by
    rw [Announces, poll, hup.file hs, hentry] at h
    obtain ⟨hnotified, hevents⟩ := Option.ite_none_right_eq_some.mp h
    exact ⟨hnotified, (Option.some.inj hevents).symm⟩
  have hwaiting : (n.server.threads (n.server.slots c).eventLoop).pc = .epollWait := by rw [hloop, hthread]
  -- the events that are returned are those that hold
  have hreported : ((n.server.after t o).threads ((n.server.after t o).slots c).eventLoop).pc.reported c
      = some ((n.sockets c).current.reported (n.server.slots c).session.conn.channel.listeningEvents) := by
    rw [hslots, hloop, Server.threads_after_self, hpc]
    cases hcase : (Pc.batch ready).reported c with
    | none => exact absurd hitem (Pc.reported_eq_none_iff.mp hcase _ _)
    | some events' =>
        obtain ⟨fd, hitem'⟩ := Pc.mem_of_reported hcase
        obtain ⟨-, rfl, -⟩ := hw.expected (hready _ hitem')
        rw [(hannounced _ (hwaits _ hitem')).2]
  have hnotified := (hannounced _ (hwaits _ hitem)).1
  have hquiet : (n.after t (.epollWait ready) o sockets).ready c = false := by
    rw [hitems, (returns_iff hs hready).mpr hmem, Bool.not_true, Bool.and_false]
  rw [endpoint_of_some (n := n.after t (.epollWait ready) o sockets) hreported,
    endpoint_of_none (by rw [hwaiting]; rfl), hquiet]
  refine (if_pos ⟨Up.idle_of_waiting hs hwaiting, hnotified⟩).trans ?_
  change _ = some (Endpoint.mk (((n.server.after t o).slots c).session.handleEvent _) (sockets c)
    ⟨((n.server.after t o).slots c).session.conn.channel.listeningEvents, false⟩)
  rw [hslots, hsockets]

theorem endpoint_not_returned (hmem : c ∉ ready.filterMap Ready.conn?) :
    (n.after t (.epollWait ready) o sockets).endpoint c = n.endpoint c := by
  obtain ⟨hthread, hready, -, hpc⟩ := h.of_epollWait
  obtain ⟨hsockets, hslots, hitems⟩ := after_epollWait h hanswer
  refine endpoint_congr ?_ (congrArg Slot.session (congrFun hslots c)) (congrFun hsockets c) ?_
  · change ((n.server.after t o).threads ((n.server.after t o).slots c).eventLoop).pc.reported c = _
    rw [hslots]
    by_cases hl : (n.server.slots c).eventLoop = t
    · rw [hl, Server.threads_after_self, hpc, hthread]
      exact Pc.reported_eq_none_iff.mpr fun fd events hitem =>
        hmem (List.mem_filterMap.mpr ⟨_, hitem, rfl⟩)
    · rw [Server.threads_after_of_ne hl]
  · rw [hitems, Bool.eq_false_iff.mpr fun hreturned => hmem ((returns_iff hs hready).mp hreturned)]
    exact Bool.and_true _

end EpollWait

theorem running_after (hs : n.server.Regular) (ht : t ≤ n.server.threadNums) (hok : n.server.Registers (t, move))
    (hstep : n.server.step (t, move) = some (n.server.after t o)) : o.thread.pc ≠ .aborted := by
  have hregular : (n.server.after t o).Regular := .step hs hok hstep
  have hpc := hregular.running (t := t) (by rwa [Server.threadNums_after])
  rwa [Server.threads_after_self] at hpc

/-- **A step of the server is a step of each of its connections**, or leaves the connection alone. -/
theorem endpoint_step (hs : n.server.Regular) (hok : n.Registers action) (h : n.step action = some n')
    (hup : n.Up c) (hregistered : (n'.server.slots c).unregistered = 0) :
    Machine.Follows Endpoint.step (n.projects c action) (n.endpoint c) (n'.endpoint c) := by
  cases action with
  | peer k event =>
      obtain ⟨socket, hpeer, rfl⟩ := step_peer h
      by_cases hk : k = c
      · subst hk
        have hstep := Endpoint.step_peer (e := n.endpoint k) hpeer
        rw [projects, if_pos rfl]
        refine hstep.trans (congrArg some ?_)
        simp [endpoint]
      · rw [projects, if_neg hk]
        exact endpoint_congr rfl rfl (Function.update_of_ne (Ne.symm hk) _ _)
          (Function.update_of_ne (Ne.symm hk) _ _)
  | thread t move full =>
      obtain ⟨ht, hwaits, o, sockets, hgoes, hstep, hanswer, rfl⟩ := step_thread h
      have hw := Server.wired_of_reachable hs.fresh
      have hdistinct := Server.distinct_of_reachable hs.fresh
      by_cases hsession : ∃ label session, o.effect = .session c label session
      · obtain ⟨label, session, heffect⟩ := hsession
        by_cases hevent : ∃ events, label = .event events
        · obtain ⟨events, rfl⟩ := hevent
          obtain ⟨-, ⟨ok, rfl⟩, -⟩ := hgoes.of_dispatch hw hdistinct heffect
          exact endpoint_dispatch hs hgoes heffect hup hanswer
        · obtain ⟨-, rfl, hruns, -⟩ := hgoes.of_run hw hdistinct heffect (not_exists.mp hevent)
          rw [projects, if_pos hruns]
          exact endpoint_run hs hgoes heffect (not_exists.mp hevent) hok hup hanswer
      · have hnot : ∀ label session, o.effect ≠ .session c label session := fun label session heq =>
          hsession ⟨label, session, heq⟩
        have hrunning := running_after hs ht hok hstep
        cases move with
        | epollWait ready =>
            by_cases hmem : c ∈ ready.filterMap Ready.conn?
            · rw [projects, if_pos hmem]
              exact endpoint_returned hs hgoes hanswer hwaits hup hmem
            · rw [projects, if_neg hmem]
              exact endpoint_not_returned hs hgoes hanswer hmem
        | run label =>
            have hruns : n.server.runs (t, .run label) ≠ some (c, label) := by
              intro hruns
              obtain ⟨-, session, heffect⟩ := hgoes.of_runs hruns
              exact hnot _ _ heffect
            rw [projects, if_neg hruns]
            exact endpoint_other hs hgoes hnot (by simp) hrunning hup hregistered hanswer
        | accept | construct | next =>
            exact endpoint_other hs hgoes hnot (by simp) hrunning hup hregistered hanswer

/-- Each byte that arrived was read by its own connection, or is still to be read. -/
def Kept (n : Network) : Prop :=
  ∀ c, (n.sockets c).received = (n.server.slots c).session.history.consumed ++ (n.sockets c).recvQueue

theorem Fresh.kept (hn : n.Fresh) : n.Kept := by
  intro c
  rw [hn.received, hn.server.slots]
  rfl

theorem Kept.step (hn : n.Kept) (hs : n.server.Regular) (h : n.step action = some n') : n'.Kept := by
  intro c
  cases action with
  | peer k event =>
      obtain ⟨socket, hpeer, rfl⟩ := step_peer h
      by_cases hc : c = k
      · subst hc
        have hkept := Socket.received_of_peer hpeer (hn c)
        simpa using hkept
      · simpa [hc] using hn c
  | thread t move full =>
      obtain ⟨ht, -, o, sockets, hgoes, -, hanswer, rfl⟩ := step_thread h
      have hw := Server.wired_of_reachable hs.fresh
      change (sockets c).received = ((n.server.after t o).slots c).session.history.consumed
        ++ (sockets c).recvQueue
      by_cases hsession : ∃ label session, o.effect = .session c label session
      · obtain ⟨label, session, heffect⟩ := hsession
        obtain ⟨hfile, -, hanswer⟩ := answer_live hs hgoes heffect hanswer
        obtain ⟨-, hevent, hcall⟩ := answer_session hfile hanswer
        rw [Server.slots_after_session heffect, Session.step_consumed (hgoes.session heffect).1]
        by_cases hlabel : ∃ events, label = .event events
        · rw [hevent hlabel, hn c]
          obtain ⟨events, rfl⟩ := hlabel
          exact congrArg (· ++ (n.sockets c).recvQueue) (List.append_nil _).symm
        · obtain ⟨hqueue, -, hreceived, -⟩ :=
            Endpoint.answer_spec (hcall (n.endpoint c) rfl (not_exists.mp hlabel))
          rw [hreceived, List.append_assoc, ← hqueue]
          exact hn c
      · have hnot : ∀ label session, o.effect ≠ .session c label session := fun label session heq =>
          hsession ⟨label, session, heq⟩
        obtain ⟨conn, hframe⟩ := hgoes.session_frame hw hnot
        rw [socket_other hs hgoes hnot hanswer, hframe]
        exact hn c

/-- `EnableRead` makes an endpoint of a connection. -/
theorem endpoint_fresh (hs : n.server.Regular) (hok : n.Registers action) (h : n.step action = some n')
    (hkept : n'.Kept) (hbefore : (n.server.slots c).stage.index ≤ Stage.enableRead.index) (hup : n'.Up c) :
    (n'.endpoint c).Fresh := by
  obtain ⟨hw, hh, hsound⟩ := hs.sound
  have hearly := hw.early c hbefore
  cases action with
  | peer k event =>
      obtain ⟨socket, -, rfl⟩ := step_peer h
      exact absurd hup.enabled (Nat.not_lt.mpr hbefore)
  | thread t move full =>
      obtain ⟨ht, -, o, sockets, hgoes, hstep, hanswer, rfl⟩ := step_thread h
      have hregular : (n.server.after t o).Regular := .step hs hok hstep
      obtain ⟨hstage, hslot, -⟩ :=
        hgoes.enableRead hw (Server.enablesRead_of_ctlSucceeds hok) hbefore hup.enabled
      have hlistening : ((n.server.after t o).slots c).session.conn.channel.listeningEvents.epollin = true :=
        (Server.registered_of_reachable hregular.registering).listening hup.enabled
      have heffect : o.effect = .establish c true := by
        have hsetsUp : o.effect.SetsUp c := by
          by_contra hnot
          have hsame : ((n.server.after t o).slots c).stage = (n.server.slots c).stage := Server.stage_apply hnot
          exact absurd (hsame ▸ hup.enabled) (Nat.not_lt.mpr hbefore)
        cases hcase : o.effect with
        | construct c' fd state tied ok =>
            rw [hcase] at hsetsUp
            obtain rfl : c' = c := hsetsUp
            rw [hgoes.stage_of_construct hw hcase] at hstage
            cases hstage
        | establish c' ok =>
            rw [hcase] at hsetsUp
            obtain rfl : c' = c := hsetsUp
            obtain rfl := hgoes.move_of_establish hcase
            obtain rfl : ok = true := hok
            rfl
        | _ =>
            rw [hcase] at hsetsUp
            exact hsetsUp.elim
      have hconstructed : (n.server.slots c).stage ≠ .construct := by rw [hstage]; decide
      have hfile : n.server.files ((n.server.after t o).slots c).fd = some c := by
        rw [(hgoes.fixed hw hconstructed).1]
        exact (hsound.present hh hconstructed (hsound.early hw hbefore).2.2).2.2
      have hsession : ((n.server.after t o).slots c).session.Fresh := by
        rw [hslot]
        exact hearly.fresh hstage
      obtain rfl := hgoes.move_of_establish heffect
      have hsocket : sockets c = n.sockets c := congrFun (answer_silent (by simp [heffect]) hanswer) c
      have hready : (n.after t (.next true) o sockets).ready c
          = n.undateChannel ((n.server.after t o).slots c) true c := by
        rw [after, heffect, rearm, if_pos hstage]
        exact Bool.and_true _
      have hreported := reported_other hgoes hw hconstructed (by simp [heffect]) (by simp)
        (running_after hs ht hok hstep)
      have hfresh : ((n.after t (.next true) o sockets).endpoint c).session.Fresh := by
        cases hcase : (n.server.threads (n.server.slots c).eventLoop).pc.reported c with
        | none =>
            rw [endpoint_of_none (n := n.after t (.next true) o sockets) (hreported.trans hcase)]
            exact hsession
        | some events =>
            obtain ⟨fd, hitem⟩ := Pc.mem_of_reported hcase
            obtain ⟨hread, hwrite⟩ := (hw.ready _ _ hitem).2.2 hbefore
            rw [endpoint_of_some (n := n.after t (.next true) o sockets) (hreported.trans hcase)]
            exact hsession.handleEvent hread hwrite
      refine ⟨hfresh, ?_, listening_endpoint.symm, fun hunread => ?_, ?_⟩
      · rw [listening_endpoint]
        exact hlistening
      · change (n.after t (.next true) o sockets).ready c = true
        have hin : (sockets c).current.epollin = true := Endpoint.current_of_unread hunread
        rw [hready, undateChannel_self hfile, ← hsocket]
        exact Endpoint.ready_ctl (.inl ⟨hin, hlistening⟩)
      · have hreceived := hkept c
        change (sockets c).received = ((n.server.after t o).slots c).session.history.consumed ++ _ at hreceived
        rw [hsession.history] at hreceived
        exact hreceived

/-- A connection is not registered again. -/
theorem Up.before (hs : n.server.Regular) (h : n.step action = some n') (hup : n'.Up c)
    (henabled : Stage.enableRead.index < (n.server.slots c).stage.index) : n.Up c := by
  refine ⟨henabled, ?_⟩
  have hregistered := hup.registered
  cases action with
  | peer k event =>
      obtain ⟨socket, -, rfl⟩ := step_peer h
      exact hregistered
  | thread t move full =>
      obtain ⟨hw, -, hsound⟩ := hs.sound
      obtain ⟨ht, -, o, sockets, hgoes, -, -, rfl⟩ := step_thread h
      change ((n.server.after t o).slots c).unregistered = 0 at hregistered
      rw [(hsound.counts hw ht hgoes c).unregistered] at hregistered
      omega

theorem kept_of_reachable {ok : Network → Action → Prop}
    (hregisters : ∀ n action, ok n action → n.Registers action)
    (hn : Machine.Reachable Network.step ok Fresh n) : n.server.Regular ∧ n.Kept := by
  have hregular {n : Network} (hn : Machine.Reachable Network.step ok Fresh n) : n.server.Regular :=
    server_of_reachable (fun n t move full hok => hregisters n (.thread t move full) hok) hn
  refine ⟨hregular hn, hn.invariant (fun _ hn => hn.kept) fun n action n' hn hinv _ h => ?_⟩
  exact hinv.step (hregular hn) h

/-- **Each connection alone.** If its endpoint admits what the server admits of a connection, then the endpoint is
one that a connection with a thread of its own can reach. -/
theorem endpoint_of_reachable {ok : Network → Action → Prop} {ok' : Endpoint → Endpoint.Action → Prop}
    (hregisters : ∀ n action, ok n action → n.Registers action)
    (hadmits : ∀ n action a, n.server.Regular → n.Up c → ok n action → n.projects c action = some a →
      ok' (n.endpoint c) a)
    (hn : Machine.Reachable Network.step ok Fresh n) (hup : n.Up c) :
    Machine.Reachable Endpoint.step ok' Endpoint.Fresh (n.endpoint c) := by
  induction hn with
  | init hn =>
      have henabled := hup.enabled
      rw [hn.server.slots] at henabled
      exact absurd henabled (by decide)
  | @step n n' action hn hok h ih =>
      obtain ⟨hs, hkept⟩ := kept_of_reachable hregisters hn
      by_cases henabled : Stage.enableRead.index < (n.server.slots c).stage.index
      · have hbefore := hup.before hs h henabled
        have hfollows := endpoint_step hs (hregisters n action hok) h hbefore hup.registered
        cases hcase : n.projects c action with
        | none =>
            rw [hcase] at hfollows
            rw [show n'.endpoint c = n.endpoint c from hfollows]
            exact ih hbefore
        | some a =>
            rw [hcase] at hfollows
            exact .step (ih hbefore) (hadmits n action a hs hbefore hok hcase) hfollows
      · exact .init (endpoint_fresh hs (hregisters n action hok) h (hkept.step hs h) (Nat.le_of_not_lt henabled)
          hup)

end Network

end EpollServer
