import EpollServer.Proof.Answering
import EpollServer.Proof.CloseProtocol

/-!
# Events reach their own connections

A batch of `epoll_wait` holds bare pointers to channels. A connection is deregistered between two batches of
its loop only, so that `Server.Sound` makes every pointer of a batch one to a connection whose descriptor
still denotes its socket. So reads and writes are those of the connection's own socket, and what an echo
server's session says about its bytes (`Session.Serving`) is true of the socket.

Sockets are numbered in the order in which `accept4` returned them, as the connections made for them are.
-/

namespace EpollServer

open Framing

namespace Server

variable {s s' : Server} {t c : Nat} {move : Move} {o : Outcome}

/-- The connection exists, thread `t` serves it, and its descriptor denotes the socket that it was accepted
with. -/
structure Live (s : Server) (t : Nat) (fd : Fd) (c : Nat) : Prop where
  belongs : s.Belongs t c
  fd_eq : (s.slots c).fd = fd
  unexpired : (s.slots c).expired = false
  unclosed : (s.slots c).closed = 0
  file : s.files fd = some c

section Live

variable (hs : s.Sound) (hw : s.Wired) (hh : s.Homed)
include hs hw hh

theorem Sound.live_of_ready {fd : Fd} {events : EpollEvents}
    (hitem : .conn fd c events ∈ (s.threads t).pc.ready) : s.Live t fd c := by
  obtain ⟨hbelongs, rfl, -⟩ := hw.ready t _ hitem
  obtain ⟨hexpired, hclosed, hfile⟩ := hs.present hh hbelongs.constructed (hs.ready t _ c events hitem)
  exact ⟨hbelongs, rfl, hexpired, hclosed, hfile⟩

theorem Sound.live_of_handling {guard : Bool} {rest : List Ready}
    (hpc : (s.threads t).pc = .handleEvent c guard rest) : s.Live t (s.slots c).fd c := by
  have hbelongs := hw.handling t c guard rest hpc
  obtain ⟨hexpired, hclosed, hfile⟩ :=
    hs.present hh hbelongs.constructed (hs.handling t c guard rest hpc)
  exact ⟨hbelongs, rfl, hexpired, hclosed, hfile⟩

theorem Goes.of_session (h : Goes s t move o) {label : Label} {session : Session}
    (heffect : o.effect = .session c label session) :
    (s.slots c).session.step label = some session ∧ s.Live t (s.slots c).fd c ∧
      ((∃ events, label = .event events) ∨
        move = .run label ∧ ∃ guard rest, (s.threads t).pc = .handleEvent c guard rest) := by
  obtain ⟨hstep, ⟨fd, events, rfl, hitem⟩ | ⟨-, hmove, guard, rest, hpc⟩⟩ := h.session heffect
  · have hlive := hs.live_of_ready hw hh hitem
    exact ⟨hstep, hlive.fd_eq ▸ hlive, .inl ⟨events, rfl⟩⟩
  · exact ⟨hstep, hs.live_of_handling hw hh hpc, .inr ⟨hmove, guard, rest, hpc⟩⟩

end Live

section Fields

variable (s : Server) (t c : Nat)

theorem bytes_runSession (label : Label) {session : Session}
    (hfile : s.files session.conn.clientFd = some c) :
    (s.runSession t c label session).input = Function.update s.input c (s.input c ++ label.bytesRead) ∧
      (s.runSession t c label session).output
        = Function.update s.output c (s.output c ++ label.written) := by
  cases label with
  | read | write =>
      simp only [runSession, setSession, setSlot, Function.update_self, Slot.fd, hfile,
        Label.bytesRead, Label.written, List.append_nil, Function.update_eq_self, and_self]
  | _ =>
      simp only [Label.bytesRead, Label.written, List.append_nil, Function.update_eq_self]
      exact ⟨rfl, rfl⟩

theorem bytes_apply {effect : Effect} (heffect : ∀ c label session, effect ≠ .session c label session) :
    (s.apply t effect).input = s.input ∧ (s.apply t effect).output = s.output := by
  cases effect with
  | session c label session => exact absurd rfl (heffect c label session)
  | establish c ok =>
      obtain ⟨_, _, _, hframe⟩ := s.newConnection_frame t c ok
      rw [apply, hframe]
      exact ⟨rfl, rfl⟩
  | handleCloseInLoop loop c =>
      cases h : s.connectionsMap (s.slots c).fd with
      | none =>
          rw [apply, handleCloseInLoop_of_none s t c h]
          exact ⟨rfl, rfl⟩
      | some e =>
          rw [apply, handleCloseInLoop_of_some s t c h]
          exact ⟨rfl, rfl⟩
  | _ => exact ⟨rfl, rfl⟩

/-- An effect on a connection sets it up, is a step of its session, or leaves all of the session but the
channel alone. -/
theorem touched_cases {effect : Effect} {slot : Slot} (htouched : s.touched effect = some (c, slot)) :
    effect.SetsUp c ∨
      (∃ label session, effect = .session c label session ∧ slot = { s.slots c with session := session }) ∨
      slot.stage = (s.slots c).stage ∧ ∃ channel, slot.session = { (s.slots c).session with
        conn := { (s.slots c).session.conn with channel := channel } } := by
  cases effect with
  | construct | establish =>
      cases htouched
      exact .inl rfl
  | session c' label session =>
      cases htouched
      exact .inr (.inl ⟨label, session, rfl, rfl⟩)
  | handleCloseInLoop l c' =>
      obtain ⟨e, -, heq⟩ := Option.map_eq_some_iff.mp htouched
      cases heq
      exact .inr (.inr ⟨rfl, _, rfl⟩)
  | connectionDestructor | expire | close =>
      cases htouched
      exact .inr (.inr ⟨rfl, _, rfl⟩)
  | none | copy | drop | accept => cases htouched

end Fields

/-- Besides the steps of its session, nothing changes more of it than its connection. -/
theorem Goes.session_frame (h : Goes s t move o) (hw : s.Wired)
    (heffect : ∀ label session, o.effect ≠ .session c label session) :
    ∃ conn, ((s.after t o).slots c).session = { (s.slots c).session with conn := conn } := by
  change ∃ conn, ((s.apply t o.effect).slots c).session = _
  rcases s.slots_apply_cases t c o.effect with heq | ⟨slot, htouched, heq⟩
  · exact ⟨_, congrArg Slot.session heq⟩
  · rw [heq]
    rcases s.touched_cases c htouched with hsetsUp | ⟨label, session, hsession, -⟩ | ⟨-, channel, hsession⟩
    · cases heq' : o.effect with
      | construct c' fd state tied ok =>
          rw [heq'] at htouched
          cases htouched
          have hearly := hw.early c (by rw [h.stage_of_construct hw heq']; decide)
          exact ⟨_, congrArg₂ (Session.mk _) hearly.stack.symm hearly.history.symm⟩
      | establish c' ok =>
          rw [heq'] at htouched
          cases htouched
          obtain ⟨stage, conn, hgoOn⟩ := (s.slots c).establish_frame ok
          exact ⟨conn, by rw [hgoOn]; rfl⟩
      | _ =>
          rw [heq'] at hsetsUp
          exact hsetsUp.elim
    · exact absurd hsession (heffect label session)
    · exact ⟨_, hsession⟩

/-- A session is that of an echo server if the connection is set up. -/
def Serves (s : Server) (c : Nat) : Prop :=
  Stage.onConnect.index ≤ (s.slots c).stage.index → (s.slots c).session.Serving

theorem Goes.setUp_session (h : Goes s t move o) (hw : s.Wired) (heffect : o.effect.SetsUp c)
    (hs : s.Serves c) :
    ((s.after t o).slots c).session.history = (s.slots c).session.history ∧ (s.after t o).Serves c := by
  have hestablish (ok : Bool) (hslot : (s.after t o).slots c = (s.slots c).establish ok) :
      ((s.after t o).slots c).session.history = (s.slots c).session.history ∧
        (s.after t o).Serves c := by
    rw [Serves, hslot]
    obtain ⟨stage, conn, hgoOn⟩ := (s.slots c).establish_frame ok
    refine ⟨by rw [hgoOn]; rfl, fun hstage => ?_⟩
    cases hbefore : (s.slots c).stage with
    | enableRead => exact ((hw.early c (by rw [hbefore])).fresh hbefore).serving
    | onConnect =>
        have hserving := hs (by rw [hbefore])
        rwa [Slot.establish, hbefore]
    | done =>
        have hserving := hs (by rw [hbefore]; decide)
        rwa [Slot.establish, hbefore]
    | construct | setCallbacks | insert | setConnected | tie =>
        simp [Slot.establish, hbefore, Slot.goOn, Stage.index] at hstage
  cases h with
  | @construct c' fd rest state tied ok hthread =>
      obtain rfl := heffect
      have hearly := hw.early c' (by rw [hw.accepting t c' fd rest (by rw [hthread])]; decide)
      have hslot : (s.after t (s.goOn t (.construct c' fd state tied ok) (.newConnection c' rest) [])).slots c'
          = .new (.new s.nextEventLoop.1 fd state tied ok) := by
        change Function.update s.slots _ _ _ = _
        rw [Function.update_self]
      rw [Serves, hslot]
      exact ⟨hearly.history.symm, fun hstage => absurd hstage (by simp [Slot.new, Stage.index])⟩
  | @insert c' rest ok | @onConnect c' rest ok | @establish c' rest ok =>
      obtain rfl : c' = c := heffect
      refine hestablish ok ?_
      change (s.newConnection t c' ok).slots c' = _
      rw [slots_newConnection, Function.update_self]
  | _ => exact heffect.elim

/-- The echo server's callbacks, where `epoll_ctl` succeeds. -/
def Echoes (s : Server) (action : Nat × Move) : Prop :=
  action.2.CtlSucceeds ∧ ∀ step ∈ s.runs action, (s.slots step.1).session.Echoes step.2

instance (s : Server) (action : Nat × Move) : Decidable (s.Echoes action) := by
  unfold Echoes
  infer_instance

/-- What each connection read and wrote is what was read from and written to its socket. -/
structure Traffic (s : Server) : Prop where
  input : ∀ c, (s.slots c).session.history.consumed = s.input c
  output : ∀ c, (s.slots c).session.history.wire = s.output c
  serves : ∀ c, s.Serves c

theorem Fresh.traffic (hs : s.Fresh) : s.Traffic where
  input c := by
    rw [hs.slots, hs.input]
    rfl
  output c := by
    rw [hs.slots, hs.output]
    rfl
  serves c hstage := by
    rw [hs.slots] at hstage
    exact absurd hstage (by decide)

theorem Traffic.of_silent (hs : s.Traffic) (hw : s.Wired) (h : Goes s t move o)
    (heffect : ∀ c label session, o.effect ≠ .session c label session) : (s.after t o).Traffic := by
  obtain ⟨hinput, houtput⟩ := s.bytes_apply t heffect
  have hslot (c : Nat) : ((s.after t o).slots c).session.history = (s.slots c).session.history ∧
      (s.after t o).Serves c := by
    rcases s.slots_apply_cases t c o.effect with heq | ⟨slot, htouched, heq⟩
    · have hsame : (s.after t o).slots c = s.slots c := heq
      rw [Serves, hsame]
      exact ⟨rfl, hs.serves c⟩
    · rcases s.touched_cases c htouched with hsetsUp | ⟨label, session, hsession, -⟩ |
        ⟨hstage, channel, hsession⟩
      · exact h.setUp_session hw hsetsUp (hs.serves c)
      · exact absurd hsession (heffect c label session)
      · have hafter : (s.after t o).slots c = slot := heq
        rw [Serves, hafter, hstage, hsession]
        exact ⟨rfl, fun hlate => (hs.serves c hlate).setChannel channel⟩
  constructor
  case input =>
    intro c
    rw [(hslot c).1, hs.input]
    exact (congrFun hinput c).symm
  case output =>
    intro c
    rw [(hslot c).1, hs.output]
    exact (congrFun houtput c).symm
  case serves => exact fun c => (hslot c).2

theorem Traffic.of_session (hs : s.Traffic) {label : Label} {session : Session}
    (hstep : (s.slots c).session.step label = some session) (hlive : s.Live t (s.slots c).fd c)
    (hecho : (s.slots c).session.Echoes label) (heffect : o.effect = .session c label session) :
    (s.after t o).Traffic := by
  have hfile : s.files session.conn.clientFd = some c := by
    rw [(Session.step_fixed hstep).1]
    exact hlive.file
  obtain ⟨hinput, houtput⟩ := s.bytes_runSession t c label hfile
  have hself : (s.after t o).slots c = { s.slots c with session := session } := by
    change (s.apply t o.effect).slots c = _
    rw [heffect, apply, slots_runSession, Function.update_self]
  have hother {c' : Nat} (hc : c' ≠ c) : (s.after t o).slots c' = s.slots c' := by
    change (s.apply t o.effect).slots c' = _
    rw [heffect, apply, slots_runSession, Function.update_of_ne hc]
  have hinput' : (s.after t o).input = Function.update s.input c (s.input c ++ label.bytesRead) := by
    change (s.apply t o.effect).input = _
    rw [heffect, apply, hinput]
  have houtput' : (s.after t o).output = Function.update s.output c (s.output c ++ label.written) := by
    change (s.apply t o.effect).output = _
    rw [heffect, apply, houtput]
  constructor
  case input =>
    intro c'
    by_cases hc : c' = c
    · subst hc
      rw [hself, hinput', Function.update_self, Session.step_consumed hstep, hs.input]
    · rw [hother hc, hinput', Function.update_of_ne hc, hs.input]
  case output =>
    intro c'
    by_cases hc : c' = c
    · subst hc
      rw [hself, houtput', Function.update_self, Session.step_wire hstep, hs.output]
    · rw [hother hc, houtput', Function.update_of_ne hc, hs.output]
  case serves =>
    intro c'
    by_cases hc : c' = c
    · subst hc
      rw [Serves, hself]
      exact fun hstage => (hs.serves c' hstage).step hecho hstep
    · rw [Serves, hother hc]
      exact hs.serves c'

theorem Traffic.after (hs : s.Traffic) (hsound : s.Sound) (hw : s.Wired) (hh : s.Homed)
    (h : Goes s t move o) (hecho : s.Echoes (t, move)) : (s.after t o).Traffic := by
  by_cases hsession : ∃ c label session, o.effect = .session c label session
  · obtain ⟨c, label, session, heffect⟩ := hsession
    obtain ⟨hstep, hlive, horigin⟩ := h.of_session hsound hw hh heffect
    refine hs.of_session hstep hlive ?_ heffect
    rcases horigin with ⟨events, rfl⟩ | ⟨rfl, guard, rest, hpc⟩
    · trivial
    · have hruns : s.runs (t, .run label) = some (c, label) := by rw [runs, hpc]
      exact hecho.2 _ hruns
  · exact hs.of_silent hw h fun c label session heffect => hsession ⟨c, label, session, heffect⟩

theorem traffic_of_reachable
    (hs : Machine.Reachable Server.step Echoes Fresh s) :
    s.Wired ∧ s.Homed ∧ s.Sound ∧ s.Traffic := by
  induction hs with
  | init h => exact ⟨h.wired, h.homed, h.sound, h.traffic⟩
  | step hs hecho hstep ih =>
      obtain ⟨hw, hh, hsound, htraffic⟩ := ih
      obtain ⟨ht, o, hgoes, rfl⟩ := step_cases hstep
      exact ⟨hw.after hgoes, hh.after hw hgoes,
        hsound.after hw hh ht hgoes (deregisters_of_ctlSucceeds hecho.1),
        htraffic.after hsound hw hh hgoes hecho⟩

/-- **No event reaches a dead or a foreign connection.** Every channel of a batch that is still to be
handled is one of a live connection of that thread. So the bytes written to a socket are, in order, frames
with the bodies of the frames read from that socket, up to some byte, whoever had the descriptor before. -/
theorem dispatch_live
    (hs : Machine.Reachable Server.step Echoes (fun s => s.Fresh ∧ s.ExactTid) s) :
    (∀ t fd c events, .conn fd c events ∈ (s.threads t).pc.ready → s.Live t fd c) ∧
      ∀ k, s.output k <+: (bodies tlv (s.input k)).flatMap frameBytes := by
  obtain ⟨hw, hh, hsound, htraffic⟩ :=
    traffic_of_reachable (hs.mono (fun _ => And.left) fun _ _ => id)
  refine ⟨fun t fd c events hitem => hsound.live_of_ready hw hh hitem, fun k => ?_⟩
  rw [← htraffic.output, ← htraffic.input]
  by_cases hstage : Stage.onConnect.index ≤ (s.slots k).stage.index
  · exact (htraffic.serves k hstage).output_of_input
  · have hearly := hw.early k (by simp only [Stage.index] at hstage ⊢; omega)
    rw [hearly.history]
    exact List.nil_prefix

/-- The second owner of a descriptor gets a message and part of its echo. -/
def reuseEcho : List (Nat × Move) := reuse ++
  [(0, .next true), (0, .next true), (0, .next true), (0, .next true), (0, .next true),
    (0, .next true), (1, .next true),
    (1, .epollWait [.conn 7 1 { EpollEvents.none with epollin := true }]), (1, .next true),
    (1, .run .tau), (1, .run (.read 8 (.data [0, 0, 0, 0, 0, 0, 0, 1]))),
    (1, .run (.read 1 (.data [7]))), (1, .run (.onMessage [.send2 [7]])), (1, .run .tau),
    (1, .run (.epollCtl true)), (1, .run .tau), (1, .next true), (1, .next true), (1, .next true),
    (1, .next true), (1, .next true), (1, .next true),
    (1, .epollWait [.conn 7 1 { EpollEvents.none with epollout := true }]), (1, .next true),
    (1, .run (.write [0, 0, 0, 0, 0, 0, 0, 1, 7] (.accepted 5)))]

theorem dispatch_live_reuse : ∃ s : Server,
    Machine.Reachable Server.step Echoes (fun s => s.Fresh ∧ s.ExactTid) s ∧
      ((s.slots 0).closed = 1 ∧ s.files 7 = some 1) ∧ s.output 1 = [0, 0, 0, 0, 0] ∧
        s.output 1 <+: (bodies tlv (s.input 1)).flatMap frameBytes := by
  have hinit : Machine.Reachable Server.step Echoes (fun s => s.Fresh ∧ s.ExactTid) (start 1 id id) :=
    .init ⟨fresh_start 1 id id, exactTid_start 1⟩
  have hreuse : (Machine.run Server.step Echoes (start 1 id id) reuseEcho).map (fun s =>
      ((s.slots 0).closed, s.files 7, s.output 1)) = some (1, some 1, [0, 0, 0, 0, 0]) := by
    decide +kernel
  obtain ⟨s, hrun, hend⟩ := Option.map_eq_some_iff.mp hreuse
  simp only [Prod.mk.injEq] at hend
  have hs := hinit.run hrun
  exact ⟨s, hs, ⟨hend.1, hend.2.1⟩, hend.2.2, (dispatch_live hs).2 1⟩

end Server

end EpollServer
