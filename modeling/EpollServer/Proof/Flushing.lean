import EpollServer.Proof.Stranding
import EpollServer.Proof.Writing

/-!
# Output that waits

Bytes that stay in the send buffer are sent only when the item becomes ready for writing. Every way to leave
them there ends in `EnableWrite`, except a `write` that took only a part, and that one leaves the send queue
full. So what is buffered is announced, or waits for the send queue to drain.
-/

namespace EpollServer

namespace Op

variable {c c' : Connection} {op : Op} {label : Label} {ops : List Op}

/-- Whoever leaves bytes in the send buffer registers the channel again, found some there, or wrote only
part of them. -/
theorem Exec.buffered (h : Exec c op label c' ops) (hb : c.sendBuffer.Ok) (hsoft : label.isHard = false)
    (hrest : c'.sendBuffer.readable ≠ []) : Op.enableWrite ∈ ops ∨ c.sendBuffer.readable ≠ [] ∧
      (op = .handleWrite → ∃ bytes count, label = .write bytes (.accepted count) ∧ count < bytes.length) := by
  cases h with
  | writeFailed hop | writeAll hop | queueNone hop =>
      exact .inr ⟨hrest, fun h => (h ▸ hop).elim⟩
  | writePart | queueAll | send2 | flushRetry => exact .inl List.mem_cons_self
  | @flush count buffer hcount hretrieve =>
      rw [(hb.of_retrieve hcount hretrieve).2.1] at hrest
      have hlt : count < c.sendBuffer.readable.length := by
        by_contra hge
        exact hrest (List.drop_eq_nil_of_le (Nat.le_of_not_lt hge))
      exact .inr ⟨fun h => by simp [h] at hlt, fun _ => ⟨_, count, rfl, hlt⟩⟩
  | flushFailed hhard => exact absurd (hhard.symm.trans hsoft) (by decide)
  | retrieveNone hretrieve =>
      rw [(hb.of_retrieve (Nat.zero_le _) hretrieve).2.1] at hrest
      exact .inr ⟨hrest, nofun⟩
  | @read r =>
      obtain ⟨_, _, _, _, _, hframe⟩ := c.readNonBlocking_frame r
      rw [hframe] at hrest
      exact .inr ⟨hrest, nofun⟩
  | _ => exact .inr ⟨hrest, nofun⟩

theorem Exec.enableWrite_label (h : Exec c .enableWrite label c' ops) : ∃ ok, label = .epollCtl ok ∧
    c'.channel.listeningEvents
      = c.channel.listeningEvents.union { EpollEvents.none with epollout := true } := by
  cases h with
  | enableWrite => exact ⟨_, rfl, by simp [Channel.enableWrite, Channel.listen]⟩
  | writeFailed hop | writeAll hop | writePart hop | queueNone hop | queueAll hop => exact hop.elim

end Op

namespace Endpoint

variable {n n' : Endpoint} {action : Action}

/-- Registrations succeed and no `write` fails for good. -/
def Flushes (_ : Endpoint) : Action → Prop
  | .run (.epollCtl ok) _ => ok = true
  | .run (.write _ r) _ => r.isHard = false
  | _ => True

instance (n : Endpoint) : (action : Action) → Decidable (n.Flushes action)
  | .run (.epollCtl ok) _ => inferInstanceAs (Decidable (ok = true))
  | .run (.write _ r) _ => inferInstanceAs (Decidable (r.isHard = false))
  | .run (.event _) _ | .run (.call _) _ | .run .tau _ | .run (.read _ _) _ | .run (.onMessage _) _
  | .run .onClose _ => .isTrue trivial
  | .arrive _ | .fin | .drain | .epollWait => .isTrue trivial

theorem Flushes.soft {label : Label} {full : Bool} (h : n.Flushes (.run label full)) :
    label.isHard = false := by
  cases label with
  | write => exact h
  | _ => rfl

/-- Buffered bytes are listened for, and announced unless the send queue is full. -/
structure Flushing (n : Endpoint) : Prop where
  events : n.item.events = n.session.conn.channel.listeningEvents
  listening : n.session.conn.sendBuffer.readable ≠ [] →
    n.session.conn.channel.listeningEvents.epollout = true ∨ Op.enableWrite ∈ n.session.stack
  buffered : n.session.conn.sendBuffer.readable ≠ [] → n.item.ready = true ∨
    n.socket.sendFull = true ∨ Op.handleWrite ∈ n.session.stack ∨ Op.enableWrite ∈ n.session.stack

theorem Fresh.flushing (hn : n.Fresh) : n.Flushing := by
  have hempty : n.session.conn.sendBuffer.readable = [] := by rw [hn.session.sendBuffer]; rfl
  exact ⟨hn.events, fun h => absurd hempty h, fun h => absurd hempty h⟩

theorem Flushing.epollout (hn : n.Flushing) (hidle : n.session.stack = [])
    (hrest : n.session.conn.sendBuffer.readable ≠ []) : n.item.events.epollout = true := by
  rw [hn.events]
  refine (hn.listening hrest).resolve_right fun h => ?_
  rw [hidle] at h
  exact absurd h List.not_mem_nil

theorem Flushing.handleWrite_mem (hn : n.Flushing) (hidle : n.session.stack = [])
    (hrest : n.session.conn.sendBuffer.readable ≠ []) (hroom : n.socket.sendFull = false) :
    .handleWrite ∈ (n.session.handleEvent (n.socket.current.reported n.item.events)).stack := by
  have hout := hn.epollout hidle hrest
  have hwritable : (n.socket.current.reported n.item.events).isWritable = true := by
    simp [EpollEvents.reported, EpollEvents.isWritable, Socket.current, hroom, hout]
  simp [Session.handleEvent, Connection.handleEventWithGuard, Channel.setReadyEvents, hwritable]

theorem Flushing.epollWait (hn : n.Flushing) (hidle : n.session.stack = []) : Flushing { n with
    session := n.session.handleEvent (n.socket.current.reported n.item.events)
    item := { n.item with ready := false } } := by
  refine ⟨hn.events, fun hrest => .inl (hn.events ▸ hn.epollout hidle hrest), fun hrest => ?_⟩
  cases hfull : n.socket.sendFull with
  | true => exact .inr (.inl rfl)
  | false => exact .inr (.inr (.inl (hn.handleWrite_mem hidle hrest hfull)))

theorem ready_ctl {item : EpollItem} {events current : EpollEvents}
    (h : (current.epollin = true ∧ events.epollin = true) ∨
      current.epollout = true ∧ events.epollout = true) :
    (item.ctl events current true).ready = true := by
  rcases h with ⟨hcurrent, hevents⟩ | ⟨hcurrent, hevents⟩ <;>
    simp [EpollItem.ctl, EpollEvents.reported, EpollEvents.none, hcurrent, hevents]

section Run

variable {op : Op} {rest ops : List Op} {conn : Connection} {label : Label} {socket : Socket}
  {full : Bool}

/-- When `EnableWrite` runs, unread input and a send queue with room are announced. -/
theorem ready_enableWrite {session : Session} (hok : n.Flushes (.run label full))
    (hexec : Op.enableWrite.Exec n.session.conn label conn ops) (hsession : session.conn = conn)
    (h : n.socket.current.epollin = true ∧ n.session.conn.channel.listeningEvents.epollin = true ∨
      n.socket.current.epollout = true) : (n.rearm session label).ready = true := by
  obtain ⟨ok, rfl, hlistening⟩ := hexec.enableWrite_label
  obtain rfl : ok = true := hok
  refine ready_ctl ?_
  rw [hsession, hlistening]
  refine h.imp (And.imp_right fun hin => ?_) fun hout => ⟨hout, ?_⟩
  · exact Bool.or_eq_true_iff.mpr (.inl hin)
  · exact Bool.or_eq_true_iff.mpr (.inr rfl)

theorem mem_rest {a : Op} (hstack : n.session.stack = op :: rest) (ha : a ∈ n.session.stack)
    (hne : op ≠ a) : a ∈ ops ++ rest := by
  rw [hstack] at ha
  exact List.mem_append_right ops ((List.mem_cons.mp ha).resolve_left (Ne.symm hne))

theorem Flushing.events_run (hn : n.Flushing) (hexec : op.Exec n.session.conn label conn ops)
    (hok : n.Flushes (.run label full)) {session : Session} (hsession : session.conn = conn) :
    (n.rearm session label).events = conn.channel.listeningEvents := by
  cases label with
  | epollCtl ok =>
      obtain rfl : ok = true := hok
      rw [← hsession]
      rfl
  | _ =>
      have hlistening : conn.channel.listeningEvents = n.session.conn.channel.listeningEvents :=
        hexec.listening.resolve_right fun ⟨hop, _⟩ => by
          subst hop
          obtain ⟨ok, hlabel, -⟩ := hexec.enableWrite_label
          cases hlabel
      exact hn.events.trans hlistening.symm

theorem Flushing.listening_run (hn : n.Flushing) (hb : n.session.conn.sendBuffer.Ok)
    (hstack : n.session.stack = op :: rest) (hexec : op.Exec n.session.conn label conn ops)
    (hsoft : label.isHard = false) (hrest : conn.sendBuffer.readable ≠ []) :
    conn.channel.listeningEvents.epollout = true ∨ Op.enableWrite ∈ ops ++ rest := by
  have hkeep (hout : n.session.conn.channel.listeningEvents.epollout = true) :
      conn.channel.listeningEvents.epollout = true := by
    rcases hexec.listening with heq | ⟨-, heq⟩ <;> rw [heq]
    · exact hout
    · exact Bool.or_eq_true_iff.mpr (.inl hout)
  rcases hexec.buffered hb hsoft hrest with hmem | ⟨hbefore, -⟩
  · exact .inr (List.mem_append_left rest hmem)
  · rcases hn.listening hbefore with hout | hmem
    · exact .inl (hkeep hout)
    · by_cases hop : op = .enableWrite
      · subst hop
        obtain ⟨-, -, hlistening⟩ := hexec.enableWrite_label
        exact .inl (hlistening ▸ Bool.or_eq_true_iff.mpr (.inr rfl))
      · exact .inr (mem_rest hstack hmem hop)

theorem Flushing.buffered_run (hn : n.Flushing) (hb : n.session.conn.sendBuffer.Ok)
    (hstack : n.session.stack = op :: rest) (hexec : op.Exec n.session.conn label conn ops)
    (hok : n.Flushes (.run label full)) (hsoft : label.isHard = false)
    (hanswer : n.answer label full = some socket) (hrest : conn.sendBuffer.readable ≠ [])
    {session : Session} (hsession : session.conn = conn) : (n.rearm session label).ready = true ∨
      socket.sendFull = true ∨ Op.handleWrite ∈ ops ++ rest ∨ Op.enableWrite ∈ ops ++ rest := by
  rcases hexec.buffered hb hsoft hrest with hmem | ⟨hbefore, hpart⟩
  · exact .inr (.inr (.inr (List.mem_append_left rest hmem)))
  · rcases hn.buffered hbefore with hready | hfull | hmem | hmem
    · exact .inl (ready_rearm session label hready)
    · exact .inr (.inl ((answer_spec hanswer).2.2.2 hfull))
    · by_cases hop : op = .handleWrite
      · obtain ⟨bytes, count, rfl, hlt⟩ := hpart hop
        cases hanswer
        exact .inr (.inl (by simp [Socket.write, hlt]))
      · exact .inr (.inr (.inl (mem_rest hstack hmem hop)))
    · by_cases hop : op = .enableWrite
      · subst hop
        cases hfull : n.socket.sendFull with
        | true => exact .inr (.inl ((answer_spec hanswer).2.2.2 hfull))
        | false =>
            have hout : n.socket.current.epollout = true := by simp [Socket.current, hfull]
            exact .inl (ready_enableWrite hok hexec hsession (.inr hout))
      · exact .inr (.inr (.inr (mem_rest hstack hmem hop)))

end Run

theorem Flushing.step (hn : n.Flushing) (hb : n.session.conn.sendBuffer.Ok) (hok : n.Flushes action)
    (h : n.step action = some n') : n'.Flushing := by
  cases moves_of_step h with
  | arrive | fin | drain => exact ⟨hn.events, hn.listening, fun _ => .inl rfl⟩
  | epollWait hidle => exact hn.epollWait hidle
  | run hanswer hsession =>
      rcases run_cases hanswer hsession with ⟨hidle, f, rfl, rfl, rfl⟩ |
        ⟨op, rest, conn, ops, hstack, hexec, rfl⟩
      · refine ⟨hn.events, fun hrest => .inl (hn.events ▸ hn.epollout hidle hrest), fun hrest => ?_⟩
        have hbuffered := hn.buffered hrest
        rw [hidle] at hbuffered
        exact hbuffered.imp_right (Or.imp_right fun h => absurd h (by simp))
      · refine ⟨hn.events_run hexec hok rfl, fun hrest => ?_, fun hrest => ?_⟩
        · exact hn.listening_run hb hstack hexec hok.soft hrest
        · exact hn.buffered_run hb hstack hexec hok hok.soft hanswer hrest rfl

theorem flushing_of_reachable (hn : Machine.Reachable Endpoint.step Flushes Fresh n) : n.Flushing :=
  hn.invariant (fun _ hn => hn.flushing) fun _ _ _ hn hinv hok h =>
    hinv.step (Session.buffer_ok_of_reachable (session_of_reachable hn)) hok h

/-- **Buffered output is never stranded.** Whatever was sent, and however the writes went: when no handler
and no call is running and bytes are left in the send buffer, then they are listened for, and the item is
ready or the send queue is still full. -/
theorem no_stranded_output (hn : Machine.Reachable Endpoint.step Flushes Fresh n)
    (hidle : n.session.stack = []) (hrest : n.session.conn.sendBuffer.readable ≠ []) :
    n.item.events.epollout = true ∧ (n.item.ready = true ∨ n.socket.sendFull = true) := by
  have hflushing := flushing_of_reachable hn
  have hbuffered := hflushing.buffered hrest
  simp only [hidle, List.not_mem_nil, or_false] at hbuffered
  exact ⟨hflushing.epollout hidle hrest, hbuffered⟩

set_option maxRecDepth 10000 in
/-- A `Send` of which three bytes are taken; the queue drains, and the next `write` takes two more. -/
theorem no_stranded_output_part : ∃ n, Machine.Reachable Endpoint.step Flushes Fresh n ∧
    n.session.conn.sendBuffer.readable = [0, 0, 1, 7] ∧ n.socket.sendFull = true ∧
      n.item.events.epollout = true := by
  have hfresh := fresh_connectionEstablished 0 5 .invalid false ⟨[], false, false, []⟩ rfl
  obtain ⟨n, hrun, hidle, hrest, hfull⟩ : ∃ n,
      Machine.run Endpoint.step Flushes {
          session := .new (((Connection.new 0 5 .invalid false
            true).setCloseCallback.setMessageCallback).connectionEstablished true)
          socket := ⟨[], false, false, []⟩
          item := ⟨⟨true, true, false, false, false, false, true⟩, false⟩ }
        [.run (.call (.send [7] 8388608)) false,
          .run (.write [0, 0, 0, 0, 0, 0, 0, 1, 7] (.accepted 3)) false, .run (.epollCtl true) false,
          .drain, .epollWait, .run (.write [0, 0, 0, 0, 1, 7] (.accepted 2)) false] = some n ∧
      n.session.stack = [] ∧ n.session.conn.sendBuffer.readable = [0, 0, 1, 7] ∧
      n.socket.sendFull = true := ⟨_, rfl, rfl, rfl, rfl⟩
  have hn : Machine.Reachable Endpoint.step Flushes Fresh n := .run (.init hfresh) hrun
  exact ⟨n, hn, hrest, hfull, (no_stranded_output hn hidle (hrest ▸ by decide)).1⟩

end Endpoint

end EpollServer
