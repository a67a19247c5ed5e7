import EpollServer.Lifetime
import EpollServer.Proof.HalfClose

/-!
# Replies at the end of a connection

What the echo server has not written when it closes a connection stays in the send buffer, and only an event
that comes before the channel is deleted can still flush it. So when the descriptor is closed every reply is
on the wire or in the send buffer, and the send buffer is empty if no `write` left anything behind.
-/

namespace EpollServer

namespace Lifetime

variable {l l' l₀ : Lifetime} {action : Action} {ok : Endpoint → Endpoint.Action → Prop}

/-- A connection just registered for reading. -/
structure Fresh (l : Lifetime) : Prop where
  endpoint : l.endpoint.Fresh
  erased : l.erased = false
  destructed : l.destructed = false
  registered : l.registered = true
  closed : l.closed = false

/-- A condition on the steps of the endpoint. -/
def Admits (ok : Endpoint → Endpoint.Action → Prop) (l : Lifetime) : Action → Prop
  | .endpoint action => ok l.endpoint action
  | _ => True

instance [∀ n action, Decidable (ok n action)] (l : Lifetime) (action : Action) :
    Decidable (Admits ok l action) := by
  cases action with
  | endpoint action => exact inferInstanceAs (Decidable (ok l.endpoint action))
  | _ => exact inferInstanceAs (Decidable True)

/-- What holds of an echo server's connection to its very end. -/
structure Kept (l : Lifetime) : Prop where
  serving : l.endpoint.session.Serving
  closing : l.endpoint.session.Closing
  ending : l.endpoint.Ending
  erased : l.erased = true → 0 < l.endpoint.session.history.closes
  destructed : l.destructed = true → l.erased = true
  closed : l.closed = true → l.destructed = true ∧ l.endpoint.session.stack = []

theorem Fresh.kept (hl : l.Fresh) : l.Kept := by
  have hsession := hl.endpoint.session
  refine ⟨hsession.serving, ?_, hl.endpoint.ending, fun h => ?_, fun h => ?_, fun h => ?_⟩
  · rw [Session.Closing, hsession.history, hsession.stack]
    exact Nat.zero_le _
  · exact absurd (hl.erased.symm.trans h) Bool.false_ne_true
  · exact absurd (hl.destructed.symm.trans h) Bool.false_ne_true
  · exact absurd (hl.closed.symm.trans h) Bool.false_ne_true

theorem Kept.step (hl : l.Kept) (hok : Admits Endpoint.Replies l action) (h : l.step action = some l') :
    l'.Kept := by
  obtain ⟨hopen, hcases⟩ := step_cases h
  rcases hcases with ⟨a, n, rfl, hstep, rfl⟩ | ⟨rfl, hcloses, rfl⟩ | ⟨ok, rfl, herased, -, rfl⟩ |
    ⟨rfl, hdestructed, hidle, rfl⟩
  · obtain ⟨hclosing, hmono⟩ := Endpoint.closing_step hl.closing hstep
    exact ⟨Endpoint.serving_step hl.serving hok hstep, hclosing, hl.ending.step hl.serving hok hstep,
      fun herased => Nat.lt_of_lt_of_le (hl.erased herased) hmono, hl.destructed,
      fun h => absurd (hopen.symm.trans h) Bool.false_ne_true⟩
  · exact ⟨hl.serving, hl.closing, hl.ending, fun _ => hcloses, fun _ => rfl, hl.closed⟩
  · have hending := hl.ending
    exact ⟨hl.serving.setChannel _, hl.closing,
      ⟨hending.state, hending.calls, hending.answered, hending.spent⟩, hl.erased, fun _ => herased,
      fun h => absurd (hopen.symm.trans h) Bool.false_ne_true⟩
  · exact ⟨hl.serving, hl.closing, hl.ending, hl.erased, hl.destructed, fun _ => ⟨hdestructed, hidle⟩⟩

theorem kept_of_reachable (hl : Machine.Reachable Lifetime.step (Admits Endpoint.Replies) Fresh l) : l.Kept :=
  hl.invariant (fun _ hl => hl.kept) fun _ _ _ _ hinv hok h => hinv.step hok h

/-- From the close on, what is in the send buffer was there before. -/
theorem drains_of_reachable (hl₀ : Machine.Reachable Lifetime.step (Admits Endpoint.Replies) Fresh l₀)
    (hstate : l₀.endpoint.session.conn.state = .disconected)
    (hl : Machine.Reachable Lifetime.step (Admits Endpoint.Replies) (· = l₀) l) :
    l.endpoint.session.conn.state = .disconected ∧
      l.endpoint.session.conn.sendBuffer.readable <:+ l₀.endpoint.session.conn.sendBuffer.readable := by
  induction hl with
  | init h =>
      subst h
      exact ⟨hstate, List.suffix_rfl⟩
  | step hl hok h ih =>
      obtain ⟨hstate, hsuffix⟩ := ih
      have hkept := kept_of_reachable (hl₀.trans hl)
      obtain ⟨-, hcases⟩ := step_cases h
      rcases hcases with ⟨a, n, rfl, hstep, rfl⟩ | ⟨rfl, -, rfl⟩ | ⟨ok, rfl, -, -, rfl⟩ | ⟨rfl, -, -, rfl⟩
      · exact ⟨Endpoint.disconected_step hstate hstep,
          (hkept.ending.drains_step hkept.serving (.inl hstate) hstep).trans hsuffix⟩
      · exact ⟨hstate, hsuffix⟩
      · exact ⟨hstate, hsuffix⟩
      · exact ⟨hstate, hsuffix⟩

theorem replies_of_flows
    (hl : Machine.Reachable Lifetime.step (Admits fun n action => n.Replies action ∧ n.Flows action)
      (fun l => l.Fresh ∧ l.endpoint.socket.sendFull = false) l) :
    Machine.Reachable Lifetime.step (Admits Endpoint.Replies) Fresh l :=
  hl.mono (fun _ hl => hl.1) fun l action hok => by
    cases action with
    | endpoint => exact hok.1
    | _ => trivial

theorem draining_of_reachable
    (hl : Machine.Reachable Lifetime.step (Admits fun n action => n.Replies action ∧ n.Flows action)
      (fun l => l.Fresh ∧ l.endpoint.socket.sendFull = false) l) : l.endpoint.Draining := by
  refine hl.invariant (fun _ hl => hl.1.endpoint.draining hl.2) fun l action l' hl hinv hok h => ?_
  have hkept := kept_of_reachable (replies_of_flows hl)
  obtain ⟨-, hcases⟩ := step_cases h
  rcases hcases with ⟨a, n, rfl, hstep, rfl⟩ | ⟨rfl, -, rfl⟩ | ⟨ok, rfl, -, -, rfl⟩ | ⟨rfl, -, -, rfl⟩
  · exact hinv.step hkept.ending hkept.serving hok.1 hok.2 hstep
  · exact hinv
  · have hflushing := hinv.flushing
    refine ⟨⟨?_, ?_, hflushing.buffered⟩, hinv.room, hinv.pending⟩
    · exact hflushing.events.trans (Channel.listeningEvents_deleteChannel _ ok).symm
    · intro hrest
      rw [connectionDestructor, Channel.listeningEvents_deleteChannel]
      exact hflushing.listening hrest
  · exact hinv

/-- **Every reply is on the wire or in the send buffer when the descriptor is closed.** Whatever arrived and
however the writes went, the bytes that the kernel took and those in the send buffer are the replies to all
messages delivered; what is left was there when the connection closed; and nothing is left if every `write`
took all it was given. -/
theorem replies_accounted (hl : Machine.Reachable Lifetime.step (Admits Endpoint.Replies) Fresh l)
    (hclosed : l.closed = true) :
    l.endpoint.session.history.wire ++ l.endpoint.session.conn.sendBuffer.readable
        = l.endpoint.session.history.seen.flatMap frameBytes ∧
      (∀ l₀, Machine.Reachable Lifetime.step (Admits Endpoint.Replies) Fresh l₀ →
        l₀.endpoint.session.conn.state = .disconected →
          Machine.Reachable Lifetime.step (Admits Endpoint.Replies) (· = l₀) l →
            l.endpoint.session.conn.sendBuffer.readable
              <:+ l₀.endpoint.session.conn.sendBuffer.readable) ∧
      (Machine.Reachable Lifetime.step (Admits fun n action => n.Replies action ∧ n.Flows action)
          (fun l => l.Fresh ∧ l.endpoint.socket.sendFull = false) l →
        l.endpoint.session.conn.sendBuffer.readable = []) := by
  have hkept := kept_of_reachable hl
  obtain ⟨hdestructed, hidle⟩ := hkept.closed hclosed
  refine ⟨?_, fun l₀ hl₀ hstate hl => (drains_of_reachable hl₀ hstate hl).2, fun hflows => ?_⟩
  · have hstream := hkept.serving.sending.stream
    have hanswered := hkept.ending.answered
    rw [hidle, List.flatMap_nil, List.append_nil] at hstream hanswered
    rw [hstream, hanswered]
  · have hstate := hkept.closing.disconected (hkept.erased (hkept.destructed hdestructed))
    by_contra hrest
    have hmem := (draining_of_reachable hflows).pending (.inl (.inl hstate)) hrest
    rw [hidle] at hmem
    exact absurd hmem List.not_mem_nil

/-- A connection of the echo server that is registered for reading, with an empty socket. -/
def established : Lifetime where
  endpoint := {
    session := .new (((Connection.new 0 5 .invalid false
      true).setCloseCallback.setMessageCallback).connectionEstablished true)
    socket := ⟨[], false, false, []⟩
    item := ⟨⟨true, true, false, false, false, false, true⟩, false⟩ }
  erased := false
  destructed := false
  registered := true
  closed := false

theorem fresh_established : established.Fresh :=
  ⟨Endpoint.fresh_connectionEstablished 0 5 .invalid false ⟨[], false, false, []⟩ rfl, rfl, rfl, rfl, rfl⟩

set_option maxRecDepth 10000 in
/-- A message and the end of the stream arrive together; the reply is flushed in the event that closes. -/
theorem replies_accounted_flushed : ∃ l : Lifetime, Machine.Reachable step (Admits Endpoint.Replies) Fresh l ∧
    l.closed = true ∧ l.endpoint.session.conn.sendBuffer.readable = [] ∧
      l.endpoint.session.history.wire = [0, 0, 0, 0, 0, 0, 0, 1, 7] := by
  obtain ⟨l, hrun, hclosed, hseen⟩ : ∃ l : Lifetime,
      Machine.run step (Admits fun n action => n.Replies action ∧ n.Flows action) established
        [.endpoint (.arrive [0, 0, 0, 9, 0, 0, 0, 1, 7]), .endpoint .fin, .endpoint .epollWait,
          .endpoint (.run .tau false), .endpoint (.run (.read 8 (.data [0, 0, 0, 9, 0, 0, 0, 1])) false),
          .endpoint (.run (.read 1 (.data [7])) false), .endpoint (.run (.onMessage [.send2 [7]]) false),
          .endpoint (.run .tau false), .endpoint (.run (.epollCtl true) false),
          .endpoint (.run .tau false), .endpoint .epollWait, .endpoint (.run .tau false),
          .endpoint (.run (.read 8 (.data [])) false), .endpoint (.run .tau false),
          .endpoint (.run .onClose false), .handleCloseInLoop, .endpoint (.run .tau false),
          .endpoint (.run (.write [0, 0, 0, 0, 0, 0, 0, 1, 7] (.accepted 9)) false),
          .connectionDestructor true, .destructor] = some l ∧
      l.closed = true ∧ l.endpoint.session.history.seen = [[7]] := ⟨_, rfl, rfl, rfl⟩
  have hl : Machine.Reachable step (Admits fun n action => n.Replies action ∧ n.Flows action)
      (fun l => l.Fresh ∧ l.endpoint.socket.sendFull = false) l := .run (.init ⟨fresh_established, rfl⟩) hrun
  obtain ⟨hstream, -, hflows⟩ := replies_accounted (replies_of_flows hl) hclosed
  have hempty := hflows hl
  rw [hempty, List.append_nil, hseen] at hstream
  exact ⟨l, replies_of_flows hl, hclosed, hempty, hstream⟩

set_option maxRecDepth 10000 in
/-- The kernel takes four bytes of the reply, then the peer ends the stream: the connection is closed with
the rest of the reply in its send buffer. -/
theorem reply_lost : ¬∀ l : Lifetime, Machine.Reachable step (Admits Endpoint.Replies) Fresh l →
    (∃ fs : List (Framing.Frame tlv), l.endpoint.socket.received = Framing.encode fs) → l.closed = true →
      l.endpoint.session.conn.sendBuffer.readable = [] := by
  intro hflushed
  obtain ⟨l, hrun, hreceived, hclosed, hrest⟩ : ∃ l : Lifetime,
      Machine.run step (Admits Endpoint.Replies) established
        [.endpoint (.arrive [0, 0, 0, 0, 0, 0, 0, 1, 7]), .endpoint .epollWait,
          .endpoint (.run .tau false), .endpoint (.run (.read 8 (.data [0, 0, 0, 0, 0, 0, 0, 1])) false),
          .endpoint (.run (.read 1 (.data [7])) false), .endpoint (.run (.onMessage [.send2 [7]]) false),
          .endpoint (.run .tau false), .endpoint (.run (.epollCtl true) false),
          .endpoint (.run .tau false), .endpoint .epollWait,
          .endpoint (.run (.write [0, 0, 0, 0, 0, 0, 0, 1, 7] (.accepted 4)) false), .endpoint .fin,
          .endpoint .epollWait, .endpoint (.run .tau false), .endpoint (.run (.read 8 (.data [])) false),
          .endpoint (.run .tau false), .endpoint (.run .onClose false), .handleCloseInLoop,
          .endpoint (.run .tau false), .connectionDestructor true, .destructor] = some l ∧
      l.endpoint.socket.received = [0, 0, 0, 0, 0, 0, 0, 1, 7] ∧ l.closed = true ∧
      l.endpoint.session.conn.sendBuffer.readable = [0, 0, 0, 1, 7] := ⟨_, rfl, rfl, rfl, rfl⟩
  have hempty := hflushed l (.run (.init fresh_established) hrun)
    ⟨[stringFrame [7] (by decide)], hreceived⟩ hclosed
  rw [hrest] at hempty
  cases hempty

end Lifetime

end EpollServer
