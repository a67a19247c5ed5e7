import EpollServer.EdgeTriggered

/-!
# The end of a connection

A connection under epoll together with what the server does after the close: `HandleCloseInLoop` on the main
reactor's thread erases it from `connectionsMap`, `ConnectionDestructor` on the connection's own loop, between
two rounds of events, deletes its channel, and the destructor closes the descriptor. Each of them comes after
the one before it, in no fixed order with what the peer, the kernel and the handlers do.
-/

namespace EpollServer

structure Lifetime where
  endpoint : Endpoint
  /-- `HandleCloseInLoop` has erased the connection. -/
  erased : Bool
  /-- `ConnectionDestructor` has run. -/
  destructed : Bool
  /-- The channel is in the epoll set. -/
  registered : Bool
  /-- The descriptor is closed. -/
  closed : Bool
  deriving Repr

namespace Lifetime

inductive Action where
  | endpoint (action : Endpoint.Action)
  | handleCloseInLoop
  | connectionDestructor (ok : Bool)
  /-- `~Connection`. -/
  | destructor
  deriving DecidableEq, Repr

/-- `DeleteChannel`, between two rounds of events. -/
def connectionDestructor (l : Lifetime) (ok : Bool) : Lifetime :=
  let session := l.endpoint.session
  let conn := { session.conn with channel := session.conn.channel.deleteChannel ok }
  { l with
    endpoint := { l.endpoint with session := { session with conn := conn } }
    destructed := true
    registered := l.registered && !ok }

def step (l : Lifetime) (action : Action) : Option Lifetime :=
  if l.closed then none
  else
    match action with
    | .endpoint action => do
        if action = .epollWait ∧ l.registered = false then none
        else
          let endpoint ← l.endpoint.step action
          some { l with endpoint := endpoint }
    | .handleCloseInLoop =>
        if 0 < l.endpoint.session.history.closes ∧ l.erased = false then some { l with erased := true }
        else none
    | .connectionDestructor ok =>
        if l.erased = true ∧ l.destructed = false ∧ l.endpoint.session.stack = [] then
          some (l.connectionDestructor ok)
        else none
    | .destructor =>
        if l.destructed = true ∧ l.endpoint.session.stack = [] then some { l with closed := true }
        else none

/-- **What a step can do.** -/
theorem step_cases {l l' : Lifetime} {action : Action} (h : l.step action = some l') : l.closed = false ∧
    ((∃ a n, action = .endpoint a ∧ l.endpoint.step a = some n ∧ l' = { l with endpoint := n }) ∨
      (action = .handleCloseInLoop ∧ 0 < l.endpoint.session.history.closes ∧
        l' = { l with erased := true }) ∨
      (∃ ok, action = .connectionDestructor ok ∧ l.erased = true ∧ l.endpoint.session.stack = [] ∧
        l' = l.connectionDestructor ok) ∨
      action = .destructor ∧ l.destructed = true ∧ l.endpoint.session.stack = [] ∧
        l' = { l with closed := true }) := by
  obtain ⟨hopen, h⟩ := Option.ite_none_left_eq_some.mp h
  refine ⟨Bool.eq_false_iff.mpr hopen, ?_⟩
  cases action with
  | endpoint a =>
      obtain ⟨-, h⟩ := Option.ite_none_left_eq_some.mp h
      obtain ⟨n, hn, h⟩ := Option.bind_eq_some_iff.mp h
      exact .inl ⟨a, n, rfl, hn, (Option.some.inj h).symm⟩
  | handleCloseInLoop =>
      obtain ⟨⟨hcloses, -⟩, h⟩ := Option.ite_none_right_eq_some.mp h
      exact .inr (.inl ⟨rfl, hcloses, (Option.some.inj h).symm⟩)
  | connectionDestructor ok =>
      obtain ⟨⟨herased, -, hidle⟩, h⟩ := Option.ite_none_right_eq_some.mp h
      exact .inr (.inr (.inl ⟨ok, rfl, herased, hidle, (Option.some.inj h).symm⟩))
  | destructor =>
      obtain ⟨⟨hdestructed, hidle⟩, h⟩ := Option.ite_none_right_eq_some.mp h
      exact .inr (.inr (.inr ⟨rfl, hdestructed, hidle, (Option.some.inj h).symm⟩))

end Lifetime

end EpollServer
