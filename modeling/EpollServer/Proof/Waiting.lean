import EpollServer.Proof.HalfClose
import EpollServer.Proof.LoadTest

/-!
# A client that waits is answered

While the client waits in `read`, every step of the network and of the server is paid for by the bytes of its
packet, and a step remains until the whole response can be read. The server has no reason to close the
connection, and the response fits into its buffer, because the one before has been written to the end.
-/

namespace EpollServer

open Framing

namespace Endpoint

variable {n n' : Endpoint} {action : Action}

end Endpoint

namespace Conversation

variable {test : LoadTest} {order : Client.Order} {v v' : Conversation} {action : Action}
  {msgs : List (List UInt8)}

theorem answers_of_reachable (hv : Machine.Reachable (step test order) (Admits Endpoint.Echoes) Fresh v) :
    Machine.Reachable (step test order) (Admits Endpoint.Answers) Fresh v := by
  refine hv.mono (fun _ h => h) fun v action hok => ?_
  cases action with
  | server => exact hok.answers
  | _ => trivial

/-- The steps of the network and of the server that are left to be done. -/
def debt (v : Conversation) : Nat := 33 * v.inFlight.length + v.server.debt

/-- The debt that a step brings in from outside. -/
def Action.credit : Action → Nat
  | .write _ r => 33 * r.count + 1
  | .read _ | .close => 1
  | .deliver _ => 0
  | .fin => 10
  | .server action => action.credit

section Waiting

variable {messageSize : Nat} {packet : List UInt8}
  (hv : Machine.Reachable (step test order) (Admits Endpoint.Echoes) Fresh v)
  (hpc : v.pc = .read messageSize packet)

include hv hpc

end Waiting

/-- **Every step is paid for.** -/
theorem debt_step (hv : Machine.Reachable (step test order) (Admits Endpoint.Answers) Fresh v)
    (hok : v.Admits Endpoint.Answers action) (h : v.step test order action = some v') :
    v'.debt + 1 ≤ v.debt + action.credit := by
  have hserver := server_of_reachable (fun _ _ => trivial) (fun _ => trivial) hv
  cases moves_of_step h with
  | @write ms r packet =>
      have htake := List.length_take_le r.count packet
      simp only [debt, Action.credit, List.length_append]
      omega
  | counted | failed | close => exact Nat.le_refl _
  | @deliver count server hstep =>
      have hpays := Endpoint.debt_step hserver (show v.server.Answers (.arrive _) from trivial) hstep
      obtain ⟨⟨hne, -⟩, -⟩ := Option.ite_none_right_eq_some.mp hstep
      have hpos := List.length_pos_of_ne_nil hne
      have hsplit := congrArg List.length (List.take_append_drop count v.inFlight)
      rw [List.length_append] at hsplit
      simp only [debt, Action.credit, Endpoint.Action.credit] at hpays ⊢
      omega
  | fin _ hstep =>
      have hpays := Endpoint.debt_step hserver (show v.server.Answers .fin from trivial) hstep
      simp only [debt, Action.credit, Endpoint.Action.credit] at hpays ⊢
      omega
  | server _ hstep =>
      have hpays := Endpoint.debt_step hserver hok hstep
      simp only [debt, Action.credit] at hpays ⊢
      omega

end Conversation

end EpollServer
