import EpollServer.Proof.Bounds
import Mathlib.Data.Set.Finite.Lattice
import Mathlib.Order.Bounds.Basic

/-!
# A call of the read loop returns

`ReadNonBlocking` leaves its `while(true)` from whatever state it is called in: a pass that goes round again
has read bytes of the current frame, of which only so many are missing, or was interrupted, which happens
finitely often. How many bytes are queued, and how many more arrive, does not matter.
-/

namespace EpollServer

/-- The answers of a kernel to the `read`s of a call: to the `i`-th of them, which asks for `count` bytes,
`read i count`. It interrupts finitely many. -/
structure Kernel where
  read : Nat → Nat → ReadResult
  within : ∀ i count, (read i count).bytes.length ≤ count
  interrupts : {i | ∃ count, read i count = .error .eintr}.Finite

namespace Kernel

/-- What the top operation of a session shows when this kernel answers its `i`-th `read`. -/
def answer (kernel : Kernel) (i : Nat) (s : Session) : Label :=
  match s.stack with
  | .readNonBlocking :: _ => .read s.conn.readCount (kernel.read i s.conn.readCount)
  | .onClose :: _ => .onClose
  | _ => .tau

/-- From some call on, no `read` is interrupted. -/
theorem exists_uninterrupted (kernel : Kernel) :
    ∃ bound, ∀ i count, bound ≤ i → kernel.read i count ≠ .error .eintr := by
  obtain ⟨bound, hbound⟩ := kernel.interrupts.bddAbove
  refine ⟨bound + 1, fun i count hi hintr => ?_⟩
  have hle : i ≤ bound := hbound ⟨count, hintr⟩
  omega

end Kernel

namespace Connection

variable {c : Connection} {r : List UInt8}

/-- The bytes of the current frame that were read. -/
def received (c : Connection) : Nat := c.readTlvHeaderLength + c.readBodyLength

/-- The bytes that the current frame lacks, if its header announces `length` bytes. -/
def missing (c : Connection) (length : Nat) : Nat := tlvHeaderLength + length - c.received

theorem received_readNonBlocking (res : ReadResult) :
    (c.readNonBlocking res).1.received = c.received + res.bytes.length := by
  have hpass := c.pass res
  generalize c.readNonBlocking res = out at hpass ⊢
  cases hpass with
  | interrupted | again | failed | headerEnd | bodyEmpty | bodyEnd => rfl
  | header | oversized | headerDone => exact Nat.add_right_comm ..
  | bodyDone | body => exact (Nat.add_assoc ..).symm

/-- **How a pass of the loop ends**: it leaves the loop, or goes round again after an interrupt or with
bytes. -/
theorem ops_readNonBlocking (res : ReadResult) :
    (c.readNonBlocking res).2 = [] ∨ (c.readNonBlocking res).2 = [.handleClose] ∨
      (c.readNonBlocking res).2 = [.readNonBlocking] ∧ (res = .error .eintr ∨ res.bytes ≠ []) := by
  have hpass := c.pass res
  generalize c.readNonBlocking res = out at hpass ⊢
  cases hpass with
  | again | bodyEmpty | bodyDone => exact .inl rfl
  | failed | headerEnd | oversized | bodyEnd => exact .inr (.inl rfl)
  | interrupted => exact .inr (.inr ⟨rfl, .inl rfl⟩)
  | header _ hdata | headerDone _ hdata | body _ hdata => exact .inr (.inr ⟨rfl, .inr hdata⟩)

theorem received_le (hp : c.reader.At r) : c.received ≤ tlvHeaderLength + maxTlvLength := by
  have hcontained := contained hp
  exact Nat.add_le_add hcontained.header_le (hcontained.body_le.trans hcontained.size_le)

/-- The bytes read of a frame are not more than the frame has, whatever its header is still to announce. -/
theorem received_le_frame (hp : c.reader.At r) {length : Nat}
    (hlength : c.readTlvHeaderLength = tlvHeaderLength → length = c.tlvHeader.length.toNat) :
    c.received ≤ tlvHeaderLength + length := by
  have hcontained := contained hp
  cases hp.parsing with
  | header hlen hlt _ hbody =>
      change c.readBodyLength = 0 at hbody
      rw [received, hbody]
      exact hcontained.header_le.trans (Nat.le_add_right _ _)
  | body hlen hlimit hsize =>
      rw [received, hlength hlen]
      exact Nat.add_le_add hcontained.header_le (hcontained.body_le.trans_eq hsize)
  | oversized hlen hlimit =>
      rw [received, hlength hlen]
      exact Nat.add_le_add hcontained.header_le
        (hcontained.body_le.trans (hcontained.size_le.trans (Nat.le_of_lt hlimit)))

end Connection

namespace Session

variable {s t : Session} {rest : List Op}

/-- A call of `ReadNonBlocking` made in `s`, to return to `rest`, has come to `t`. -/
structure Calling (s : Session) (rest : List Op) (t : Session) : Prop where
  stack : t.stack = rest ∨ t.stack = .readNonBlocking :: rest ∨ t.stack = .handleClose :: rest ∨
    t.stack = .onClose :: rest
  reader : ∃ r, t.conn.reader.At r
  consumed : ∃ bytes, t.history.consumed = s.history.consumed ++ bytes ∧
    t.conn.received = s.conn.received + bytes.length

/-- What a call still has to do: the bytes that can be missing and the interrupts that can come, and the
three steps after the loop. -/
def remaining (bound : Nat) (rest : List Op) (i : Nat) (t : Session) : Nat :=
  if t.stack = rest then 0
  else
    match t.stack with
    | .onClose :: _ => 1
    | .handleClose :: _ => 2
    | _ => 3 + (tlvHeaderLength + maxTlvLength - t.conn.received) + (bound - i)

theorem remaining_lt_three {bound i : Nat} (hstack : t.stack = rest ∨ t.stack = .handleClose :: rest) :
    remaining bound rest i t < 3 := by
  rw [remaining]
  split
  · decide
  · rename_i hne
    rw [hstack.resolve_left hne]
    exact Nat.lt_succ_self 2

/-- A call goes on, and has less to do then. -/
def Advances (s : Session) (rest : List Op) (kernel : Kernel) (bound i : Nat) (t : Session) : Prop :=
  ∃ t', t.step (kernel.answer i t) = some t' ∧ s.Calling rest t' ∧
    remaining bound rest (i + 1) t' < remaining bound rest i t

section Advances

variable {kernel : Kernel} {bound i : Nat}

/-- A pass of the loop consumes bytes or an interrupt, or leaves the loop. -/
theorem Calling.advances_readNonBlocking
    (hbound : ∀ i count, bound ≤ i → kernel.read i count ≠ .error .eintr) (ht : s.Calling rest t)
    (hne : t.stack ≠ rest) (hstack : t.stack = .readNonBlocking :: rest) :
    s.Advances rest kernel bound i t := by
  obtain ⟨r, hat⟩ := ht.reader
  obtain ⟨bytes, hconsumed, hreceived⟩ := ht.consumed
  set res := kernel.read i t.conn.readCount with hres
  have hwithin : res.bytes.length ≤ t.conn.readCount := kernel.within _ _
  have hlabel : kernel.answer i t = .read t.conn.readCount res := by rw [Kernel.answer, hstack]
  have hexec : Op.readNonBlocking.exec t.conn (.read t.conn.readCount res)
      = some ((t.conn.readNonBlocking res).1, (t.conn.readNonBlocking res).2) :=
    if_pos ⟨rfl, hwithin⟩
  have hmore := Connection.received_readNonBlocking (c := t.conn) res
  have hat' := Connection.at_readNonBlocking hat hwithin
  have hroom := Connection.received_le hat'
  have hnow : remaining bound rest i t
      = 3 + (tlvHeaderLength + maxTlvLength - t.conn.received) + (bound - i) := by
    rw [remaining, if_neg hne, hstack]
  rw [Advances, hlabel, hnow]
  refine ⟨_, step_of_exec hstack hexec, ⟨?_, ⟨_, hat'⟩, bytes ++ res.bytes, ?_, ?_⟩, ?_⟩
  · rcases Connection.ops_readNonBlocking (c := t.conn) res with hops | hops | ⟨hops, -⟩ <;>
      simp [hops]
  · exact (congrArg (· ++ res.bytes) hconsumed).trans (List.append_assoc _ _ _)
  · dsimp only
    rw [hmore, hreceived, List.length_append, Nat.add_assoc]
  · rcases Connection.ops_readNonBlocking (c := t.conn) res with hops | hops | ⟨hops, hprogress⟩
    · exact (remaining_lt_three (.inl (by simp [hops]))).trans_le (by omega)
    · exact (remaining_lt_three (.inr (by simp [hops]))).trans_le (by omega)
    · rw [remaining]
      split
      · omega
      · simp only [hops, List.singleton_append]
        rw [hmore] at hroom ⊢
        rcases hprogress with hintr | hbytes
        · have hlt : i < bound := Nat.lt_of_not_le fun hle => hbound i _ hle (hres.symm.trans hintr)
          omega
        · have hpos := List.length_pos_iff.mpr hbytes
          omega

theorem Calling.advances_handleClose (ht : s.Calling rest t) (hne : t.stack ≠ rest)
    (hstack : t.stack = .handleClose :: rest) : s.Advances rest kernel bound i t := by
  obtain ⟨r, hat⟩ := ht.reader
  obtain ⟨bytes, hconsumed, hreceived⟩ := ht.consumed
  have hlabel : kernel.answer i t = .tau := by rw [Kernel.answer, hstack]
  have hexec : Op.handleClose.exec t.conn .tau
      = some (t.conn.handleClose.1, t.conn.handleClose.2) := rfl
  have hconn : t.conn.handleClose.1.reader = t.conn.reader ∧
      t.conn.handleClose.1.received = t.conn.received ∧
      (t.conn.handleClose.2 = [] ∨ t.conn.handleClose.2 = [.onClose]) := by
    rcases t.conn.handleClose_cases with ⟨-, hclose⟩ | ⟨-, hclose⟩
    · simp [hclose]
    · rw [hclose]
      exact ⟨rfl, rfl, by cases t.conn.onCloseCallback <;> simp⟩
  have hnow : remaining bound rest i t = 2 := by rw [remaining, if_neg hne, hstack]
  rw [Advances, hlabel, hnow]
  refine ⟨_, step_of_exec hstack hexec,
    ⟨?_, ⟨r, hconn.1 ▸ hat⟩, bytes, hconsumed, hconn.2.1.trans hreceived⟩, ?_⟩
  · rcases hconn.2.2 with hops | hops <;> simp [hops]
  · rw [remaining]
    split
    · decide
    · rename_i hne'
      rcases hconn.2.2 with hops | hops
      · exact absurd (by simp [hops]) hne'
      · simp [hops]

theorem Calling.advances_onClose (ht : s.Calling rest t) (hne : t.stack ≠ rest)
    (hstack : t.stack = .onClose :: rest) : s.Advances rest kernel bound i t := by
  have hlabel : kernel.answer i t = .onClose := by rw [Kernel.answer, hstack]
  have hexec : Op.onClose.exec t.conn .onClose = some (t.conn, []) := rfl
  rw [Advances, hlabel]
  refine ⟨_, step_of_exec hstack hexec, ⟨.inl rfl, ht.reader, ht.consumed⟩, ?_⟩
  rw [remaining, if_pos (List.nil_append rest), remaining, if_neg hne, hstack]
  exact Nat.one_pos

/-- **One step of a call.** -/
theorem Calling.advances (hbound : ∀ i count, bound ≤ i → kernel.read i count ≠ .error .eintr)
    (ht : s.Calling rest t) (hne : t.stack ≠ rest) : s.Advances rest kernel bound i t := by
  rcases ht.stack.resolve_left hne with hstack | hstack | hstack
  · exact ht.advances_readNonBlocking hbound hne hstack
  · exact ht.advances_handleClose hne hstack
  · exact ht.advances_onClose hne hstack

end Advances

/-- **A call of `ReadNonBlocking` returns**, whatever state any results of `read`, events and calls have led
to, whatever work is below it and whatever the kernel answers. It consumes at most the bytes that are missing
from the current frame, and at most a header and the longest body. -/
theorem readNonBlocking_returns (hs : Machine.Reachable Session.step (fun _ _ => True) Built s)
    (rest : List Op) (kernel : Kernel) :
    ∃ n t bytes, Machine.follow Session.step kernel.answer { s with stack := .readNonBlocking :: rest } n
        = some t ∧ t.stack = rest ∧ t.history.consumed = s.history.consumed ++ bytes ∧
      (∀ length, (t.conn.readTlvHeaderLength = tlvHeaderLength →
        length = t.conn.tlvHeader.length.toNat) → bytes.length ≤ s.conn.missing length) ∧
      bytes.length ≤ tlvHeaderLength + maxTlvLength := by
  obtain ⟨bound, hbound⟩ := kernel.exists_uninterrupted
  obtain ⟨fs, r, -, hat, -⟩ := reading_of_built hs
  have hcalling : s.Calling rest { s with stack := .readNonBlocking :: rest } :=
    ⟨.inr (.inl rfl), ⟨r, hat⟩, [], by simp, rfl⟩
  obtain ⟨n, t, hfollow, ht, hdone⟩ := Machine.follow_reaches (fun t => t.stack = rest)
    (remaining bound rest) (fun _ _ ht hne => ht.advances hbound hne) hcalling
  obtain ⟨r', hat'⟩ := ht.reader
  obtain ⟨bytes, hconsumed, hreceived⟩ := ht.consumed
  refine ⟨n, t, bytes, hfollow, hdone, hconsumed, fun length hlength => ?_, ?_⟩
  · have hframe := Connection.received_le_frame hat' hlength
    rw [Connection.missing]
    omega
  · have hroom := Connection.received_le hat'
    omega

/-- A kernel that interrupts the first two `read`s and then returns one byte at a time, for ever. -/
def trickle : Kernel where
  read i count := if i < 2 then .error .eintr else .data (List.replicate (min count 1) 0)
  within i count := by
    split
    · exact Nat.zero_le _
    · simp [ReadResult.bytes]
  interrupts := by
    refine (Set.finite_lt_nat 2).subset fun i ⟨count, hintr⟩ => ?_
    change i < 2
    by_contra hlt
    rw [if_neg hlt] at hintr
    cases hintr

theorem readNonBlocking_returns_trickle : ∃ n t, Machine.follow Session.step trickle.answer
    { new (Connection.new 0 5 .invalid false true) with stack := [.readNonBlocking] } n = some t ∧
      t.stack = [] ∧ t.history.consumed.length ≤ 4104 := by
  obtain ⟨n, t, bytes, hfollow, hstack, hconsumed, -, hlimit⟩ := readNonBlocking_returns
    (s := new (Connection.new 0 5 .invalid false true)) (.init ⟨rfl, rfl, ⟨rfl, rfl, rfl⟩, by decide⟩)
    [] trickle
  exact ⟨n, t, hfollow, hstack, by rw [hconsumed]; exact hlimit⟩

end Session

end EpollServer
