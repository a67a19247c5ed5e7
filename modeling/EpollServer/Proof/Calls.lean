import EpollServer.Proof.Writing

/-!
# One call

A send call on a connection, from its start to its return. A step looks only at the top of the stack, so
the call is run on a stack of its own. What `SendInternal` and `Send` leave to be done after their `write`
touches neither the send buffer nor the socket; but `SendInternal` does not tell its caller that its `write`
failed, and `SendWithTwoSysCall` goes on with the body.
-/

namespace EpollServer

/-- Whether a step is a `write`. -/
def Label.isWrite : Label → Bool
  | .write _ _ => true
  | _ => false

theorem Label.isWrite_of_isHard {label : Label} (h : label.isHard = true) : label.isWrite = true := by
  cases label with
  | write => rfl
  | _ => cases h

theorem Label.written_of_isHard {label : Label} (h : label.isHard = true) : label.written = [] := by
  cases label with
  | write bytes r =>
      cases r with
      | accepted => cases h
      | error => rfl
  | _ => cases h

theorem Label.written_of_not_write {label : Label} (h : label.isWrite = false) : label.written = [] := by
  cases label with
  | write => cases h
  | _ => rfl

theorem Label.soft_of_not_write {label : Label} (h : label.isWrite = false) : ¬label.isHard = true :=
  fun hhard => absurd (h.symm.trans (isWrite_of_isHard hhard)) Bool.false_ne_true

namespace Op

/-- The operations that a call ends with. -/
def isTail : Op → Bool
  | .enableWrite | .handleClose | .onClose => true
  | _ => false

variable {c c' : Connection} {op : Op} {label : Label} {ops : List Op}

theorem Exec.tail (h : Exec c op label c' ops) (hop : op.isTail = true) :
    c'.sendBuffer = c.sendBuffer ∧ label.isWrite = false ∧ (∀ a ∈ ops, a.isTail = true) ∧
      (c.state = .disconected ∨ op = .handleClose → c'.state = .disconected) := by
  cases h with
  | enableWrite | onClose => exact ⟨rfl, rfl, by simp, fun h => h.resolve_right (by simp)⟩
  | closed hstate => exact ⟨rfl, rfl, by simp, fun _ => hstate⟩
  | close => exact ⟨rfl, rfl, by split <;> simp [isTail], fun _ => rfl⟩
  | writeFailed hwrites | writeAll hwrites | writePart hwrites | queueNone hwrites | queueAll hwrites =>
      cases op with
      | call | sendInternal => cases hop
      | _ => exact hwrites.elim
  | _ => cases hop

theorem Exec.of_sendWithTwoSysCall {msg : List UInt8}
    (h : Exec c (.call (.sendWithTwoSysCall msg)) label c' ops) :
    label = .tau ∧ c' = c ∧ ops = Connection.sendWithTwoSysCall msg := by
  cases h with
  | sendWithTwoSysCall => exact ⟨rfl, rfl, rfl⟩
  | writeFailed hop | writeAll hop | writePart hop | queueNone hop | queueAll hop => exact hop.elim

theorem Exec.of_buffering {f : Call} (h : Exec c (.call f) label c' ops)
    (hf : (∃ msg, f = .send2 msg) ∨ f = .handleClose) :
    label = .tau ∧ ∀ a ∈ ops, a.isTail = true := by
  cases h with
  | send2 | callClose => exact ⟨rfl, by simp [isTail]⟩
  | sendWithTwoSysCall => simp at hf
  | writeFailed hop | writeAll hop | writePart hop | queueNone hop | queueAll hop =>
      rcases hf with ⟨msg, rfl⟩ | rfl <;> exact hop.elim

theorem unsent_of_tail (hops : ∀ a ∈ ops, a.isTail = true) : ops.flatMap unsent = [] :=
  List.flatMap_eq_nil_iff.mpr fun a ha => by
    cases a with
    | sendInternal => cases hops _ ha
    | _ => rfl

/-- `Send` and `SendInternal` call `write` exactly if nothing is buffered. After a hard error only the close
is left. -/
theorem Exec.direct {msg : List UInt8} (h : Exec c op label c' ops)
    (hop : op = .sendInternal msg ∨ ∃ room, op = .call (.send msg room)) (hb : c.sendBuffer.Ok) :
    (label.isHard = true ∧ c' = c ∧ ops = [.handleClose] ∧ c.sendBuffer.readable = []) ∨
      (¬label.isHard = true ∧ (∀ a ∈ ops, a.isTail = true) ∧
        (label.isWrite = true ↔ c.sendBuffer.readable = [])) := by
  cases h with
  | writeFailed _ hempty hhard => exact .inl ⟨hhard, rfl, rfl, hb.readable_eq_nil_iff.mpr hempty⟩
  | writeAll _ hempty hsoft | writePart _ hempty hsoft =>
      exact .inr ⟨by simp [Label.isHard, hsoft], by simp [isTail], iff_of_true rfl (hb.readable_eq_nil_iff.mpr hempty)⟩
  | queueNone _ hbusy | queueAll _ hbusy =>
      exact .inr ⟨by simp [Label.isHard], by simp [isTail], iff_of_false (by simp [Label.isWrite])
        (mt hb.readable_eq_nil_iff.mp hbusy)⟩
  | _ => simp at hop

theorem Exec.direct_tails {msg : List UInt8} (h : Exec c op label c' ops)
    (hop : op = .sendInternal msg ∨ ∃ room, op = .call (.send msg room)) (hb : c.sendBuffer.Ok) :
    ∀ a ∈ ops, a.isTail = true := by
  rcases h.direct hop hb with ⟨-, -, rfl, -⟩ | ⟨-, htails, -⟩
  · simp [isTail]
  · exact htails

theorem Exec.of_sendInternal {msg : List UInt8} (h : Exec c (.sendInternal msg) label c' ops)
    (hb : c.sendBuffer.Ok) : label.written ++ c'.sendBuffer.readable
      = c.sendBuffer.readable ++ if label.isHard then [] else Connection.internalResponse msg := by
  rcases h.direct (.inl rfl) hb with ⟨hhard, rfl, -⟩ | ⟨hsoft, htails, -⟩
  · rw [if_pos hhard, Label.written_of_isHard hhard, List.append_nil, List.nil_append]
  · obtain ⟨hmoved, -⟩ := h.emits hb fun hhard => absurd hhard hsoft
    rw [unsent_of_tail htails, List.append_nil] at hmoved
    rw [if_neg hsoft, hmoved, emitted]
    simp [unsent, History.starts]

end Op

namespace Session

variable {s t t' : Session} {labels : List Label}

/-- The call of `f`. -/
def calling (s : Session) (f : Call) : Session := { s with stack := [.call f] }

/-- The outgoing stream: what the kernel took, and what is buffered. -/
def stream (s : Session) : List UInt8 := s.history.wire ++ s.conn.sendBuffer.readable

/-- The call has not returned. -/
def Busy (s : Session) (_ : Label) : Prop := s.stack ≠ []

instance (s : Session) (label : Label) : Decidable (s.Busy label) := by
  unfold Busy
  infer_instance

theorem run_returned (hidle : t.stack = []) (hrun : Machine.run step Busy t labels = some t') :
    labels = [] ∧ t' = t := by
  cases labels with
  | nil =>
      cases hrun
      exact ⟨rfl, rfl⟩
  | cons label labels => exact absurd hidle (Machine.run_cons.mp hrun).1

/-- A run to the return of a call starts with a step of the operation on top. -/
theorem run_top {op : Op} {rest : List Op} (hstack : t.stack = op :: rest)
    (hrun : Machine.run step Busy t labels = some t') (hdone : t'.stack = []) :
    ∃ label labels' u ops, labels = label :: labels' ∧ op.Exec t.conn label u.conn ops ∧
      u.stack = ops ++ rest ∧ u.history.wire = t.history.wire ++ label.written ∧
      Machine.run step Busy u labels' = some t' := by
  cases labels with
  | nil =>
      obtain rfl : t = t' := by simpa [Machine.run] using hrun
      exact absurd (hstack.symm.trans hdone) (by simp)
  | cons label labels =>
      obtain ⟨-, u, hstep, hrun⟩ := Machine.run_cons.mp hrun
      have hwire := step_wire hstep
      rcases step_cases hstep with ⟨hidle, -⟩ | ⟨hidle, -⟩ | ⟨op', rest', conn, ops, hstack', hexec, rfl⟩
      · exact absurd (hstack.symm.trans hidle) (by simp)
      · exact absurd (hstack.symm.trans hidle) (by simp)
      · obtain ⟨rfl, rfl⟩ := List.cons.inj (hstack.symm.trans hstack')
        exact ⟨label, labels, _, ops, rfl, Op.exec_cases hexec, rfl, hwire, hrun⟩

/-- What a call ends with runs through without a `write`, and what is below it goes on from the same
stream. -/
theorem run_tails {tails below : List Op} (htails : ∀ op ∈ tails, op.isTail = true)
    (hstack : t.stack = tails ++ below) (hrun : Machine.run step Busy t labels = some t')
    (hdone : t'.stack = []) : ∃ front rest u, labels = front ++ rest ∧
      (∀ label ∈ front, label.isWrite = false) ∧ u.stack = below ∧
      u.conn.sendBuffer = t.conn.sendBuffer ∧ u.history.wire = t.history.wire ∧
      (t.conn.state = .disconected ∨ .handleClose ∈ tails → u.conn.state = .disconected) ∧
      Machine.run step Busy u rest = some t' := by
  induction labels generalizing t tails with
  | nil =>
      obtain rfl : t = t' := by simpa [Machine.run] using hrun
      obtain ⟨rfl, rfl⟩ := List.append_eq_nil_iff.mp (hstack.symm.trans hdone)
      exact ⟨[], [], t, rfl, by simp, hstack, rfl, rfl, fun h => h.resolve_right (by simp), rfl⟩
  | cons label labels ih =>
      cases tails with
      | nil => exact ⟨[], _, t, rfl, by simp, hstack, rfl, rfl, fun h => h.resolve_right (by simp), hrun⟩
      | cons op tails =>
          obtain ⟨_, _, t₁, ops, heq, hexec, hstack₁, hwire, hrun⟩ := run_top hstack hrun hdone
          obtain ⟨rfl, rfl⟩ := List.cons.inj heq
          obtain ⟨hop, htails⟩ := List.forall_mem_cons.mp htails
          obtain ⟨hbuffer, hlabel, hops, hclosed⟩ := hexec.tail hop
          rw [Label.written_of_not_write hlabel, List.append_nil] at hwire
          obtain ⟨front, rest, u, rfl, hfront, hu, hbuffer', hwire', hclosed', hrest⟩ :=
            ih (List.forall_mem_append.mpr ⟨hops, htails⟩) (hstack₁.trans (List.append_assoc ..).symm) hrun
          refine ⟨label :: front, rest, u, rfl, List.forall_mem_cons.mpr ⟨hlabel, hfront⟩, hu,
            hbuffer'.trans hbuffer, hwire'.trans hwire, fun h => ?_, hrest⟩
          rcases h with h | h
          · exact hclosed' (.inl (hclosed (.inl h)))
          · rcases List.mem_cons.mp h with heq | hmem
            · exact hclosed' (.inl (hclosed (.inr heq.symm)))
            · exact hclosed' (.inr (List.mem_append_right _ hmem))

theorem run_tails_done {tails : List Op} (htails : ∀ op ∈ tails, op.isTail = true)
    (hstack : t.stack = tails) (hrun : Machine.run step Busy t labels = some t') (hdone : t'.stack = []) :
    (∀ label ∈ labels, label.isWrite = false) ∧ t'.stream = t.stream ∧
      (.handleClose ∈ tails → t'.conn.state = .disconected) := by
  obtain ⟨front, rest, u, rfl, hfront, hu, hbuffer, hwire, hclosed, hrest⟩ :=
    run_tails htails (hstack.trans (List.append_nil _).symm) hrun hdone
  obtain ⟨rfl, rfl⟩ := run_returned hu hrest
  rw [List.append_nil]
  exact ⟨hfront, by rw [stream, hbuffer, hwire, stream], fun h => hclosed (.inr h)⟩

/-- What a hard write error in a call is to leave behind: a closed connection, the stream as it was, and no
`write` after the one that failed. -/
structure Intact (s s' : Session) (labels : List Label) : Prop where
  closed : s'.conn.state = .disconected
  stream : s'.stream = s.stream
  last : ∀ front label rest, labels = front ++ label :: rest → label.isHard = true →
    ∀ l ∈ rest, l.isWrite = false

theorem intact_send {msg : List UInt8} {room : Nat} (hb : s.conn.sendBuffer.Ok)
    (hrun : Machine.run step Busy (s.calling (.send msg room)) labels = some t) (hdone : t.stack = [])
    (hhard : ∃ label ∈ labels, label.isHard = true) : s.Intact t labels := by
  obtain ⟨label, labels, t₁, ops, rfl, hexec, hstack, hwire, hrun⟩ := run_top rfl hrun hdone
  rw [List.append_nil] at hstack
  rcases hexec.direct (.inr ⟨room, rfl⟩) hb with ⟨hlabel, hconn, rfl, -⟩ | ⟨hlabel, hops, -⟩
  · obtain ⟨hwrites, hstream, hclosed⟩ := run_tails_done (by simp [Op.isTail]) hstack hrun hdone
    refine ⟨hclosed List.mem_cons_self, hstream.trans ?_, fun front l rest heq hl => ?_⟩
    · rw [Session.stream, hconn, hwire, Label.written_of_isHard hlabel, List.append_nil]
      rfl
    · cases front with
      | nil =>
          obtain ⟨rfl, rfl⟩ := List.cons.inj heq
          exact hwrites
      | cons a front =>
          obtain ⟨rfl, rfl⟩ := List.cons.inj heq
          exact absurd hl (Label.soft_of_not_write (hwrites l (by simp)))
  · have hwrites := (run_tails_done hops hstack hrun hdone).1
    obtain ⟨l, hl, hhard⟩ := hhard
    rcases List.mem_cons.mp hl with rfl | hl
    · exact absurd hhard hlabel
    · exact absurd hhard (Label.soft_of_not_write (hwrites l hl))

/-- The two halves of a message: whatever becomes of the header, `SendInternal` is called for the body, and
each half is put out unless its own `write` fails for good. -/
theorem run_sendWithTwoSysCall {msg : List UInt8} (hb : s.conn.sendBuffer.Ok)
    (hrun : Machine.run step Busy (s.calling (.sendWithTwoSysCall msg)) labels = some t)
    (hdone : t.stack = []) : ∃ l₁ front l₂ rest, labels = .tau :: l₁ :: (front ++ l₂ :: rest) ∧
      (∀ label ∈ front ++ rest, label.isWrite = false) ∧ (l₁.isHard = true → l₂.isWrite = true) ∧
      (l₁.isHard = true ∨ l₂.isHard = true → s.conn.sendBuffer.readable = []) ∧
      t.stream = s.stream ++ ((if l₁.isHard then [] else Connection.headerBytes msg.length) ++
        if l₂.isHard then [] else Connection.internalResponse msg) := by
  obtain ⟨l₀, labels, t₀, ops, rfl, hexec, hstack₀, hwire₀, hrun₀⟩ := run_top rfl hrun hdone
  obtain ⟨rfl, hconn₀, rfl⟩ := hexec.of_sendWithTwoSysCall
  change t₀.stack = [.sendInternal (Connection.headerBytes msg.length), .sendInternal msg] at hstack₀
  change t₀.conn = s.conn at hconn₀
  change t₀.history.wire = s.history.wire ++ [] at hwire₀
  obtain ⟨l₁, labels, t₁, ops, rfl, hheader, hstack₁, hwire₁, hrun₁⟩ := run_top hstack₀ hrun₀ hdone
  rw [hconn₀] at hheader
  obtain ⟨front, rest, u, rfl, hfront, hu, hbuffer, hwire, -, hrest⟩ :=
    run_tails (hheader.direct_tails (.inl rfl) hb) hstack₁ hrun₁ hdone
  obtain ⟨l₂, rest, t₂, ops', rfl, hbody, hstack₂, hwire₂, hrun₂⟩ := run_top hu hrest hdone
  rw [List.append_nil] at hstack₂
  have hb' : u.conn.sendBuffer.Ok := hbuffer ▸ hheader.buffer_ok hb
  obtain ⟨hwrites, hstream, -⟩ :=
    run_tails_done (hbody.direct_tails (.inl rfl) hb') hstack₂ hrun₂ hdone
  have hputs := hheader.of_sendInternal hb
  have hputs' := hbody.of_sendInternal hb'
  rw [hbuffer] at hputs'
  have hdirect := hheader.direct (.inl rfl) hb
  have hdirect' := hbody.direct (.inl rfl) hb'
  rw [hbuffer] at hdirect'
  refine ⟨l₁, front, l₂, rest, rfl, List.forall_mem_append.mpr ⟨hfront, hwrites⟩, fun hhard => ?_,
    fun hhard => ?_, ?_⟩
  · rcases hdirect with ⟨-, hconn₁, -, hnil⟩ | ⟨hsoft, -⟩
    · rcases hdirect' with ⟨hhard', -⟩ | ⟨-, -, hiff⟩
      · exact Label.isWrite_of_isHard hhard'
      · exact hiff.mpr (by rw [hconn₁, hnil])
    · exact absurd hhard hsoft
  · rcases hdirect with ⟨-, -, -, hnil⟩ | ⟨hsoft, -, hiff⟩
    · exact hnil
    · obtain ⟨-, -, -, hnil⟩ := hdirect'.resolve_right fun h => h.1 (hhard.resolve_left hsoft)
      by_cases hwrite : l₁.isWrite = true
      · exact hiff.mp hwrite
      · rw [Label.written_of_not_write (Bool.eq_false_iff.mpr hwrite), hnil, List.append_nil] at hputs
        exact (List.append_eq_nil_iff.mp hputs.symm).1
  · calc t.stream
      _ = u.history.wire ++ (l₂.written ++ t₂.conn.sendBuffer.readable) := by
        rw [hstream, Session.stream, hwire₂, List.append_assoc]
      _ = s.history.wire ++ (l₁.written ++ t₁.conn.sendBuffer.readable)
            ++ if l₂.isHard then [] else Connection.internalResponse msg := by
        rw [hputs', hwire, hwire₁, hwire₀]
        simp only [List.append_nil, List.append_assoc]
      _ = _ := by
        rw [hputs, Session.stream]
        simp only [List.append_assoc, Op.internalResponse_headerBytes]

/-- When the `write` of the header fails for good, the body's is called all the same, and when only the
body's fails, the header stays. -/
theorem not_intact_sendWithTwoSysCall {msg : List UInt8} (hb : s.conn.sendBuffer.Ok)
    (hrun : Machine.run step Busy (s.calling (.sendWithTwoSysCall msg)) labels = some t)
    (hdone : t.stack = []) : ¬s.Intact t labels := by
  intro hintact
  obtain ⟨l₁, front, l₂, rest, rfl, -, hagain, -, hstream⟩ := run_sendWithTwoSysCall hb hrun hdone
  by_cases hhard : l₁.isHard = true
  · have hlast := hintact.last [.tau] l₁ (front ++ l₂ :: rest) rfl hhard l₂ (by simp)
    exact absurd (hlast.symm.trans (hagain hhard)) Bool.false_ne_true
  · rw [if_neg hhard, hintact.stream] at hstream
    have hlength := congrArg List.length hstream
    have hheader : (Connection.headerBytes msg.length).length = 8 := rfl
    simp only [List.length_append] at hlength
    omega

theorem not_hard_of_buffering {f : Call}
    (hf : (∃ msg, f = .send2 msg) ∨ f = .handleClose)
    (hrun : Machine.run step Busy (s.calling f) labels = some t) (hdone : t.stack = []) :
    ¬∃ label ∈ labels, label.isHard = true := by
  obtain ⟨label, labels, t₁, ops, rfl, hexec, hstack, -, hrun₁⟩ := run_top rfl hrun hdone
  rw [List.append_nil] at hstack
  obtain ⟨rfl, hops⟩ := hexec.of_buffering hf
  have hwrites := (run_tails_done hops hstack hrun₁ hdone).1
  rintro ⟨l, hl, hhard⟩
  rcases List.mem_cons.mp hl with rfl | hl
  · cases hhard
  · exact absurd hhard (Label.soft_of_not_write (hwrites l hl))

/-- **When a hard write error leaves the outgoing stream on a frame boundary.** In every state of a
connection, for every message and all results of `write`, one of which fails for good: the call closes the
connection, leaves the stream as it was and stops writing, exactly if it is not `SendWithTwoSysCall`. -/
theorem intact_iff (hs : Machine.Reachable Session.step (fun _ _ => True) Fresh s) {f : Call}
    (hrun : Machine.run step Busy (s.calling f) labels = some t) (hdone : t.stack = [])
    (hhard : ∃ label ∈ labels, label.isHard = true) :
    s.Intact t labels ↔ ∀ msg, f ≠ .sendWithTwoSysCall msg := by
  have hb := buffer_ok_of_reachable hs
  cases f with
  | send msg => exact iff_of_true (intact_send hb hrun hdone hhard) (by simp)
  | sendWithTwoSysCall msg =>
      exact iff_of_false (not_intact_sendWithTwoSysCall hb hrun hdone) (by simp)
  | send2 | handleClose => exact absurd hhard (not_hard_of_buffering (by simp) hrun hdone)

theorem intact_iff_send : ∃ s t : Session, Machine.Reachable Session.step (fun _ _ => True) Fresh s ∧
    Machine.run step Busy (s.calling (.send [7] 8388608))
      [.write [0, 0, 0, 0, 0, 0, 0, 1, 7] (.error (.other 104)), .tau, .onClose] = some t ∧
      s.Intact t [.write [0, 0, 0, 0, 0, 0, 0, 1, 7] (.error (.other 104)), .tau, .onClose] := by
  have hfresh := fresh_connectionEstablished 0 5 .invalid false true true
  obtain ⟨t, hrun, hdone⟩ : ∃ t, Machine.run step Busy ((new (((Connection.new 0 5 .invalid false
        true).setCloseCallback.setMessageCallback).connectionEstablished true)).calling
          (.send [7] 8388608))
      [.write [0, 0, 0, 0, 0, 0, 0, 1, 7] (.error (.other 104)), .tau, .onClose] = some t ∧
    t.stack = [] := ⟨_, rfl, rfl⟩
  exact ⟨_, t, .init hfresh, hrun, (intact_iff (.init hfresh) hrun hdone (by decide)).mpr (by simp)⟩

/-- The header is written and the `write` of the body fails for good: the header stays without its body. -/
theorem torn_frame :
    ¬∀ s t f labels, Machine.Reachable Session.step (fun _ _ => True) Fresh s →
      Machine.run step Busy (s.calling f) labels = some t → t.stack = [] →
        (∃ label ∈ labels, label.isHard = true) → s.Intact t labels := by
  intro hintact
  have hfresh := fresh_connectionEstablished 0 5 .invalid false true true
  obtain ⟨t, hrun, hdone, hstream⟩ : ∃ t, Machine.run step Busy ((new (((Connection.new 0 5 .invalid false
        true).setCloseCallback.setMessageCallback).connectionEstablished true)).calling
          (.sendWithTwoSysCall [7]))
      [.tau, .write [0, 0, 0, 0, 0, 0, 0, 1] (.accepted 8), .write [7] (.error (.other 104)), .tau,
        .onClose] = some t ∧ t.stack = [] ∧ t.stream = [0, 0, 0, 0, 0, 0, 0, 1] := ⟨_, rfl, rfl, rfl⟩
  have hkept := (hintact _ t _ _ (.init hfresh) hrun hdone (by decide)).stream
  rw [hstream] at hkept
  cases hkept

end Session

end EpollServer
