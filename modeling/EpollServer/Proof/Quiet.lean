import EpollServer.Proof.Debts

/-!
# The server falls quiet, and everyone has been answered

A server that can go on only with the help of its peers has nothing left to do: its threads wait, no item is ready,
and every open connection that can send has been answered.
-/

namespace EpollServer

open Framing

/-- What is reported holds. -/
theorem EpollEvents.reported_reported (current registered : EpollEvents) :
    (current.reported registered).reported registered = current.reported registered := by
  simp [reported]

namespace Network

variable {n n' : Network} {action : Action} {t c : Nat} {move : Move} {full : Bool} {o : Outcome}

/-- The connection in whose handlers the action is a step, with that step. -/
def runs (n : Network) : Action → Option (Nat × Label)
  | .peer _ _ => none
  | .thread t move _ => n.server.runs (t, move)

/-- The callbacks are the echo server's, `epoll_ctl` succeeds, and no system call fails for good. -/
def Serves (n : Network) (action : Action) : Prop :=
  n.Answers action ∧ ∀ step ∈ n.runs action, step.2.fails = false

instance (n : Network) (action : Action) : Decidable (n.Serves action) := by
  unfold Serves
  infer_instance

theorem Serves.echoes (h : n.Serves action) (c : Nat) : Echoes c n action := by
  refine ⟨h.1, ?_⟩
  cases action with
  | peer => trivial
  | thread t move full => exact fun step hstep _ => h.2 step hstep

theorem echoes_of_serves (hn : Machine.Reachable Network.step Serves Fresh n) (c : Nat) :
    Machine.Reachable Network.step (Echoes c) Fresh n :=
  hn.mono (fun _ h => h) fun _ _ h => h.echoes c

theorem regular_of_serves (hn : Machine.Reachable Network.step Serves Fresh n) : n.server.Regular :=
  (kept_of_reachable (fun _ _ h => h.1.registers) hn).1

theorem isSome_step (ht : t ≤ n.server.threadNums) (hwaits : n.Waits t move)
    (hcontrol : n.server.control t move = some o) (hanswer : (n.answer o.effect full).isSome) :
    (n.step (.thread t move full)).isSome := by
  obtain ⟨sockets, hsockets⟩ := Option.isSome_iff_exists.mp hanswer
  rw [step, if_pos ⟨ht, hwaits⟩, hcontrol, Option.bind_eq_bind, Option.bind_some, hsockets]
  rfl

/-- A step that is in no handlers makes no system call on a socket. -/
theorem isSome_answer (h : Server.Goes n.server t move o) (hmove : ∀ label, move ≠ .run label) :
    (n.answer o.effect full).isSome := by
  cases heffect : o.effect with
  | session c label session =>
      obtain ⟨-, ⟨fd, events, rfl, -⟩ | ⟨-, hrun, -⟩⟩ := h.session heffect
      · rfl
      · exact absurd hrun (hmove label)
  | _ => rfl

theorem serves_of_not_run (hok : n.server.Registers (t, move)) (hmove : ∀ label, move ≠ .run label) :
    n.Serves (.thread t move full) := by
  have hruns : n.server.runs (t, move) = none := by
    unfold Server.runs
    split
    · rename_i label _ hrun
      exact absurd hrun (hmove label)
    · rfl
  refine ⟨⟨hok, ?_⟩, ?_⟩
  · rw [hruns]
    intro step hstep
    cases hstep
  · rw [runs, hruns]
    intro step hstep
    cases hstep

section Run

variable {guard : Bool} {rest : List Ready} {label : Label} (hs : n.server.Regular)
  (hthread : n.server.threads t = ⟨.handleEvent c guard rest, []⟩)
include hs hthread

/-- What its endpoint can do the handlers of a connection can do. -/
theorem isSome_run (ht : t ≤ n.server.threadNums) (hbusy : (n.server.slots c).session.stack ≠ [])
    (hstep : ((n.endpoint c).step (.run label full)).isSome) : (n.step (.thread t (.run label) full)).isSome := by
  obtain ⟨e, hstep⟩ := Option.isSome_iff_exists.mp hstep
  rw [endpoint_of_handling hs (congrArg Thread.pc hthread)] at hstep
  obtain ⟨socket, hanswer, hstep⟩ := Option.bind_eq_some_iff.mp hstep
  obtain ⟨session, hsession, -⟩ := Option.bind_eq_some_iff.mp hstep
  have hsession : (n.server.slots c).session.step label = some session := hsession
  have hcontrol : n.server.control t (.run label) = some (n.server.goOn t (.session c label session)
      (.handleEvent c guard rest)
      (if label = .onClose then [.runOneFunc 0 (.handleCloseInLoop c), .release c] else [])) := by
    rw [Server.control_of_idle hthread, Server.advance, Server.handle, if_neg hbusy, hsession]
    rfl
  refine isSome_step ht trivial hcontrol ?_
  have hfile := (up_of_busy hs hbusy).file hs
  change (n.answer (.session c label session) full).isSome
  cases label with
  | read count r =>
      have hread : (n.sockets c).read count r = some socket := hanswer
      rw [answer, hfile]
      dsimp only
      rw [hread]
      rfl
  | write bytes r =>
      rw [answer, hfile]
      rfl
  | _ => rfl

theorem serves_run (hecho : (n.endpoint c).Echoes (.run label full)) :
    n.Serves (.thread t (.run label) full) := by
  rw [endpoint_of_handling hs (congrArg Thread.pc hthread)] at hecho
  have hruns : n.server.runs (t, .run label) = some (c, label) := by
    rw [Server.runs, hthread]
  refine ⟨⟨?_, ?_⟩, ?_⟩
  · cases label with
    | epollCtl ok => exact hecho
    | _ => trivial
  · rw [hruns]
    rintro step ⟨⟩
    exact hecho.session
  · rw [runs, hruns]
    rintro step ⟨⟩
    cases label with
    | read | write => exact hecho
    | _ => rfl

end Run

/-- A step of the server that brings in no debt brings in none here. -/
theorem credit_of_credit (n : Network) (t : Nat) (full : Bool) (hcredit : move.credit = 0) :
    (Action.thread t move full).credit = 0 ∧ (∀ label, move ≠ .run label) ∧ n.Waits t move := by
  cases move with
  | epollWait ready =>
      have hdebt : Pc.batchDebt ready = 0 := hcredit
      have hwakeup : .wakeup ∈ ready := by
        by_contra hnot
        rw [Pc.batchDebt, if_neg hnot] at hdebt
        omega
      have hall : ∀ item ∈ ready, item = .wakeup := by
        intro item hitem
        have hle := List.single_le_sum (fun _ _ => Nat.zero_le _) _ (List.mem_map_of_mem (f := Ready.debt) hitem)
        rw [Pc.batchDebt] at hdebt
        cases item with
        | wakeup => rfl
        | accept | conn =>
            simp only [Ready.debt] at hle
            omega
      refine ⟨?_, by simp, fun item hitem => ?_⟩
      · have hzero : (ready.map Ready.credit).sum = 0 := by
          refine List.sum_eq_zero fun credit hmem => ?_
          obtain ⟨item, hitem, rfl⟩ := List.mem_map.mp hmem
          rw [hall item hitem]
          rfl
        rw [Action.credit, hzero, if_neg fun haccept => by cases haccept _ hwakeup]
      · rw [hall item hitem]
        trivial
  | run label => cases label <;> cases hcredit
  | accept | construct | next => exact ⟨rfl, by simp, trivial⟩

/-- Every step would bring in debt. -/
def Stuck (n : Network) : Prop := ∀ action, n.Serves action → action.credit = 0 → n.step action = none

section Stuck

variable (hn : Machine.Reachable Network.step Serves Fresh n) (hstuck : n.Stuck)
include hn hstuck

theorem Stuck.waits (hfits : ∀ c, (n.server.slots c).session.Fits) (ht : t ≤ n.server.threadNums) :
    n.server.threads t = ⟨.epollWait, []⟩ := by
  have hs := regular_of_serves hn
  rcases hs.goes_on ht with hwaits | ⟨c, guard, rest, hthread, hbusy⟩ | ⟨move, hok, hcredit, hsome⟩
  · exact hwaits
  · have hreachable := endpoint_of_echoes (echoes_of_serves hn c) (up_of_busy hs hbusy)
    have hserving := Endpoint.serving_of_reachable (Endpoint.answers_of_reachable hreachable)
    have hsame : (n.endpoint c).session = (n.server.slots c).session := by
      rw [endpoint_of_handling hs (congrArg Thread.pc hthread)]
    obtain ⟨op, ops, hstack⟩ := List.exists_cons_of_ne_nil hbusy
    rw [← hsame] at hstack
    have hdirect := hserving.answering.buffered op (hstack ▸ List.mem_cons_self)
    have hcan := Op.canRun_of_fits hserving.sending.ok hdirect fun f hop => by
      rw [hsame]
      exact (hfits c).call (hsame ▸ hop ▸ hstack)
    obtain ⟨label, full, hecho, hcredit, hsome⟩ := Endpoint.exists_step hstack hcan
    have hzero : (Action.thread t (.run label) full).credit = 0 := congrArg (34 * ·) hcredit
    have hgoes := isSome_run hs hthread ht hbusy hsome
    rw [hstuck _ (serves_run hs hthread hecho) hzero] at hgoes
    cases hgoes
  · obtain ⟨hzero, hmove, hwaits⟩ := credit_of_credit n t false hcredit
    obtain ⟨s', hstep⟩ := Option.isSome_iff_exists.mp hsome
    obtain ⟨-, hstep⟩ := Option.ite_none_right_eq_some.mp hstep
    obtain ⟨o, hcontrol, -⟩ := Option.map_eq_some_iff.mp hstep
    have hgoes : (n.step (.thread t move false)).isSome :=
      isSome_step ht hwaits hcontrol (isSome_answer (Server.goes_control hcontrol) hmove)
    rw [hstuck _ (serves_of_not_run hok hmove) hzero] at hgoes
    cases hgoes

omit hn in
/-- What `epoll_wait` could return brings in no debt, apart from the listening socket. -/
theorem Stuck.not_announced (hthread : n.server.threads t = ⟨.epollWait, []⟩) (ht : t ≤ n.server.threadNums)
    {item : Ready} (hitem : item ≠ .accept) (hreports : n.server.Reports t item) : ¬n.Announces t item := by
  intro hannounces
  have hcontrol : n.server.control t (.epollWait [item])
      = some (n.server.goOn t .none (.batch [item]) []) := by
    rw [Server.control_of_idle hthread, Server.advance, if_pos]
    exact ⟨List.nodup_singleton _, fun item' hmem => List.mem_singleton.mp hmem ▸ hreports⟩
  have hwaits : n.Waits t (.epollWait [item]) := fun item' hmem => List.mem_singleton.mp hmem ▸ hannounces
  have hgoes : (n.step (.thread t (.epollWait [item]) false)).isSome := isSome_step ht hwaits hcontrol rfl
  have hzero : (Action.thread t (.epollWait [item]) false).credit = 0 := by
    cases item with
    | accept => exact absurd rfl hitem
    | wakeup | conn => simp [Action.credit, Ready.credit]
  have hserves : n.Serves (.thread t (.epollWait [item]) false) :=
    serves_of_not_run (show Move.CtlSucceeds _ from trivial) (by simp)
  rw [hstuck _ hserves hzero] at hgoes
  cases hgoes

end Stuck

/-- The server waits, and so do the connections that are registered. -/
structure Quiet (n : Network) : Prop where
  server : n.server.AtRest
  items : ∀ c, n.Up c → n.ready c = false

theorem Stuck.quiet (hstuck : n.Stuck) (hn : Machine.Reachable Network.step Serves Fresh n)
    (hfits : ∀ c, (n.server.slots c).session.Fits) : n.Quiet := by
  have hs := regular_of_serves hn
  have hw := Server.wired_of_reachable hs.fresh
  have hwaits : ∀ t ≤ n.server.threadNums, n.server.threads t = ⟨.epollWait, []⟩ :=
    fun t ht => hstuck.waits hn hfits ht
  refine ⟨⟨hwaits, fun l hl => Nat.eq_zero_of_not_pos fun hpos => ?_⟩, fun c hup => ?_⟩
  · have hreports : n.server.Reports l .wakeup := hpos
    exact hstuck.not_announced (hwaits l hl) hl (by simp) hreports trivial
  · by_contra hready
    have hentry := hup.entry hs
    have hreports : n.server.Reports (n.server.slots c).eventLoop (.conn (n.server.slots c).fd c
        ((n.sockets c).current.reported (n.server.slots c).session.conn.channel.listeningEvents)) := by
      rw [Server.Reports, hentry]
      exact ⟨rfl, EpollEvents.reported_reported _ _⟩
    refine hstuck.not_announced (hwaits _ (hw.loop_le c)) (hw.loop_le c) (by simp) hreports ?_
    rw [Announces, poll, hup.file hs, hentry]
    exact if_pos (Bool.eq_true_of_not_eq_false hready)

end Network

end EpollServer
