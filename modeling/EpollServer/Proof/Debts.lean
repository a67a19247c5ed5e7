import EpollServer.Proof.Service

/-!
# What the server and its connections still cost

The debts of the server and of its connections together. The server pays for its own work, and each connection for
the steps of its handlers and for the rounds of the loop in which its channel is returned. So every step of the whole
is paid for, and only peers, new connections and calls that are interrupted or write nothing bring new debt in.
-/

namespace EpollServer

/-- What the answers to what arrived on a socket cost, as long as nothing has been read. -/
def Socket.debt (k : Socket) : Nat :=
  k.recvQueue.length + 22 * k.received.length + if k.sendFull then 10 else 0

/-- What a ready channel brings in from outside. -/
def Ready.credit : Ready → Nat
  | .accept => 20
  | .wakeup | .conn _ _ _ => 0

namespace Network

variable {n n' : Network} {action : Action} {t c : Nat} {move : Move} {full : Bool} {o : Outcome}

/-- The debt that a step brings in from outside: a peer, a new connection, and a call that is interrupted or writes
nothing. -/
def Action.credit : Action → Nat
  | .peer _ .drain => 1
  | .peer _ event => 34 * event.action.credit
  | .thread _ (.epollWait ready) _ =>
      (ready.map Ready.credit).sum + if ∀ item ∈ ready, item = .accept then 5 else 0
  | .thread _ (.run label) full => 34 * (label.retries + label.stalls full)
  | .thread _ _ _ => 0

/-- What the item of a connection that is not registered yet may cost: it can become ready in `EnableET` and in
`EnableRead`. -/
def itemDebt (stage : Stage) (ready : Bool) : Nat :=
  (if stage = .construct then 18 else 9) + if ready then 9 else 0

/-- What connection `c` still costs, besides the work of the server: before it is registered, what its endpoint will
cost at most, and after it is deregistered, nothing. -/
def share (n : Network) (c : Nat) : Nat :=
  if (n.server.slots c).stage.index ≤ Stage.enableRead.index then
    (n.sockets c).debt + itemDebt (n.server.slots c).stage (n.ready c)
  else if (n.server.slots c).unregistered = 0 then (n.endpoint c).debt else 0

/-- What the server and its first `count` connections still cost. -/
def debt (n : Network) (count : Nat) : Nat :=
  -- a step of its handlers brings the server as much as the close callback, and a returned channel less
  n.server.debt + 34 * ∑ c ∈ Finset.range count, n.share c

theorem share_of_early (hearly : (n.server.slots c).stage.index ≤ Stage.enableRead.index) :
    n.share c = (n.sockets c).debt + itemDebt (n.server.slots c).stage (n.ready c) := if_pos hearly

theorem share_of_up (hup : n.Up c) : n.share c = (n.endpoint c).debt := by
  rw [share, if_neg (Nat.not_le.mpr hup.enabled), if_pos hup.registered]

theorem share_of_down (henabled : Stage.enableRead.index < (n.server.slots c).stage.index)
    (hdown : (n.server.slots c).unregistered ≠ 0) : n.share c = 0 := by
  rw [share, if_neg (Nat.not_le.mpr henabled), if_neg hdown]

/-- A connection that is registered costs no more than before. -/
theorem debt_of_fresh (h : (n.endpoint c).Fresh) : (n.endpoint c).debt ≤ (n.sockets c).debt + 9 := by
  have hsession := h.session
  have hsocket : (n.endpoint c).socket = n.sockets c := rfl
  rw [Endpoint.debt, hsession.stack, hsession.history, hsocket, Socket.debt]
  simp only [History.new, List.length_nil, List.map_nil, List.sum_nil]
  split <;> split <;> omega

/-- Where the callbacks are the echo server's, they are those of each connection by itself. -/
theorem endpoint_of_answers (hn : Machine.Reachable Network.step Answers Fresh n) (hup : n.Up c) :
    Machine.Reachable Endpoint.step Endpoint.Answers Endpoint.Fresh (n.endpoint c) :=
  endpoint_of_reachable (fun _ _ h => h.registers) (fun _ _ _ hs _ hok h => hok.endpoint hs h) hn hup

theorem regular_of_answers (hn : Machine.Reachable Network.step Answers Fresh n) : n.server.Regular :=
  (kept_of_reachable (fun _ _ h => h.registers) hn).1

/-- A connection is not registered yet, is registered, or was deregistered. -/
theorem share_cases (n : Network) (c : Nat) :
    (n.server.slots c).stage.index ≤ Stage.enableRead.index ∨ n.Up c ∨
      Stage.enableRead.index < (n.server.slots c).stage.index ∧ (n.server.slots c).unregistered ≠ 0 := by
  by_cases hearly : (n.server.slots c).stage.index ≤ Stage.enableRead.index
  · exact .inl hearly
  · by_cases hregistered : (n.server.slots c).unregistered = 0
    · exact .inr (.inl ⟨Nat.lt_of_not_le hearly, hregistered⟩)
    · exact .inr (.inr ⟨Nat.lt_of_not_le hearly, hregistered⟩)

/-- What a peer does pays for the rounds and the answers that follow. -/
theorem share_peer {k : Nat} {event : Peer} (hn : Machine.Reachable Network.step Answers Fresh n)
    (h : n.step (.peer k event) = some n') :
    n'.share k + (if event = .drain then 0 else 1) ≤ n.share k + event.action.credit := by
  obtain ⟨socket, hpeer, hn'⟩ := step_peer h
  have hserver : n'.server = n.server := by rw [hn']
  rcases n.share_cases k with hearly | hup | ⟨henabled, hdown⟩
  · have hsocket : n'.sockets k = socket := by rw [hn']; exact Function.update_self ..
    have hready : n'.ready k = true := by rw [hn']; exact Function.update_self ..
    rw [share_of_early hearly, share_of_early (by rwa [hserver]), hserver, hsocket, hready]
    simp only [itemDebt, Socket.debt]
    cases event with
    | arrive bytes | fin =>
        obtain ⟨-, h⟩ := Option.ite_none_right_eq_some.mp hpeer
        cases h
        simp only [Peer.action, Endpoint.Action.credit, List.length_append, reduceCtorEq, if_true, if_false]
        omega
    | drain =>
        obtain ⟨hfull, h⟩ := Option.ite_none_right_eq_some.mp hpeer
        cases h
        simp only [Peer.action, Endpoint.Action.credit, hfull, if_true, Bool.false_eq_true, if_false]
        omega
  · have hok : n.Registers (.peer k event) := trivial
    have hup' : n'.Up k := ⟨hserver ▸ hup.enabled, hserver ▸ hup.registered⟩
    have hfollows := endpoint_step (regular_of_answers hn) hok h hup hup'.registered
    rw [projects, if_pos rfl] at hfollows
    have hanswers : (n.endpoint k).Answers event.action := by cases event <;> trivial
    have hpays := Endpoint.debt_step (endpoint_of_answers hn hup) hanswers hfollows
    rw [share_of_up hup, share_of_up hup']
    split <;> omega
  · rw [share_of_down henabled hdown, share_of_down (by rwa [hserver]) (by rwa [hserver])]
    cases event <;> simp [Peer.action, Endpoint.Action.credit]

theorem share_peer_of_ne {k : Nat} {event : Peer} (h : n.step (.peer k event) = some n') (hne : c ≠ k) :
    n'.share c = n.share c := by
  obtain ⟨socket, -, hn'⟩ := step_peer h
  have hserver : n'.server = n.server := by rw [hn']
  have hsocket : n'.sockets c = n.sockets c := by rw [hn']; exact Function.update_of_ne hne _ _
  have hready : n'.ready c = n.ready c := by rw [hn']; exact Function.update_of_ne hne _ _
  have hendpoint : n'.endpoint c = n.endpoint c :=
    endpoint_congr (by rw [hserver]) (by rw [hserver]) hsocket hready
  rw [share, share, hserver, hsocket, hready, hendpoint]

/-- A connection that a thread deals with is not deregistered before or meanwhile. -/
theorem frame_of_projects (hs : n.server.Regular) {a : Endpoint.Action}
    (hprojects : n.projects c (.thread t move full) = some a) (h : Server.Goes n.server t move o) :
    (n.server.slots c).unregistered = 0 ∧ ((n.server.after t o).slots c).unregistered = 0 := by
  obtain ⟨hw, -, hsound⟩ := hs.sound
  cases move with
  | epollWait ready =>
      obtain ⟨hmem, -⟩ := Option.ite_none_right_eq_some.mp hprojects
      obtain ⟨-, hready, heffect, -⟩ := h.of_epollWait
      obtain ⟨-, events, hitem⟩ := hw.loop_of_returned hready hmem
      obtain ⟨registered, hentry, -⟩ := Server.entry_of_reports (hready _ hitem)
      have hregistered := hsound.registered _ _ _ _ hentry
      have hslots : (n.server.after t o).slots = n.server.slots := by
        rw [Server.after, heffect]
        rfl
      rw [hslots]
      exact ⟨hregistered, hregistered⟩
  | run label =>
      obtain ⟨hruns, -⟩ := Option.ite_none_right_eq_some.mp hprojects
      obtain ⟨hbusy, session, heffect⟩ := h.of_runs hruns
      have hregistered := (up_of_busy hs hbusy).registered
      rw [Server.slots_after_session heffect]
      exact ⟨hregistered, hregistered⟩
  | accept | construct | next => cases hprojects

/-- A step of a connection that is registered. -/
theorem share_of_projects (hn : Machine.Reachable Network.step Answers Fresh n) (hup : n.Up c)
    (hok : n.Answers action) (h : n.step action = some n') (hup' : n'.Up c) :
    n'.share c + (n.projects c action).elim 0 (fun _ => 1) ≤
      n.share c + (n.projects c action).elim 0 Endpoint.Action.credit := by
  have hs := regular_of_answers hn
  have hfollows := endpoint_step hs hok.registers h hup hup'.registered
  rw [share_of_up hup, share_of_up hup']
  cases hcase : n.projects c action with
  | none =>
      rw [hcase] at hfollows
      have hsame : n'.endpoint c = n.endpoint c := hfollows
      rw [hsame]
      exact Nat.le_refl _
  | some a =>
      rw [hcase] at hfollows
      change (n'.endpoint c).debt + 1 ≤ (n.endpoint c).debt + a.credit
      exact Endpoint.debt_step (endpoint_of_answers hn hup) (hok.endpoint hs hcase) hfollows

section Early

variable (hs : n.server.Regular) (h : Server.Goes n.server t move o) {sockets : Nat → Socket}
  (hanswer : n.answer o.effect full = some sockets)
  (hearly : (n.server.slots c).stage.index ≤ Stage.enableRead.index)
include hs h hearly

theorem event_of_early {label : Label} {session : Session} (heffect : o.effect = .session c label session) :
    ∃ events, label = .event events := by
  obtain ⟨-, ⟨fd, events, rfl, -⟩ | ⟨hbusy, -⟩⟩ := h.session heffect
  · exact ⟨events, rfl⟩
  · exact absurd (up_of_busy hs hbusy).enabled (Nat.not_lt.mpr hearly)

include hanswer

theorem socket_of_early : sockets c = n.sockets c := by
  by_cases hsession : ∃ label session, o.effect = .session c label session
  · obtain ⟨label, session, heffect⟩ := hsession
    obtain ⟨hfile, -, hanswer⟩ := answer_live hs h heffect hanswer
    exact (answer_session hfile hanswer).2.1 (event_of_early hs h hearly heffect)
  · exact socket_other hs h (fun label session heq => hsession ⟨label, session, heq⟩) hanswer

/-- While a connection is set up, its item pays for what becomes ready. -/
theorem itemDebt_of_early (hmove : ∀ ready, move ≠ .epollWait ready)
    (hearly' : ((n.server.after t o).slots c).stage.index ≤ Stage.enableRead.index) :
    itemDebt ((n.server.after t o).slots c).stage ((n.after t move o sockets).ready c) ≤
      itemDebt (n.server.slots c).stage (n.ready c) := by
  have hw := Server.wired_of_reachable hs.fresh
  by_cases hconstruct : ∃ fd state tied ok, o.effect = .construct c fd state tied ok
  · obtain ⟨fd, state, tied, ok, heffect⟩ := hconstruct
    rw [Server.stage_construct_after heffect, h.stage_of_construct hw heffect]
    simp only [itemDebt, reduceCtorEq, if_true, if_false]
    split <;> omega
  · have hrearm : n.rearm o.effect (n.server.after t o) c = n.ready c := by
      refine rearm_other hs h (fun ok session heffect => ?_) (fun fd state tied ok heffect => ?_)
        (fun ok heffect hstage => ?_) hanswer
      · obtain ⟨events, hlabel⟩ := event_of_early hs h hearly heffect
        cases hlabel
      · exact hconstruct ⟨fd, state, tied, ok, heffect⟩
      · rw [Server.stage_establish_after heffect, Slot.establish, hstage] at hearly'
        exact absurd hearly' (show ¬Stage.onConnect.index ≤ Stage.enableRead.index by decide)
    have hready : (n.after t move o sockets).ready c = n.ready c := by
      cases move with
      | epollWait ready => exact absurd rfl (hmove ready)
      | _ => exact (Bool.and_true _).trans hrearm
    rw [hready, itemDebt, itemDebt]
    by_cases hstage : (n.server.slots c).stage = .construct
    · rw [if_pos hstage]
      split <;> omega
    · rw [if_neg hstage, if_neg (h.constructed hw hstage)]

end Early

/-- A round in which the channel of a connection is returned that is not registered yet takes its item. -/
theorem share_of_early_returned (hs : n.server.Regular) {ready : List Ready} {sockets : Nat → Socket}
    (hgoes : Server.Goes n.server t (.epollWait ready) o) (hwaits : n.Waits t (.epollWait ready))
    (hanswer : n.answer o.effect full = some sockets)
    (hearly : (n.server.slots c).stage.index ≤ Stage.enableRead.index) :
    (n.after t (.epollWait ready) o sockets).share c +
      (n.projects c (.thread t (.epollWait ready) full)).elim 0 (fun _ => 1) ≤ n.share c := by
  have hsocket := socket_of_early hs hgoes hanswer hearly
  obtain ⟨-, hslots, hitems⟩ := after_epollWait hgoes hanswer
  have hearly' : ((n.server.after t o).slots c).stage.index ≤ Stage.enableRead.index := by rwa [hslots]
  rw [share_of_early hearly, share_of_early (n := n.after t (.epollWait ready) o sockets) hearly']
  change (sockets c).debt + itemDebt ((n.server.after t o).slots c).stage _ + _ ≤ _
  rw [hslots, hitems, hsocket, projects]
  by_cases hmem : c ∈ ready.filterMap Ready.conn?
  · rw [if_pos hmem, (returns_iff hs hgoes.of_epollWait.2.1).mpr hmem, ready_of_returned hs hgoes hwaits hmem]
    simp only [itemDebt, Option.elim, Bool.not_true, Bool.and_false, if_true, Bool.false_eq_true, if_false]
    omega
  · rw [if_neg hmem]
    simp only [itemDebt, Option.elim]
    cases n.ready c <;> simp
    split <;> omega

/-- A connection that is being set up costs no more than before. -/
theorem share_of_early_other (hn : Machine.Reachable Network.step Answers Fresh n)
    (hearly : (n.server.slots c).stage.index ≤ Stage.enableRead.index)
    (hok : n.Answers (.thread t move full)) (h : n.step (.thread t move full) = some n')
    (hmove : ∀ ready, move ≠ .epollWait ready) : n'.share c ≤ n.share c := by
  have hs := regular_of_answers hn
  have hkept := (kept_of_reachable (fun _ _ h => Answers.registers h) (.step hn hok h)).2
  have hstep := h
  obtain ⟨-, -, o, sockets, hgoes, -, hanswer, rfl⟩ := step_thread h
  have hsocket : (n.after t move o sockets).sockets c = n.sockets c := socket_of_early hs hgoes hanswer hearly
  rw [share_of_early hearly]
  rcases (n.after t move o sockets).share_cases c with hearly' | hup' | ⟨henabled, hdown⟩
  · rw [share_of_early hearly', hsocket]
    exact Nat.add_le_add_left (itemDebt_of_early hs hgoes hanswer hearly hmove hearly') _
  · have hfresh := debt_of_fresh (endpoint_fresh hs hok.registers hstep hkept hearly hup')
    rw [hsocket] at hfresh
    rw [share_of_up hup', itemDebt]
    split <;> omega
  · rw [share_of_down henabled hdown]
    exact Nat.zero_le _

/-- A step on a connection that is not registered yet. -/
theorem share_of_early_step (hn : Machine.Reachable Network.step Answers Fresh n)
    (hearly : (n.server.slots c).stage.index ≤ Stage.enableRead.index)
    (hok : n.Answers (.thread t move full)) (h : n.step (.thread t move full) = some n') :
    n'.share c + (n.projects c (.thread t move full)).elim 0 (fun _ => 1) ≤ n.share c := by
  have hs := regular_of_answers hn
  by_cases hwait : ∃ ready, move = .epollWait ready
  · obtain ⟨ready, rfl⟩ := hwait
    obtain ⟨-, hwaits, o, sockets, hgoes, -, hanswer, rfl⟩ := step_thread h
    exact share_of_early_returned hs hgoes hwaits hanswer hearly
  · have hmove : ∀ ready, move ≠ .epollWait ready := fun ready heq => hwait ⟨ready, heq⟩
    have hnone : n.projects c (.thread t move full) = none := by
      obtain ⟨-, -, o, sockets, hgoes, -, -, -⟩ := step_thread h
      cases move with
      | epollWait ready => exact absurd rfl (hmove ready)
      | run label =>
          refine if_neg fun hruns => ?_
          exact absurd (up_of_busy hs (hgoes.of_runs hruns).1).enabled (Nat.not_lt.mpr hearly)
      | accept | construct | next => rfl
    rw [hnone]
    exact share_of_early_other hn hearly hok h hmove

/-- **What a step of a thread costs each connection.** -/
theorem share_thread (hn : Machine.Reachable Network.step Answers Fresh n)
    (hok : n.Answers (.thread t move full)) (h : n.step (.thread t move full) = some n') (c : Nat) :
    n'.share c + (n.projects c (.thread t move full)).elim 0 (fun _ => 1) ≤
      n.share c + (n.projects c (.thread t move full)).elim 0 Endpoint.Action.credit := by
  have hs := regular_of_answers hn
  obtain ⟨ht, -, o, sockets, hgoes, -, -, hn'⟩ := step_thread h
  have hserver : n'.server = n.server.after t o := by rw [hn']; rfl
  obtain ⟨hw, -, hsound⟩ := hs.sound
  have hindex := hgoes.index_le hw c
  have hcounts := (hsound.counts hw ht hgoes c).unregistered
  rw [← hserver] at hindex hcounts
  have hprojects (hdown : (n.server.slots c).unregistered ≠ 0 ∨ (n'.server.slots c).unregistered ≠ 0) :
      n.projects c (.thread t move full) = none := by
    by_contra hsome
    obtain ⟨a, hsome⟩ := Option.ne_none_iff_exists'.mp hsome
    obtain ⟨hbefore, hafter⟩ := frame_of_projects hs hsome hgoes
    rw [← hserver] at hafter
    exact hdown.elim (absurd hbefore) (absurd hafter)
  rcases n.share_cases c with hearly | hup | ⟨henabled, hdown⟩
  · exact Nat.le_add_right_of_le (share_of_early_step hn hearly hok h)
  · by_cases hregistered : (n'.server.slots c).unregistered = 0
    · exact share_of_projects hn hup hok h ⟨Nat.lt_of_lt_of_le hup.enabled hindex, hregistered⟩
    · rw [hprojects (.inr hregistered), share_of_down (Nat.lt_of_lt_of_le hup.enabled hindex) hregistered]
      exact Nat.zero_le _
  · rw [hprojects (.inl hdown), share_of_down (Nat.lt_of_lt_of_le henabled hindex) (by omega)]
    exact Nat.zero_le _

/-- What `epoll_wait` brings in is paid for by the connections whose channels it returns. -/
theorem batchDebt_le (ready : List Ready) (t : Nat) (full : Bool) : Pc.batchDebt ready ≤
    34 * (ready.filterMap Ready.conn?).length + (Action.thread t (.epollWait ready) full).credit := by
  have hsum : (ready.map Ready.debt).sum
      = 4 * (ready.filterMap Ready.conn?).length + (ready.map Ready.credit).sum := by
    induction ready with
    | nil => rfl
    | cons item ready ih =>
        cases item <;> simp only [List.map_cons, List.sum_cons, List.filterMap_cons, Ready.conn?, Ready.debt,
          Ready.credit, List.length_cons, ih] <;> omega
  rw [Pc.batchDebt, Action.credit, hsum]
  by_cases hwakeup : .wakeup ∈ ready
  · rw [if_pos hwakeup]
    omega
  · rw [if_neg hwakeup]
    by_cases hconn : ready.filterMap Ready.conn? = []
    · have haccept : ∀ item ∈ ready, item = .accept := by
        intro item hitem
        cases item with
        | accept => rfl
        | wakeup => exact absurd hitem hwakeup
        | conn fd c events =>
            have hmem : c ∈ ready.filterMap Ready.conn? := List.mem_filterMap.mpr ⟨_, hitem, rfl⟩
            rw [hconn] at hmem
            cases hmem
      rw [if_pos haccept]
      omega
    · have hpos := List.length_pos_of_ne_nil hconn
      omega

/-- Only connections that have been accepted are dealt with. -/
theorem lt_of_projects (hs : n.server.Regular) {a : Endpoint.Action}
    (hprojects : n.projects c (.thread t move full) = some a) (h : Server.Goes n.server t move o) :
    c < n.server.accepted := by
  have hw := Server.wired_of_reachable hs.fresh
  by_contra hle
  have hstage := hw.fresh c (Nat.le_of_not_lt hle)
  cases move with
  | epollWait ready =>
      obtain ⟨hmem, -⟩ := Option.ite_none_right_eq_some.mp hprojects
      obtain ⟨-, events, hitem⟩ := hw.loop_of_returned h.of_epollWait.2.1 hmem
      obtain ⟨registered, hentry, -⟩ := Server.entry_of_reports (h.of_epollWait.2.1 _ hitem)
      exact (hw.epoll _ _ _ _ hentry).1.constructed hstage
  | run label =>
      obtain ⟨hruns, -⟩ := Option.ite_none_right_eq_some.mp hprojects
      exact (up_of_busy hs (h.of_runs hruns).1).constructed hstage
  | accept | construct | next => cases hprojects

section Sum

variable {count : Nat}

theorem sum_projects_run (f : Endpoint.Action → Nat) {label : Label}
    (hruns : n.server.runs (t, .run label) = some (c, label)) (hc : c < count) :
    ∑ i ∈ Finset.range count, (n.projects i (.thread t (.run label) full)).elim 0 f = f (.run label full) := by
  rw [Finset.sum_eq_single_of_mem c (Finset.mem_range.mpr hc)]
  · rw [projects, if_pos hruns]
    rfl
  · intro i _ hne
    rw [projects, if_neg]
    · rfl
    · rw [hruns]
      rintro ⟨⟩
      exact hne rfl

theorem length_le_sum_projects (n : Network) (t : Nat) (full : Bool) {ready : List Ready}
    (hnodup : (ready.filterMap Ready.conn?).Nodup)
    (hlt : ∀ c ∈ ready.filterMap Ready.conn?, c < count) : (ready.filterMap Ready.conn?).length ≤
      ∑ i ∈ Finset.range count, (n.projects i (.thread t (.epollWait ready) full)).elim 0 fun _ => 1 := by
  have hsubset : (ready.filterMap Ready.conn?).toFinset ⊆ Finset.range count :=
    fun c hc => Finset.mem_range.mpr (hlt c (List.mem_toFinset.mp hc))
  calc (ready.filterMap Ready.conn?).length
      = (ready.filterMap Ready.conn?).toFinset.card := (List.toFinset_card_of_nodup hnodup).symm
    _ = ∑ i ∈ (ready.filterMap Ready.conn?).toFinset,
          (n.projects i (.thread t (.epollWait ready) full)).elim 0 fun _ => 1 := by
        rw [Finset.card_eq_sum_ones]
        refine Finset.sum_congr rfl fun i hi => ?_
        rw [projects, if_pos (List.mem_toFinset.mp hi)]
        rfl
    _ ≤ _ := Finset.sum_le_sum_of_subset hsubset

/-- **Every step of a thread is paid for.** -/
theorem debt_thread (hn : Machine.Reachable Network.step Answers Fresh n) (hok : n.Answers (.thread t move full))
    (h : n.step (.thread t move full) = some n') (hcount : n'.server.accepted ≤ count) :
    n'.debt count + 1 ≤ n.debt count + (Action.thread t move full).credit := by
  have hs := regular_of_answers hn
  have hdistinct := Server.distinct_of_reachable (regular_of_answers (.step hn hok h)).fresh t
  have hshares := Finset.sum_le_sum fun c (_ : c ∈ Finset.range count) => share_thread hn hok h c
  rw [Finset.sum_add_distrib, Finset.sum_add_distrib] at hshares
  obtain ⟨ht, -, o, sockets, hgoes, -, -, hn'⟩ := step_thread h
  have hserver : n'.server = n.server.after t o := by rw [hn']; rfl
  have hpays := hgoes.debt hs ht
  have haccepted : n.server.accepted ≤ count := by
    rw [hserver] at hcount
    rcases hgoes.accepted with heq | ⟨heq, -⟩ <;> omega
  have hlt : ∀ c a, n.projects c (.thread t move full) = some a → c < count :=
    fun c a hprojects => Nat.lt_of_lt_of_le (lt_of_projects hs hprojects hgoes) haccepted
  rw [← hserver] at hpays
  unfold debt
  cases move with
  | epollWait ready =>
      have hnodup : (ready.filterMap Ready.conn?).Nodup := by
        rw [hserver, Server.threads_after_self, hgoes.of_epollWait.2.2.2] at hdistinct
        exact hdistinct
      have hlength := length_le_sum_projects n t full hnodup fun c hc => hlt c .epollWait (if_pos hc)
      have hzero : ∑ c ∈ Finset.range count,
          (n.projects c (.thread t (.epollWait ready) full)).elim 0 Endpoint.Action.credit = 0 := by
        refine Finset.sum_eq_zero fun c _ => ?_
        rw [projects]
        split <;> rfl
      have hbatch := batchDebt_le ready t full
      have hcredit : (Move.epollWait ready).credit = Pc.batchDebt ready := rfl
      omega
  | run label =>
      obtain ⟨c, hruns⟩ : ∃ c, n.server.runs (t, .run label) = some (c, label) := by
        cases hgoes with
        | @run c guard rest label session hthread => exact ⟨c, by rw [Server.runs, hthread]⟩
      have hc := hlt c _ (if_pos hruns)
      rw [sum_projects_run _ hruns hc, sum_projects_run _ hruns hc] at hshares
      have hcredit : (Move.run label).credit ≤ 34 := by cases label <;> simp [Move.credit]
      simp only [Action.credit, Endpoint.Action.credit] at hshares ⊢
      omega
  | accept | construct | next =>
      simp only [projects, Option.elim, Finset.sum_const_zero] at hshares
      simp only [Move.credit] at hpays
      simp only [Action.credit]
      omega

theorem debt_peer {k : Nat} {event : Peer} (hn : Machine.Reachable Network.step Answers Fresh n)
    (h : n.step (.peer k event) = some n') :
    n'.debt count + 1 ≤ n.debt count + (Action.peer k event).credit := by
  have hpays := share_peer hn h
  have hother : ∀ c, c ≠ k → n'.share c = n.share c := fun c hne => share_peer_of_ne h hne
  have hserver : n'.server = n.server := by
    obtain ⟨socket, -, hn'⟩ := step_peer h
    rw [hn']
  have hsum : ∑ c ∈ Finset.range count, n'.share c + (if event = .drain then 0 else 1) ≤
      ∑ c ∈ Finset.range count, n.share c + event.action.credit := by
    by_cases hk : k ∈ Finset.range count
    · have herase : ∑ c ∈ (Finset.range count).erase k, n'.share c
          = ∑ c ∈ (Finset.range count).erase k, n.share c :=
        Finset.sum_congr rfl fun c hc => hother c (Finset.ne_of_mem_erase hc)
      have hsplit := Finset.sum_erase_add (Finset.range count) n.share hk
      have hsplit' := Finset.sum_erase_add (Finset.range count) n'.share hk
      omega
    · rw [Finset.sum_congr rfl fun c hc => hother c fun heq => hk (heq ▸ hc)]
      cases event <;> simp [Peer.action, Endpoint.Action.credit]
  rw [debt, debt, hserver]
  cases event with
  | drain =>
      simp only [Peer.action, Endpoint.Action.credit, if_true] at hsum
      simp only [Action.credit]
      omega
  | arrive | fin =>
      simp only [reduceCtorEq, if_false] at hsum
      simp only [Action.credit]
      omega

/-- **A run is paid for.** It takes no more steps than what the server and its connections cost at the start, and what
comes from outside, brings in. -/
theorem debt_run (hn : Machine.Reachable Network.step Answers Fresh n) {actions : List Action}
    (hrun : Machine.run Network.step Answers n actions = some n') :
    n'.debt n'.server.accepted + actions.length ≤
      n.debt n'.server.accepted + (actions.map Action.credit).sum := by
  have hstep : ∀ n action n', Machine.Reachable Network.step Answers Fresh n → n.Answers action →
      n.step action = some n' → Machine.Reachable Network.step Answers Fresh n' ∧
        n.server.accepted ≤ n'.server.accepted ∧ ∀ count, n'.server.accepted ≤ count →
          n'.debt count + 1 ≤ n.debt count + action.credit := by
    intro n action n' hn hok h
    refine ⟨.step hn hok h, ?_⟩
    cases action with
    | peer k event =>
        refine ⟨?_, fun _ _ => debt_peer hn h⟩
        obtain ⟨socket, -, rfl⟩ := step_peer h
        exact Nat.le_refl _
    | thread t move full =>
        refine ⟨?_, fun _ hcount => debt_thread hn hok h hcount⟩
        obtain ⟨-, -, o, sockets, hgoes, -, -, rfl⟩ := step_thread h
        change n.server.accepted ≤ (n.server.after t o).accepted
        rcases hgoes.accepted with heq | ⟨heq, -⟩ <;> omega
  have hpays := (Machine.run_spends_upTo (fun n => n.server.accepted) (fun count n => n.debt count) (fun _ => 1)
    Action.credit hstep hn hrun).2 _ (Nat.le_refl _)
  rwa [List.map_const', List.sum_replicate_nat, Nat.mul_one] at hpays

end Sum

end Network

end EpollServer
