import EpollServer.Proof.Dispatch
import EpollServer.Proof.Flushing
import EpollServer.Proof.Settling

/-!
# The connections of a batch

`epoll_wait` returns a channel at most once, so that the connections of a batch, together with the one whose
handlers run, are distinct. What was returned of a connection stays in the batch of its loop's thread until its
channel is dispatched. And each entry of an epoll set holds what its channel listens to.
-/

namespace EpollServer

/-- The connection of a ready channel. -/
def Ready.conn? : Ready → Option Nat
  | .conn _ c _ => some c
  | .wakeup | .accept => none

/-- The events that were returned for connection `c`. -/
def Ready.reported (c : Nat) : Ready → Option EpollEvents
  | .conn _ c' events => if c' = c then some events else none
  | .wakeup | .accept => none

theorem Ready.reported_eq_some {item : Ready} {c : Nat} {events : EpollEvents}
    (h : item.reported c = some events) : ∃ fd, item = .conn fd c events := by
  cases item with
  | wakeup | accept => cases h
  | conn fd c' events' =>
      obtain ⟨rfl, heq⟩ := Option.ite_none_right_eq_some.mp h
      exact ⟨fd, congrArg _ (Option.some.inj heq)⟩

namespace Pc

/-- The events that were returned for connection `c` and that are still to be handled. -/
def reported (c : Nat) (pc : Pc) : Option EpollEvents := pc.ready.findSome? (Ready.reported c)

/-- The connections of the batch: the one whose handlers run, and those that are ready. -/
def conns : Pc → List Nat
  | .handleEvent c _ rest => c :: rest.filterMap Ready.conn?
  | pc => pc.ready.filterMap Ready.conn?

variable {c : Nat} {pc : Pc}

theorem mem_of_reported {events : EpollEvents} (h : pc.reported c = some events) :
    ∃ fd, .conn fd c events ∈ pc.ready := by
  obtain ⟨item, hmem, hitem⟩ := List.exists_of_findSome?_eq_some h
  obtain ⟨fd, rfl⟩ := Ready.reported_eq_some hitem
  exact ⟨fd, hmem⟩

theorem reported_eq_none_iff : pc.reported c = none ↔ ∀ fd events, .conn fd c events ∉ pc.ready := by
  rw [reported, List.findSome?_eq_none_iff]
  refine ⟨fun h fd events hmem => ?_, fun h item hmem => ?_⟩
  · have hnone := h _ hmem
    simp [Ready.reported] at hnone
  · cases hitem : item.reported c with
    | none => rfl
    | some events =>
        obtain ⟨fd, rfl⟩ := Ready.reported_eq_some hitem
        exact absurd hmem (h fd events)

end Pc

theorem Session.listening_of_not_epollCtl {s s' : Session} {label : Label} (h : s.step label = some s')
    (hlabel : ∀ ok, label ≠ .epollCtl ok) :
    s'.conn.channel.listeningEvents = s.conn.channel.listeningEvents := by
  rcases step_cases h with ⟨-, events, -, rfl⟩ | ⟨-, f, -, rfl⟩ | ⟨op, rest, conn, ops, -, hexec, rfl⟩
  · rfl
  · rfl
  · have hexec := Op.exec_cases hexec
    rcases hexec.listening with hsame | ⟨hop, -⟩
    · exact hsame
    · obtain ⟨ok, heq, -⟩ := (hop ▸ hexec).enableWrite_label
      exact absurd heq (hlabel ok)

namespace Server

variable {s s' : Server} {t c : Nat} {move : Move} {o : Outcome}

/-- No connection is twice in a batch. -/
def Distinct (s : Server) : Prop := ∀ t, (s.threads t).pc.conns.Nodup

theorem Fresh.distinct (hs : s.Fresh) : s.Distinct := by
  intro t
  rw [hs.threads]
  exact List.nodup_nil

/-- A batch only gets shorter. -/
theorem Goes.conns (h : Goes s t move o) (hmove : ∀ ready, move ≠ .epollWait ready) :
    o.thread.pc.conns.Sublist (s.threads t).pc.conns := by
  cases h with
  | epollWait => exact absurd rfl (hmove _)
  | handleRead hthread =>
      rw [hthread]
      dsimp only
      split
      · exact List.Sublist.refl _
      · exact List.nil_sublist _
  | handled hthread =>
      rw [hthread]
      exact List.sublist_cons_self _ _
  | assertFailed => exact List.nil_sublist _
  | _ hthread =>
      have hconns := congrArg (fun thread : Thread => thread.pc.conns) hthread
      exact hconns.symm ▸ List.Sublist.refl _

theorem conns_of_reports (hw : s.Wired) {ready : List Ready} (hnodup : (ready.map Ready.channel).Nodup)
    (hready : ∀ item ∈ ready, s.Reports t item) : (Pc.batch ready).conns.Nodup := by
  refine List.pairwise_filterMap.mpr ((List.pairwise_map.mp hnodup).imp_of_mem ?_)
  intro a b ha hb hne c hc c' hc' heq
  subst heq
  cases a with
  | wakeup | accept => cases hc
  | conn fd d events =>
      cases b with
      | wakeup | accept => cases hc'
      | conn fd' d' events' =>
          obtain rfl : d = c := Option.some.inj hc
          obtain rfl : d' = d := Option.some.inj hc'
          obtain ⟨-, hfd, -⟩ := hw.expected (hready _ ha)
          obtain ⟨-, hfd', -⟩ := hw.expected (hready _ hb)
          exact hne (by rw [Ready.channel, Ready.channel, ← hfd, ← hfd'])

theorem Distinct.after (hs : s.Distinct) (hw : s.Wired) (h : Goes s t move o)
    (hnodup : ∀ ready, move = .epollWait ready → (ready.map Ready.channel).Nodup) :
    (s.after t o).Distinct := by
  intro t'
  by_cases hne : t' = t
  · subst hne
    rw [threads_after_self]
    by_cases hmove : ∃ ready, move = .epollWait ready
    · obtain ⟨ready, rfl⟩ := hmove
      cases h with
      | epollWait hthread hready => exact conns_of_reports hw (hnodup ready rfl) hready
    · exact (hs t').sublist (h.conns (not_exists.mp hmove))
  · rw [threads_after_of_ne hne]
    exact hs t'

theorem distinct_of_reachable {ok : Server → Nat × Move → Prop}
    (hs : Machine.Reachable Server.step ok Fresh s) : s.Distinct := by
  refine hs.invariant (fun _ hs => hs.distinct) fun s action s' hs hinv _ hstep => ?_
  obtain ⟨-, o, hgoes, rfl⟩ := step_cases hstep
  refine hinv.after (wired_of_reachable hs) hgoes fun ready hmove => ?_
  obtain ⟨t, move⟩ := action
  obtain rfl : move = .epollWait ready := hmove
  exact nodup_of_step hstep

/-- While the handlers of a connection run, nothing else is to be handled of it. -/
theorem Distinct.reported_handling (hs : s.Distinct) {guard : Bool} {rest : List Ready}
    (hpc : (s.threads t).pc = .handleEvent c guard rest) : (Pc.handleEvent c guard rest).reported c = none := by
  have hnodup := hs t
  rw [hpc, Pc.conns, List.nodup_cons] at hnodup
  refine Pc.reported_eq_none_iff.mpr fun fd events hmem => hnodup.1 ?_
  exact List.mem_filterMap.mpr ⟨_, hmem, rfl⟩

/-- A channel that is dispatched is not in the rest of the batch. -/
theorem Distinct.reported_dispatch (hs : s.Distinct) {fd : Fd} {events : EpollEvents} {guard : Bool}
    {rest : List Ready} (hpc : (s.threads t).pc = .batch (.conn fd c events :: rest)) :
    (Pc.handleEvent c guard rest).reported c = none := by
  have hnodup := hs t
  rw [hpc] at hnodup
  have hnodup : (c :: rest.filterMap Ready.conn?).Nodup := hnodup
  refine Pc.reported_eq_none_iff.mpr fun fd events hmem => (List.nodup_cons.mp hnodup).1 ?_
  exact List.mem_filterMap.mpr ⟨_, hmem, rfl⟩

theorem Goes.of_epollWait {ready : List Ready} (h : Goes s t (.epollWait ready) o) :
    s.threads t = ⟨.epollWait, []⟩ ∧ (∀ item ∈ ready, s.Reports t item) ∧ o.effect = .none ∧
      o.thread.pc = .batch ready := by
  cases h with
  | epollWait hthread hready => exact ⟨hthread, hready, rfl, rfl⟩

/-- A channel is returned in the loop of its connection. -/
theorem Wired.loop_of_returned (hw : s.Wired) {ready : List Ready} (hready : ∀ item ∈ ready, s.Reports t item)
    (hmem : c ∈ ready.filterMap Ready.conn?) :
    (s.slots c).eventLoop = t ∧ ∃ events, .conn (s.slots c).fd c events ∈ ready := by
  obtain ⟨item, hitem, hconn⟩ := List.mem_filterMap.mp hmem
  cases item with
  | wakeup | accept => cases hconn
  | conn fd c' events =>
      obtain rfl : c' = c := Option.some.inj hconn
      obtain ⟨hbelongs, rfl, -⟩ := hw.expected (hready _ hitem)
      exact ⟨hbelongs.eventLoop, events, hitem⟩

/-- The dispatch of a channel takes from the batch what was returned of its connection. -/
theorem Goes.of_dispatch (h : Goes s t move o) (hw : s.Wired) (hs : s.Distinct) {events : EpollEvents}
    {session : Session} (heffect : o.effect = .session c (.event events) session) :
    (s.slots c).eventLoop = t ∧ (∃ ok, move = .next ok) ∧ (s.threads t).pc.reported c = some events ∧
      o.thread.pc.reported c = none ∧ session = (s.slots c).session.handleEvent events := by
  cases h with
  | @dispatch fd c' events' rest ok session' hthread hstep =>
      cases heffect
      obtain ⟨hbelongs, -, -⟩ := hw.ready t (.conn fd c events) (by rw [hthread]; exact List.mem_cons_self)
      refine ⟨hbelongs.eventLoop, ⟨ok, rfl⟩, ?_, hs.reported_dispatch (by rw [hthread]), ?_⟩
      · rw [hthread]
        exact (List.findSome?_cons_of_isSome (by simp [Ready.reported])).trans (by simp [Ready.reported])
      · rw [Session.step, Session.stack_of_event hstep] at hstep
        exact (Option.some.inj hstep).symm
  | run hthread hbusy hstep =>
      cases heffect
      exact absurd (Session.stack_of_event hstep) hbusy
  | _ => cases heffect

/-- While the handlers of a connection run, nothing of it is in the batch. -/
theorem Goes.of_run (h : Goes s t move o) (hw : s.Wired) (hs : s.Distinct) {label : Label} {session : Session}
    (heffect : o.effect = .session c label session) (hlabel : ∀ events, label ≠ .event events) :
    (s.slots c).eventLoop = t ∧ move = .run label ∧ s.runs (t, move) = some (c, label) ∧
      (s.threads t).pc.reported c = none ∧ o.thread.pc.reported c = none ∧
        (s.slots c).session.step label = some session := by
  cases h with
  | dispatch =>
      cases heffect
      exact absurd rfl (hlabel _)
  | @run c' guard rest label' session' hthread hbusy hstep =>
      cases heffect
      have hnone := hs.reported_handling (by rw [hthread])
      refine ⟨(hw.handling t c guard rest (by rw [hthread])).eventLoop, rfl, by rw [runs, hthread], ?_, hnone,
        hstep⟩
      rw [hthread]
      exact hnone
  | _ => cases heffect

theorem Goes.of_runs (h : Goes s t move o) {label : Label} (hruns : s.runs (t, move) = some (c, label)) :
    (s.slots c).session.stack ≠ [] ∧ ∃ session, o.effect = .session c label session := by
  cases h with
  | @run c' guard rest label' session hthread hbusy =>
      rw [runs, hthread] at hruns
      cases hruns
      exact ⟨hbusy, session, rfl⟩
  | _ => simp [runs] at hruns

/-- **What a step does to the channels that are still to be handled.** Only `epoll_wait` adds to them, and only
the dispatch of a channel takes it from them. -/
theorem Goes.reported (h : Goes s t move o) (hrunning : o.thread.pc ≠ .aborted)
    (hmove : ∀ ready, move ≠ .epollWait ready)
    (heffect : ∀ events session, o.effect ≠ .session c (.event events) session) :
    o.thread.pc.reported c = (s.threads t).pc.reported c := by
  cases h with
  | epollWait => exact absurd rfl (hmove _)
  | assertFailed => exact absurd rfl hrunning
  | handleRead hthread =>
      rw [hthread]
      dsimp only at hrunning ⊢
      split
      · rfl
      · rename_i hfailed
        exact absurd (if_neg hfailed) hrunning
  | @dispatch fd c' events rest ok session hthread =>
      rw [hthread]
      have hne : c' ≠ c := by
        rintro rfl
        exact heffect _ _ rfl
      change rest.findSome? _ = (Ready.conn fd c' events :: rest).findSome? _
      rw [List.findSome?_cons_of_isNone]
      simp [Ready.reported, hne]
  | _ hthread => exact (congrArg (fun thread : Thread => thread.pc.reported c) hthread).symm

section Listening

theorem Goes.listening_session (h : Goes s t move o) (hok : move.CtlSucceeds) {label : Label}
    {session : Session} (heffect : o.effect = .session c label session) :
    session.conn.channel.listeningEvents = (s.slots c).session.conn.channel.listeningEvents ∨
      (s.after t o).epoll = ((s.setSession c session).undateChannel c true).epoll := by
  obtain ⟨hstep, horigin⟩ := h.session heffect
  have hepoll : (s.after t o).epoll = (s.runSession t c label session).epoll := by rw [after, heffect, apply]
  by_cases hctl : ∃ ok, label = .epollCtl ok
  · obtain ⟨ok, rfl⟩ := hctl
    obtain ⟨fd, events, hlabel, -⟩ | ⟨-, rfl, -⟩ := horigin
    · cases hlabel
    · obtain rfl : ok = true := hok
      exact .inr hepoll
  · exact .inl (Session.listening_of_not_epollCtl hstep (not_exists.mp hctl))

theorem Goes.move_of_establish (h : Goes s t move o) {ok : Bool} (heffect : o.effect = .establish c ok) :
    move = .next ok := by
  cases h with
  | insert | onConnect | establish =>
      cases heffect
      rfl
  | _ => cases heffect

theorem Goes.listening_establish (h : Goes s t move o) (hok : move.CtlSucceeds) {ok : Bool}
    (heffect : o.effect = .establish c ok) :
    ((s.slots c).establish ok).session.conn.channel.listeningEvents
        = (s.slots c).session.conn.channel.listeningEvents ∨
      (s.after t o).epoll = ((s.setSlot c ((s.slots c).establish ok)).undateChannel c true).epoll := by
  have hepoll : (s.after t o).epoll = (s.newConnection t c ok).epoll := by rw [after, heffect, apply]
  obtain rfl : move = .next ok := h.move_of_establish heffect
  obtain rfl : ok = true := hok
  cases hstage : (s.slots c).stage with
  | enableRead => exact .inr (by rw [hepoll, epoll_newConnection, if_pos hstage])
  | _ => exact .inl (by rw [Slot.establish, hstage] <;> rfl)

/-- Only the constructor, `ConnectionEstablished` and the handlers change what a channel listens to. -/
theorem listening_apply {effect : Effect} (hsetsUp : ¬effect.SetsUp c)
    (hsession : ∀ label session, effect ≠ .session c label session) :
    ((s.apply t effect).slots c).session.conn.channel.listeningEvents
      = (s.slots c).session.conn.channel.listeningEvents := by
  rcases s.slots_apply_cases t c effect with heq | ⟨slot, htouched, heq⟩
  · rw [heq]
  · rw [heq]
    cases effect with
    | construct | establish =>
        cases htouched
        exact absurd rfl hsetsUp
    | session c' label session =>
        cases htouched
        exact absurd rfl (hsession _ _)
    | handleCloseInLoop l c' =>
        obtain ⟨e, -, heq⟩ := Option.map_eq_some_iff.mp htouched
        cases heq
        rfl
    | connectionDestructor l c' ok =>
        cases htouched
        cases ok <;> rfl
    | expire | close =>
        cases htouched
        rfl
    | none | copy | drop | accept => cases htouched

/-- Each entry of an epoll set holds what its channel listens to. -/
def Listening (s : Server) : Prop := ∀ l fd c registered, s.epoll l fd = some (c, registered) →
  registered = (s.slots c).session.conn.channel.listeningEvents

theorem Fresh.listening (hs : s.Fresh) : s.Listening := by
  intro l fd c registered hentry
  rw [hs.epoll] at hentry
  cases hentry

theorem entry_undateChannel (slot : Slot) : ((s.setSlot c slot).undateChannel c true).epoll slot.eventLoop
    slot.fd = some (c, slot.session.conn.channel.listeningEvents) := by
  simp [undateChannel, setSlot]

theorem Listening.after (hs : s.Listening) (hw : s.Wired) (h : Goes s t move o) (hok : move.CtlSucceeds) :
    (s.after t o).Listening := by
  intro l fd c registered hentry
  rcases h.epoll hw hentry with hold | ⟨-, -, -, hnew⟩
  swap
  · exact hnew
  obtain ⟨⟨hconstructed, rfl⟩, rfl, -⟩ := hw.epoll l fd c registered hold
  by_cases hsession : ∃ label session, o.effect = .session c label session
  · obtain ⟨label, session, heffect⟩ := hsession
    rw [slots_after_session heffect]
    rcases h.listening_session hok heffect with heq | hepoll
    · exact (hs _ _ _ _ hold).trans heq.symm
    · have hfixed := Session.step_fixed (h.session heffect).1
      have hself : ((s.setSession c session).undateChannel c true).epoll (s.slots c).eventLoop (s.slots c).fd
          = some (c, session.conn.channel.listeningEvents) := by
        rw [Slot.eventLoop, Slot.fd, ← hfixed.1, ← hfixed.2]
        exact entry_undateChannel { s.slots c with session := session }
      rw [hepoll, hself] at hentry
      exact (Prod.mk.inj (Option.some.inj hentry)).2.symm
  · have hnot : ∀ label session, o.effect ≠ .session c label session := fun label session heq =>
      hsession ⟨label, session, heq⟩
    by_cases hsetsUp : o.effect.SetsUp c
    · cases heffect : o.effect with
      | construct c' fd state tied ok =>
          rw [heffect] at hsetsUp
          obtain rfl : c' = c := hsetsUp
          exact absurd (h.stage_of_construct hw heffect) hconstructed
      | establish c' ok =>
          rw [heffect] at hsetsUp
          obtain rfl : c' = c := hsetsUp
          have hslot : (s.after t o).slots c' = (s.slots c').establish ok := by
            change (s.apply t o.effect).slots c' = _
            rw [heffect, apply, slots_newConnection, Function.update_self]
          rw [hslot]
          rcases h.listening_establish hok heffect with heq | hepoll
          · exact (hs _ _ _ _ hold).trans heq.symm
          · obtain ⟨hfd, hloop⟩ := h.fixed hw hconstructed
            rw [hslot] at hfd hloop
            rw [hepoll, ← hfd, ← hloop, entry_undateChannel] at hentry
            exact (Prod.mk.inj (Option.some.inj hentry)).2.symm
      | _ =>
          rw [heffect] at hsetsUp
          exact hsetsUp.elim
    · exact (hs _ _ _ _ hold).trans (listening_apply hsetsUp hnot).symm

theorem listening_of_reachable (hs : Machine.Reachable Server.step Registers Fresh s) : s.Listening := by
  refine hs.invariant (fun _ hs => hs.listening) fun s action s' hs hinv hok hstep => ?_
  obtain ⟨-, o, hgoes, rfl⟩ := step_cases hstep
  exact hinv.after (wired_of_reachable hs) hgoes hok

end Listening

/-- After `EnableRead` nothing but its handlers and its deregistration touches the session of a connection. -/
theorem Goes.session_late (h : Goes s t move o) (hw : s.Wired)
    (hlate : Stage.enableRead.index < (s.slots c).stage.index)
    (hregistered : ((s.after t o).slots c).unregistered = (s.slots c).unregistered)
    (hsession : ∀ label session, o.effect ≠ .session c label session) :
    ((s.after t o).slots c).session = (s.slots c).session := by
  change ((s.apply t o.effect).slots c).unregistered = _ at hregistered
  change ((s.apply t o.effect).slots c).session = _
  rcases s.slots_apply_cases t c o.effect with heq | ⟨slot, htouched, heq⟩
  · rw [heq]
  · rw [heq] at hregistered ⊢
    cases heffect : o.effect with
    | construct =>
        rw [heffect] at htouched
        cases htouched
        rw [h.stage_of_construct hw heffect] at hlate
        exact absurd hlate (by decide)
    | establish c' ok =>
        rw [heffect] at htouched
        cases htouched
        cases hstage : (s.slots c).stage with
        | onConnect | done => rw [Slot.establish, hstage] <;> rfl
        | _ =>
            rw [hstage] at hlate
            exact absurd hlate (by decide)
    | session =>
        rw [heffect] at htouched
        cases htouched
        exact absurd heffect (hsession _ _)
    | handleCloseInLoop l c' =>
        rw [heffect] at htouched
        obtain ⟨e, -, heq⟩ := Option.map_eq_some_iff.mp htouched
        cases heq
        rfl
    | connectionDestructor =>
        rw [heffect] at htouched
        cases htouched
        exact absurd hregistered (Nat.succ_ne_self _)
    | expire | close =>
        rw [heffect] at htouched
        cases htouched
        rfl
    | none | copy | drop | accept =>
        rw [heffect] at htouched
        cases htouched

theorem Regular.running (hs : s.Regular) (ht : t ≤ s.threadNums) : (s.threads t).pc ≠ .aborted := by
  intro hpc
  obtain ⟨r, hr, hbehaves⟩ := exists_behaves hs ht
  refine (Reactor.sound_of_reachable hr).running ?_
  rw [hbehaves.pc, Thread.point, hpc]

end Server

end EpollServer
