import EpollServer.Proof.Balance
import EpollServer.Proof.Dispatch

/-!
# One loop, one thread

Each callback of a connection runs on one thread: the connection callback on the thread of the main reactor, and
the others on the thread of the loop that the connection got in turn, whatever the ids of the threads are. So no
two threads are ever in the handlers of one connection.
-/

namespace EpollServer

theorem Session.step_seen {s s' : Session} {label : Label} (h : s.step label = some s') :
    s'.history.seen.length = s.history.seen.length + match label with
      | .onMessage _ => 1
      | _ => 0 := by
  rcases step_cases h with ⟨-, events, rfl, rfl⟩ | ⟨-, f, rfl, rfl⟩ | ⟨op, rest, conn, ops, -, -, rfl⟩
  · rfl
  · rfl
  · cases label <;> simp [History.record]

namespace Server

variable {s s' : Server} {t c : Nat} {move : Move} {o : Outcome} {effect : Effect}

/-- What an effect shows. -/
def shown (s : Server) : Effect → List Event
  | .establish c _ =>
      match (s.slots c).stage with
      | .insert => [.connectionsMap]
      | .onConnect => [.onConnect c]
      | _ => []
  | .session c (.onMessage _) _ => [.onMessage c]
  | .session c .onClose _ => [.onClose c]
  | .handleCloseInLoop l c => [.func l (.handleCloseInLoop c), .connectionsMap]
  | .connectionDestructor l c _ => [.func l (.connectionDestructor c)]
  | _ => []

theorem trace_apply (effect : Effect) :
    (s.apply t effect).trace = s.trace ++ (s.shown effect).map fun event => (t, event) := by
  cases effect with
  | establish c ok =>
      simp only [apply, newConnection, shown]
      cases (s.slots c).stage <;> simp [setSlot, log, undateChannel]
  | session c label session =>
      cases label with
      | read | write =>
          simp only [apply, runSession, shown]
          split <;> simp [setSession, setSlot]
      | _ => simp [apply, runSession, shown, setSession, setSlot, log, undateChannel]
  | handleCloseInLoop l c =>
      cases h : s.connectionsMap (s.slots c).fd with
      | none =>
          rw [apply, handleCloseInLoop_of_none s t c h]
          simp [shown]
      | some e =>
          rw [apply, handleCloseInLoop_of_some s t c h]
          simp [shown]
  | connectionDestructor l c ok => rfl
  | none | copy | drop | accept | construct | expire | close => exact (List.append_nil _).symm

theorem count_trace (t' : Nat) (event : Event) : (s.after t o).trace.count (t', event)
    = s.trace.count (t', event) + if t' = t then (s.shown o.effect).count event else 0 := by
  have htrace : (s.after t o).trace = s.trace ++ (s.shown o.effect).map fun event => (t, event) :=
    trace_apply o.effect
  rw [htrace, List.count_append]
  congr 1
  by_cases ht : t' = t
  · subst ht
    rw [if_pos rfl]
    exact List.count_map_of_injective _ _ (fun _ _ h => (Prod.mk.inj h).2) _
  · rw [if_neg ht]
    refine List.count_eq_zero.mpr fun hmem => ht ?_
    obtain ⟨event', -, heq⟩ := List.mem_map.mp hmem
    exact (Prod.mk.inj heq).1.symm

/-- How often each callback of connection `c` ran, and on which thread. -/
structure Called (s : Server) (c : Nat) : Prop where
  onConnect : ∀ t, s.trace.count (t, .onConnect c) = if t = 0 ∧ (s.slots c).stage = .done then 1 else 0
  onMessage : ∀ t, s.trace.count (t, .onMessage c)
    = if t = s.turn c then (s.slots c).session.history.seen.length else 0
  onClose : ∀ t, s.trace.count (t, .onClose c)
    = if t = s.turn c then (s.slots c).session.history.closes else 0

theorem Fresh.called (hs : s.Fresh) (c : Nat) : s.Called c := by
  constructor <;> intro t <;> rw [hs.trace, hs.slots]
  · exact (if_neg fun h => nomatch h.2).symm
  · exact (ite_self 0).symm
  · exact (ite_self 0).symm

/-- Only the last statement of `HandleNewConnection` shows the connection callback. -/
theorem setsUp_of_onConnect (hmem : .onConnect c ∈ s.shown effect) : effect.SetsUp c := by
  cases effect with
  | establish c' ok =>
      unfold shown at hmem
      dsimp only at hmem
      split at hmem
      · simp at hmem
      · exact (Event.onConnect.inj (List.mem_singleton.mp hmem)).symm
      · cases hmem
  | session c' label session => cases label <;> simp [shown] at hmem
  | _ => simp [shown] at hmem

/-- Only steps of its handlers show the other two. -/
theorem session_of_callback {event : Event} (hevent : event = .onMessage c ∨ event = .onClose c)
    (hmem : event ∈ s.shown effect) : ∃ label session, effect = .session c label session := by
  cases effect with
  | establish c' ok =>
      unfold shown at hmem
      dsimp only at hmem
      rcases hevent with rfl | rfl <;> split at hmem <;> simp at hmem
  | session c' label session =>
      have hself : c' = c := by
        cases label with
        | onMessage | onClose =>
            obtain rfl := List.mem_singleton.mp hmem
            simpa using hevent
        | _ => exact absurd hmem List.not_mem_nil
      exact ⟨label, session, by rw [hself]⟩
  | _ => rcases hevent with rfl | rfl <;> simp [shown] at hmem

section Step

variable (hw : s.Wired) (h : Goes s t move o)
include hw h

/-- The handlers of a connection run on the thread of its loop. -/
theorem InTurn.thread_eq (hs : s.InTurn) {label : Label} {session : Session}
    (heffect : o.effect = .session c label session) : t = s.turn c := by
  have hbelongs : s.Belongs t c := by
    obtain ⟨-, ⟨fd, events, -, hitem⟩ | ⟨-, -, guard, rest, hpc⟩⟩ := h.session heffect
    · exact (hw.ready t _ hitem).1
    · exact hw.handling t c guard rest hpc
  rw [← hs.loop c hbelongs.constructed, hbelongs.eventLoop]

theorem Called.onConnect_after (hs : s.Called c) (t' : Nat) : (s.after t o).trace.count (t', .onConnect c)
    = if t' = 0 ∧ ((s.after t o).slots c).stage = .done then 1 else 0 := by
  rw [count_trace, hs.onConnect]
  by_cases hsetsUp : o.effect.SetsUp c
  · obtain rfl := (hw.setsUp t c (h.effect_setsUp hsetsUp)).1
    cases heffect : o.effect with
    | construct c' fd state tied ok =>
        rw [heffect] at hsetsUp
        obtain rfl : c' = c := hsetsUp
        have hstage := h.stage_of_construct hw heffect
        rw [stage_construct_after heffect, hstage]
        simp [shown]
    | establish c' ok =>
        rw [heffect] at hsetsUp
        obtain rfl : c' = c := hsetsUp
        have hdone := (h.establishing hw heffect).2
        rw [stage_establish_after heffect, shown, Slot.establish]
        cases hstage : (s.slots c').stage <;> simp_all [Slot.goOn]
    | _ =>
        rw [heffect] at hsetsUp
        exact hsetsUp.elim
  · have hstage : ((s.after t o).slots c).stage = (s.slots c).stage := stage_apply hsetsUp
    have hshown : (s.shown o.effect).count (.onConnect c) = 0 := by
      exact List.count_eq_zero.mpr fun hmem => hsetsUp (setsUp_of_onConnect hmem)
    rw [hstage, hshown, ite_self, Nat.add_zero]

/-- An event that steps of the connection's handlers show is counted on the thread of its loop. -/
theorem InTurn.count_after (hi : s.InTurn) {event : Event} (f : History → Nat)
    (hs : ∀ t, s.trace.count (t, event) = if t = s.turn c then f (s.slots c).session.history else 0)
    (hsession : ∀ label session, (s.slots c).session.step label = some session →
      f session.history = f (s.slots c).session.history + (s.shown (.session c label session)).count event)
    (hevent : event = .onMessage c ∨ event = .onClose c) (t' : Nat) :
    (s.after t o).trace.count (t', event)
      = if t' = (s.after t o).turn c then f ((s.after t o).slots c).session.history else 0 := by
  have hturn : (s.after t o).turn c = s.turn c := by rw [turn, turn, threadNums_after]
  rw [count_trace, hs, hturn]
  by_cases heffect : ∃ label session, o.effect = .session c label session
  · obtain ⟨label, session, heffect⟩ := heffect
    have hthread := hi.thread_eq hw h heffect
    rw [slots_after_session heffect, hsession label session (h.session heffect).1, heffect, hthread]
    split <;> rfl
  · have hshown : (s.shown o.effect).count event = 0 :=
      List.count_eq_zero.mpr fun hmem => heffect (session_of_callback hevent hmem)
    obtain ⟨conn, hframe⟩ := h.session_frame hw fun label session heq => heffect ⟨label, session, heq⟩
    rw [hframe, hshown, ite_self, Nat.add_zero]

theorem Called.after (hs : s.Called c) (hi : s.InTurn) : (s.after t o).Called c where
  onConnect := hs.onConnect_after hw h
  onMessage := by
    refine hi.count_after hw h (fun history => history.seen.length) hs.onMessage (fun label session hstep => ?_)
      (.inl rfl)
    rw [Session.step_seen hstep]
    cases label <;> simp [shown]
  onClose := by
    refine hi.count_after hw h (fun history => history.closes) hs.onClose (fun label session hstep => ?_)
      (.inr rfl)
    rw [Session.step_closes hstep]
    cases label <;> simp [shown]

end Step

/-- **One loop, one thread.** In every run the connection callback of a connection runs once, on the thread of the
main reactor, and `HandleNewConnection` returns after it; each call of its message callback and its close callback
runs on the thread of the loop that the connection got in turn. -/
theorem called_on_its_thread (hs : Machine.Reachable Server.step (fun _ _ => True) Fresh s) (c : Nat) :
    (∀ t, s.trace.count (t, .onConnect c) = if t = 0 ∧ (s.slots c).stage = .done then 1 else 0) ∧
      (∀ t, s.trace.count (t, .onMessage c) = if t = (if s.threadNums = 0 then 0 else c % s.threadNums + 1)
        then (s.slots c).session.history.seen.length else 0) ∧
      ∀ t, s.trace.count (t, .onClose c) = if t = (if s.threadNums = 0 then 0 else c % s.threadNums + 1)
        then (s.slots c).session.history.closes else 0 := by
  have hcalled : s.Called c := by
    refine hs.invariant (fun _ hs => hs.called c) fun s action s' hs hinv _ hstep => ?_
    obtain ⟨-, o, hgoes, rfl⟩ := step_cases hstep
    exact hinv.after (wired_of_reachable hs) hgoes (inTurn_of_reachable hs)
  rw [← s.turn_eq]
  exact ⟨hcalled.onConnect, hcalled.onMessage, hcalled.onClose⟩

/-- The second connection of two sub reactors ends before its connection callback. -/
theorem called_on_its_thread_second : ∃ s : Server, Machine.Reachable Server.step (fun _ _ => True) Fresh s ∧
    (s.slots 1).stage = .onConnect ∧ (1, .onClose 1) ∉ s.trace ∧ (0, .onConnect 1) ∉ s.trace := by
  have hview : (Machine.run Server.step (fun _ _ => True) (start 2 id id)
      ([(0, .epollWait [.accept]), (0, .accept (some 7)), (0, .construct .invalid false true)] ++
        List.replicate 11 (0, .next true) ++
        [(0, .epollWait [.accept]), (0, .accept (some 8)), (0, .construct .invalid false true)] ++
        List.replicate 5 (0, .next true) ++
        [(2, .epollWait [.conn 8 1 { EpollEvents.none with epollin := true }]), (2, .next true), (2, .run .tau),
          (2, .run (.read 8 (.data []))), (2, .run .tau), (2, .run .onClose)])).map
      (fun s => ((s.slots 1).stage, s.threadNums)) = some (.onConnect, 2) := by
    decide +kernel
  obtain ⟨s, hrun, hend⟩ := Option.map_eq_some_iff.mp hview
  obtain ⟨hstage, hnums⟩ := Prod.mk.inj hend
  have hs : Machine.Reachable Server.step (fun _ _ => True) Fresh s := .run (.init (fresh_start 2 id id)) hrun
  obtain ⟨honConnect, -, honClose⟩ := called_on_its_thread hs 1
  rw [hnums] at honClose
  rw [hstage] at honConnect
  exact ⟨s, hs, hstage, List.count_eq_zero.mp (honClose 1), List.count_eq_zero.mp (honConnect 0)⟩

end Server

end EpollServer
