import EpollServer.Lib.Trace
import EpollServer.Proof.Wired

/-!
# The connection callback and the others

`ConnectionEstablished` enables reading before it calls the connection callback, and from then on the
thread of the connection's loop may run the handlers. The connection callback comes first in the runs in
which that thread is not faster.
-/

namespace EpollServer

namespace Server

variable {s s' : Server} {t c : Nat} {move : Move} {o : Outcome}

theorem Goes.connected (h : Goes s t move o) (hstage : ((s.after t o).slots c).stage = .done) :
    (s.slots c).stage = .done ∨ (t, .onConnect c) ∈ (s.after t o).trace := by
  by_cases heffect : o.effect.SetsUp c
  · cases h with
    | construct =>
        obtain rfl := heffect
        change (Function.update s.slots _ _ _).stage = _ at hstage
        rw [Function.update_self] at hstage
        cases hstage
    | @insert c' rest ok hthread hinsert =>
        obtain rfl : c' = c := heffect
        change ((s.newConnection t c' ok).slots c').stage = _ at hstage
        rw [slots_newConnection, Function.update_self, Slot.establish, hinsert] at hstage
        cases hstage
    | @onConnect c' rest ok hthread honConnect =>
        obtain rfl : c' = c := heffect
        exact .inr (by simp [after, apply, goOn, newConnection, log, setSlot, honConnect])
    | @establish c' rest ok hthread hconstructed hinsert hbefore =>
        obtain rfl : c' = c := heffect
        change ((s.newConnection t c' ok).slots c').stage = _ at hstage
        rw [slots_newConnection, Function.update_self] at hstage
        exact absurd hstage (Slot.establish_ne_done ok hbefore)
    | _ => exact heffect.elim
  · exact .inl ((stage_apply heffect).symm.trans hstage)

/-- The thread of the connection's loop runs no statement of its handlers between `EnableRead` and the
connection callback. -/
def Undisturbed (s : Server) (action : Nat × Move) : Prop :=
  ∀ step ∈ s.runs action, (s.slots step.1).stage ≠ .onConnect

instance (s : Server) (action : Nat × Move) : Decidable (s.Undisturbed action) := by
  unfold Undisturbed
  infer_instance

theorem Goes.move_eq (h : Goes s t move o) {guard : Bool} {rest : List Ready}
    (hthread : s.threads t = ⟨.handleEvent c guard rest, []⟩) (hbusy : (s.slots c).session.stack ≠ []) :
    ∃ label, move = .run label := by
  cases h with
  | @run c' guard rest label => exact ⟨label, rfl⟩
  | handled hthread' hidle =>
      rw [hthread] at hthread'
      cases hthread'
      exact absurd hidle hbusy
  | _ hthread' =>
      rw [hthread] at hthread'
      cases hthread'

theorem done_of_shows (hs : s.Wired) (h : Goes s t move o) (hok : s.Undisturbed (t, move))
    {event : Event} (hevent : event = .onMessage c ∨ event = .onClose c) (hshows : s.Shows t event) :
    (s.slots c).stage = .done := by
  obtain ⟨hbusy, guard, rest, hthread⟩ : (s.slots c).session.stack ≠ [] ∧
      ∃ guard rest, s.threads t = ⟨.handleEvent c guard rest, []⟩ := by
    rcases hevent with rfl | rfl <;> exact hshows
  obtain ⟨label, rfl⟩ := h.move_eq hthread hbusy
  have hruns : s.runs (t, .run label) = some (c, label) := by rw [runs, hthread]
  have hlate : ¬(s.slots c).stage.index ≤ Stage.enableRead.index := fun h => hbusy (hs.early c h).stack
  cases hstage : (s.slots c).stage with
  | done => rfl
  | onConnect => exact absurd hstage (hok _ hruns)
  | _ =>
      rw [hstage] at hlate
      exact absurd (by decide) hlate

/-- **The connection callback comes first** if the other thread is not faster. -/
theorem connect_first (hs : Machine.Reachable Server.step Undisturbed Fresh s) (c : Nat) :
    Trace.Preceded (fun entry => entry.2 = .onMessage c ∨ entry.2 = .onClose c)
      (fun entry => entry.2 = .onConnect c) s.trace := by
  suffices h : ((s.slots c).stage = .done → ∃ entry ∈ s.trace, entry.2 = .onConnect c) ∧
      Trace.Preceded (fun entry => entry.2 = .onMessage c ∨ entry.2 = .onClose c)
        (fun entry => entry.2 = .onConnect c) s.trace from h.2
  induction hs with
  | init h =>
      rw [h.slots, h.trace]
      exact ⟨nofun, .nil⟩
  | @step s s' action hs hok hstep ih =>
      obtain ⟨-, o, hgoes, rfl⟩ := step_cases hstep
      obtain ⟨hconnected, hpreceded⟩ := ih
      obtain ⟨events, htrace, hevents⟩ := hgoes.trace
      refine ⟨fun hstage => ?_, ?_⟩
      · rcases hgoes.connected hstage with hbefore | hmem
        · obtain ⟨entry, hmem, hentry⟩ := hconnected hbefore
          exact ⟨entry, htrace ▸ List.mem_append_left events hmem, hentry⟩
        · exact ⟨_, hmem, rfl⟩
      · rw [htrace]
        refine hpreceded.append fun entry hmem hentry => hconnected ?_
        exact done_of_shows (wired_of_reachable hs) hgoes hok hentry (hevents entry hmem).2

/-- The peer ends the stream after the connection callback. -/
theorem connect_first_eof : ∃ s : Server, Machine.Reachable Server.step Undisturbed Fresh s ∧
    (1, .onClose 0) ∈ s.trace ∧ Trace.Preceded (fun entry => entry.2 = .onMessage 0 ∨ entry.2 = .onClose 0)
      (fun entry => entry.2 = .onConnect 0) s.trace := by
  obtain ⟨s, hrun, htrace⟩ : ∃ s, Machine.run Server.step Undisturbed (start 1 id id)
      [(0, .epollWait [.accept]), (0, .accept (some 7)), (0, .construct .invalid false true),
        (0, .next true), (0, .next true), (0, .next true), (0, .next true), (0, .next true),
        (1, .epollWait [.conn 7 0 { EpollEvents.none with epollin := true }]), (1, .next true),
        (0, .next true), (1, .run .tau), (1, .run (.read 8 (.data []))), (1, .run .tau),
        (1, .run .onClose)] = some s ∧
      s.trace = [(0, .connectionsMap), (0, .onConnect 0), (1, .onClose 0)] := ⟨_, rfl, rfl⟩
  have hs := Machine.Reachable.run (.init (fresh_start 1 id id)) hrun
  exact ⟨s, hs, by rw [htrace]; simp, connect_first hs 0⟩

/-- The peer ends the stream at once, and the sub reactor's thread is faster. -/
theorem close_before_connect : ¬∀ (s : Server) (c : Nat),
    Machine.Reachable Server.step (fun _ _ => True) Fresh s →
      Trace.Preceded (fun entry => entry.2 = Event.onMessage c ∨ entry.2 = Event.onClose c)
        (fun entry => entry.2 = Event.onConnect c) s.trace := by
  intro h
  obtain ⟨s, hrun, htrace⟩ : ∃ s, Machine.run Server.step (fun _ _ => True) (start 1 id id)
      [(0, .epollWait [.accept]), (0, .accept (some 7)), (0, .construct .invalid false true),
        (0, .next true), (0, .next true), (0, .next true), (0, .next true), (0, .next true),
        (1, .epollWait [.conn 7 0 { EpollEvents.none with epollin := true }]), (1, .next true),
        (1, .run .tau), (1, .run (.read 8 (.data []))), (1, .run .tau), (1, .run .onClose)] = some s ∧
      s.trace = [(0, .connectionsMap), (1, .onClose 0)] := ⟨_, rfl, rfl⟩
  have hs := Machine.Reachable.run (.init (fresh_start 1 id id)) hrun
  obtain ⟨entry, hmem, hentry⟩ := h s 0 hs [(0, .connectionsMap)] (1, .onClose 0) [] htrace (.inr rfl)
  obtain rfl := List.mem_singleton.mp hmem
  cases hentry

end Server

end EpollServer
