import EpollServer.Proof.Closing
import EpollServer.Proof.Confinement

/-!
# Books

What each step does to the number of functions that are still to be called, of pointers that threads and
queues hold, and of destructors that are still to run. Steps of the control only move them from one place to
another; what is made, used up, gained and lost is a matter of the effect.
-/

namespace EpollServer

/-- Whether a piece of work carries a function that is still to be called. -/
def Work.carries (cb : Task) : Work → Bool
  | .runOneFunc _ cb' | .queueOneFunc _ cb' | .func _ cb' => cb' == cb
  | .wakeup _ | .release _ | .destructor _ => false

/-- The functions that `HandleToDoList` has not called yet. -/
def Pc.pending : Pc → List Task
  | .funcs _ rest => rest
  | _ => []

namespace Thread

def tokens (cb : Task) (thread : Thread) : Nat :=
  thread.work.countP (·.carries cb) + thread.pc.pending.count cb

def destructors (c : Nat) (thread : Thread) : Nat := thread.work.count (.destructor c)

end Thread

namespace Effect

/-- The functions that an effect binds. -/
def made : Effect → List Task
  | .session c .onClose _ => [.handleCloseInLoop c]
  | .handleCloseInLoop _ c => [.connectionDestructor c]
  | _ => []

/-- The functions that an effect is the call of. -/
def called : Effect → List Task
  | .handleCloseInLoop _ c => [.handleCloseInLoop c]
  | .connectionDestructor _ c _ => [.connectionDestructor c]
  | _ => []

/-- The connections whose last pointer goes. -/
def expires : Effect → List Nat
  | .expire c => [c]
  | _ => []

/-- The connections whose descriptor is closed. -/
def closes : Effect → List Nat
  | .close c => [c]
  | _ => []

/-- The pointers that threads and queues lose. -/
def lost : Effect → List Nat
  | .drop c | .expire c => [c]
  | _ => []

end Effect

namespace Server

/-- The pointers that threads and queues gain. -/
def gained (s : Server) : Effect → List Nat
  | .copy c => [c]
  | .construct c _ _ _ _ => [c]
  | .establish c _ =>
      if (s.slots c).stage = .insert then (s.connectionsMap (s.slots c).fd).toList else []
  | .session c (.event _) _ =>
      if (s.slots c).session.conn.channel.tied && (s.slots c).lock then [c] else []
  | .session c .onClose _ => [c, c]
  | .handleCloseInLoop _ c => (s.connectionsMap (s.slots c).fd).toList ++ [c]
  | _ => []

/-- How often a function is still to be called. -/
def tokens (s : Server) (cb : Task) : Nat := s.tally (·.toDoList.count cb) (·.tokens cb)

/-- How often the destructor of a connection is still to run. -/
def destructors (s : Server) (c : Nat) : Nat := s.tally (fun _ => 0) (·.destructors c)

variable {s s' : Server} {t : Nat} {move : Move} {o : Outcome}

/-- `HandleCloseInLoop` finds its connection. -/
def Finds (s : Server) (o : Outcome) : Prop :=
  ∀ l c, o.effect = .handleCloseInLoop l c → s.connectionsMap (s.slots c).fd ≠ none

theorem Goes.tokens_local (h : Goes s t move o) (hfinds : s.Finds o) (cb : Task) :
    o.queue.toDoList.count cb + o.thread.tokens cb + o.effect.called.count cb
      = (s.loops o.loop).toDoList.count cb + (s.threads t).tokens cb + o.effect.made.count cb := by
  cases h with
  | assertFailed hthread hnone => exact absurd hnone (hfinds _ _ rfl)
  | handleRead hthread =>
      rw [hthread]
      dsimp only
      split <;> simp [Thread.tokens, Pc.pending, Effect.made, Effect.called]
  | @run c guard rest label session hthread =>
      rw [hthread]
      cases label <;>
        simp [goOn, Thread.tokens, Pc.pending, Effect.made, Effect.called, Work.carries,
          List.countP_cons, List.count_cons]
  | @handled c guard rest ok hthread =>
      rw [hthread]
      cases guard <;>
        simp [goOn, Thread.tokens, Pc.pending, Effect.made, Effect.called, Work.carries]
  | insert hthread =>
      rw [hthread]
      simp [goOn, Thread.tokens, Pc.pending, Effect.made, Effect.called, Work.carries,
        List.countP_map, Function.comp_def]
  | _ hthread =>
      rw [hthread]
      simp [goOn, Thread.tokens, Pc.pending, Effect.made, Effect.called, Work.carries,
        EventLoop.emplaceBack, EventLoop.swap, EventLoop.setCallingFuncs, List.countP_cons,
        List.count_cons, List.count_append]
      try omega

theorem Goes.destructors_local (h : Goes s t move o) (hfinds : s.Finds o) (c : Nat) :
    o.thread.destructors c + o.effect.closes.count c
      = (s.threads t).destructors c + o.effect.expires.count c := by
  cases h with
  | assertFailed hthread hnone => exact absurd hnone (hfinds _ _ rfl)
  | handleRead hthread =>
      rw [hthread]
      simp [Thread.destructors, Effect.closes, Effect.expires]
  | @run c guard rest label session hthread =>
      rw [hthread]
      cases label <;> simp [goOn, Thread.destructors, Effect.closes, Effect.expires]
  | @handled c guard rest ok hthread =>
      rw [hthread]
      cases guard <;> simp [goOn, Thread.destructors, Effect.closes, Effect.expires]
  | insert hthread =>
      rw [hthread]
      simp [goOn, Thread.destructors, Effect.closes, Effect.expires, List.count_eq_zero]
  | _ hthread =>
      rw [hthread]
      simp [goOn, Thread.destructors, Effect.closes, Effect.expires, List.count_cons]

theorem Goes.owns_local (h : Goes s t move o) (hfinds : s.Finds o) (c : Nat) :
    o.queue.owns c + o.thread.owns c + o.effect.lost.count c
      = (s.loops o.loop).owns c + (s.threads t).owns c + (s.gained o.effect).count c := by
  cases h with
  | assertFailed hthread hnone => exact absurd hnone (hfinds _ _ rfl)
  | handleRead hthread =>
      rw [hthread]
      dsimp only
      split <;> simp [Thread.owns, EventLoop.owns, Pc.owns, Effect.lost, gained]
  | @dispatch fd c' events rest ok session hthread =>
      rw [hthread]
      simp only [goOn, Thread.owns, EventLoop.owns, Pc.owns, Effect.lost, gained]
      cases (s.slots c').session.conn.channel.tied && (s.slots c').lock <;> simp [List.count_cons]
  | @run c guard rest label session hthread hbusy hstep =>
      rw [hthread]
      cases label with
      | event events => exact absurd (Session.stack_of_event hstep) hbusy
      | onClose =>
          simp [goOn, Thread.owns, EventLoop.owns, Pc.owns, Effect.lost, gained, Work.owns,
            List.countP_cons, List.count_cons]
          omega
      | _ => simp [goOn, Thread.owns, EventLoop.owns, Pc.owns, Effect.lost, gained]
  | @handled c guard rest ok hthread =>
      rw [hthread]
      cases guard <;> simp [goOn, Thread.owns, EventLoop.owns, Pc.owns, Effect.lost, gained, Work.owns]
  | insert hthread hstage =>
      rw [hthread]
      simp [goOn, Thread.owns, EventLoop.owns, Pc.owns, Effect.lost, gained, Work.owns, hstage,
        List.countP_map, Function.comp_def, List.count]
      omega
  | onConnect hthread hstage =>
      rw [hthread]
      simp [goOn, Thread.owns, EventLoop.owns, Pc.owns, Effect.lost, gained, Work.owns, hstage]
  | establish hthread hconstructed hinsert hbefore =>
      rw [hthread]
      simp [goOn, Thread.owns, EventLoop.owns, Pc.owns, Effect.lost, gained, Work.owns, hinsert]
  | erase hthread hfound =>
      rw [hthread]
      simp [goOn, Thread.owns, EventLoop.owns, Pc.owns, Effect.lost, gained, Work.owns,
        hfound, List.countP_cons, List.count_cons]
      try omega
  | _ hthread =>
      rw [hthread]
      simp [goOn, Thread.owns, EventLoop.owns, Pc.owns, Effect.lost, gained, Work.owns,
        EventLoop.emplaceBack, EventLoop.swap, EventLoop.setCallingFuncs, List.countP_cons,
        List.count_cons, List.countP_append]
      try omega

section Global

variable (h : Goes s t move o) (hs : s.Wired) (hhomed : s.Homed) (ht : t ≤ s.threadNums)
  (hfinds : s.Finds o)
include h hs hhomed ht hfinds

theorem Goes.tokens (cb : Task) : (s.after t o).tokens cb + o.effect.called.count cb
    = s.tokens cb + o.effect.made.count cb := by
  have hglobal := tally_after ht (h.loop_le hs hhomed ht) (·.toDoList.count cb) (·.tokens cb)
  have hlocal := h.tokens_local hfinds cb
  unfold Server.tokens
  omega

theorem Goes.destructors (c : Nat) : (s.after t o).destructors c + o.effect.closes.count c
    = s.destructors c + o.effect.expires.count c := by
  have hglobal := tally_after ht (h.loop_le hs hhomed ht) (fun _ => 0) (·.destructors c)
  have hlocal := h.destructors_local hfinds c
  unfold Server.destructors
  omega

theorem Goes.pointers (c : Nat) : (s.after t o).pointers c + o.effect.lost.count c
    = s.pointers c + (s.gained o.effect).count c := by
  have hglobal := tally_after ht (h.loop_le hs hhomed ht) (·.owns c) (·.owns c)
  have hlocal := h.owns_local hfinds c
  unfold Server.pointers
  omega

end Global

end Server

namespace Slot

/-- Nothing is counted yet. -/
structure Unborn (slot : Slot) : Prop where
  closes : slot.session.history.closes = 0
  erased : slot.erased = 0
  unregistered : slot.unregistered = 0
  expired : slot.expired = false
  closed : slot.closed = 0

/-- What is counted of a connection has changed by one step with this effect. -/
structure Counts (c : Nat) (effect : Effect) (slot slot' : Slot) : Prop where
  closes : slot'.session.history.closes
    = slot.session.history.closes + effect.made.count (.handleCloseInLoop c)
  erased : slot'.erased = slot.erased + effect.called.count (.handleCloseInLoop c)
  unregistered : slot'.unregistered
    = slot.unregistered + effect.called.count (.connectionDestructor c)
  expired : slot'.expired = true ↔ slot.expired = true ∨ c ∈ effect.expires
  closed : slot'.closed = slot.closed + effect.closes.count c

end Slot

namespace Server

variable {s s' : Server} {t : Nat} {move : Move} {o : Outcome}

/-- `HandleCloseInLoop` finds the connection that it is about. -/
def FindsItself (s : Server) (o : Outcome) : Prop :=
  ∀ l c, o.effect = .handleCloseInLoop l c → s.connectionsMap (s.slots c).fd = some c

theorem FindsItself.finds (h : s.FindsItself o) : s.Finds o := by
  intro l c heffect
  rw [h l c heffect]
  nofun

/-- **What a step counts.** -/
theorem Goes.counts (h : Goes s t move o) (hs : s.Wired)
    (hunborn : ∀ c, (s.slots c).stage = .construct → (s.slots c).Unborn)
    (hfinds : s.FindsItself o) (c : Nat) :
    Slot.Counts c o.effect (s.slots c) ((s.after t o).slots c) := by
  -- the effect is about connection `c'`, and makes `slot` of it
  have hone {c' : Nat} {slot : Slot} (hother : c ≠ c' → Slot.Counts c o.effect (s.slots c) (s.slots c))
      (hself : c = c' → Slot.Counts c o.effect (s.slots c) slot)
      (htouched : s.touched o.effect = some (c', slot)) :
      Slot.Counts c o.effect (s.slots c) ((s.after t o).slots c) := by
    change Slot.Counts c o.effect (s.slots c) ((s.apply t o.effect).slots c)
    rw [slots_apply, htouched]
    by_cases hc : c = c'
    · rw [hc] at hself ⊢
      simpa using hself rfl
    · simpa [hc] using hother hc
  cases h with
  | @construct c' fd rest state tied ok hthread =>
      refine hone (fun hc => ?_) (fun hc => ?_) rfl
      · constructor <;> simp [goOn, Effect.made, Effect.called, Effect.expires, Effect.closes]
      · subst hc
        have hbefore := hunborn c (hs.accepting t c fd rest (by rw [hthread]))
        constructor <;> simp [goOn, Effect.made, Effect.called, Effect.expires, Effect.closes,
          Slot.new, Session.new, History.new, hbefore.closes, hbefore.erased, hbefore.unregistered,
          hbefore.expired, hbefore.closed]
  | @insert c' rest ok | @onConnect c' rest ok | @establish c' rest ok =>
      refine hone (fun hc => ?_) (fun hc => ?_) rfl
      · constructor <;> simp [goOn, Effect.made, Effect.called, Effect.expires, Effect.closes]
      · subst hc
        obtain ⟨stage, conn, heq⟩ := (s.slots c).establish_frame ok
        rw [heq]
        constructor <;>
          simp [goOn, Slot.goOn, Effect.made, Effect.called, Effect.expires, Effect.closes]
  | dispatch hthread hstep =>
      refine hone (fun hc => ?_) (fun hc => ?_) rfl
      · constructor <;> simp [goOn, Effect.made, Effect.called, Effect.expires, Effect.closes]
      · subst hc
        constructor <;> simp [goOn, Effect.made, Effect.called, Effect.expires, Effect.closes,
          Session.step_closes hstep]
  | @run c' guard rest label session hthread hbusy hstep =>
      refine hone (fun hc => ?_) (fun hc => ?_) rfl
      · cases label <;> constructor <;>
          simp [goOn, Effect.made, Effect.called, Effect.expires, Effect.closes, Ne.symm hc]
      · subst hc
        have hcloses := Session.step_closes hstep
        cases label <;> constructor <;>
          simp [goOn, Effect.made, Effect.called, Effect.expires, Effect.closes, hcloses]
  | @erase pc l c' e rest ok hthread hfound =>
      have hself : s.connectionsMap (s.slots c').fd = some c' := hfinds l c' rfl
      refine hone (fun hc => ?_) (fun hc => ?_) (by rw [goOn, touched, hself]; rfl)
      · constructor <;>
          simp [goOn, Effect.made, Effect.called, Effect.expires, Effect.closes, Ne.symm hc]
      · subst hc
        constructor <;> simp [goOn, Effect.made, Effect.called, Effect.expires, Effect.closes]
  | @assertFailed pc l c' rest ok hthread hnone =>
      rw [hfinds l c' rfl] at hnone
      cases hnone
  | unregister | expire | close =>
      refine hone (fun hc => ?_) (fun hc => ?_) rfl
      · constructor <;>
          simp [goOn, Effect.made, Effect.called, Effect.expires, Effect.closes, hc, Ne.symm hc]
      · subst hc
        constructor <;> simp [goOn, Effect.made, Effect.called, Effect.expires, Effect.closes]
  | _ => constructor <;> simp [after, apply, goOn, Effect.made, Effect.called, Effect.expires, Effect.closes]

end Server

end EpollServer
