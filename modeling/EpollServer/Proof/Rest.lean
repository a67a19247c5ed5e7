import EpollServer.Proof.Balance
import EpollServer.Proof.Lingering
import EpollServer.Proof.Loops

/-!
# Nothing is left over

When all threads wait and no eventfd is set, every connection is either served, with everything in place, or
gone without a trace: no function is left in a queue, no descriptor leaks, and neither `connectionsMap` nor an
epoll set keeps an entry of a connection that has ended.
-/

namespace EpollServer

namespace Server

variable {s s' : Server} {t c : Nat} {move : Move} {o : Outcome}

/-- Every open descriptor is about to become a connection's, or is the one of a connection that has not closed
it. -/
def Filed (s : Server) : Prop :=
  ∀ fd c, s.files fd = some c → (∃ rest, (s.threads 0).pc = .accepted c fd rest) ∨
    ((s.slots c).stage ≠ .construct ∧ (s.slots c).fd = fd ∧ (s.slots c).closed = 0)

section Step

variable (hf : s.Filed) (hs : s.Sound) (hw : s.Wired) (hi : s.InTurn) (ht : t ≤ s.threadNums)
  (h : Goes s t move o)
include hf hs hw hi ht h

omit hf hi in
theorem Goes.filed_keep {fd : Fd} (hclose : o.effect ≠ .close c)
    (hc : (s.slots c).stage ≠ .construct ∧ (s.slots c).fd = fd ∧ (s.slots c).closed = 0) :
    ((s.after t o).slots c).stage ≠ .construct ∧ ((s.after t o).slots c).fd = fd ∧
      ((s.after t o).slots c).closed = 0 := by
  obtain ⟨hconstructed, hfd, hclosed⟩ := hc
  refine ⟨h.constructed hw hconstructed, (h.fixed hw hconstructed).1.trans hfd, ?_⟩
  rw [(hs.counts hw ht h c).closed, hclosed, Nat.zero_add]
  cases heffect : o.effect with
  | close c' =>
      rw [heffect] at hclose
      refine List.count_eq_zero.mpr fun hmem => hclose ?_
      rw [List.mem_singleton.mp hmem]
  | _ => rfl

theorem Filed.after : (s.after t o).Filed := by
  intro fd c hfile
  rcases h.turns with ⟨fd', rest, hbatch, heffect, hthread⟩ |
    ⟨c', fd', rest, state, tied, ok, hpc, heffect, hthread⟩ | ⟨haccept, hconstruct, hbefore, -⟩
  · obtain rfl : t = 0 := hw.ready t .accept (by rw [hbatch]; exact List.mem_cons_self)
    have hfiles : (s.after 0 o).files = Function.update s.files fd' (some s.accepted) := by
      rw [Server.after, heffect]
      rfl
    rw [hfiles] at hfile
    by_cases hfd : fd = fd'
    · subst hfd
      rw [Function.update_self] at hfile
      cases hfile
      exact .inl ⟨rest, by rw [threads_after_self, hthread]⟩
    · rw [Function.update_of_ne hfd] at hfile
      rcases hf fd c hfile with ⟨_, hpc⟩ | hc
      · rw [hbatch] at hpc
        cases hpc
      · exact .inr (h.filed_keep hs hw ht (by simp [heffect]) hc)
  · obtain rfl : t = 0 := (hw.setsUp t c' (by rw [hpc]; rfl)).1
    have hfiles : (s.after 0 o).files = s.files :=
      (s.apply_frame 0 o.effect).2.2.2.2 (by simp [heffect]) (by simp [heffect])
    rw [hfiles] at hfile
    rcases hf fd c hfile with ⟨_, hold⟩ | hc
    · rw [hpc] at hold
      cases hold
      have hslot : (s.after 0 o).slots c = .new (.new s.nextEventLoop.1 fd state tied ok) := by
        rw [Server.after, heffect]
        exact Function.update_self ..
      rw [hslot]
      exact .inr ⟨by simp [Slot.new], rfl, rfl⟩
    · exact .inr (h.filed_keep hs hw ht (by simp [heffect]) hc)
  · have hold : s.files fd = some c ∧ o.effect ≠ .close c := by
      by_cases hclose : ∃ c', o.effect = .close c'
      · obtain ⟨c', heffect⟩ := hclose
        have hfiles : (s.after t o).files = Function.update s.files (s.slots c').fd none := by
          rw [Server.after, heffect]
          rfl
        rw [hfiles] at hfile
        by_cases hfd : fd = (s.slots c').fd
        · rw [hfd, Function.update_self] at hfile
          cases hfile
        · rw [Function.update_of_ne hfd] at hfile
          refine ⟨hfile, fun heq => hfd ?_⟩
          rw [heffect] at heq
          cases heq
          rcases hf fd c hfile with ⟨rest, hpc⟩ | ⟨-, hfd, -⟩
          · exact absurd (hw.accepting 0 c fd rest hpc) (hs.open_of_close ht h heffect).1
          · exact hfd.symm
      · have hnot : ∀ c, o.effect ≠ .close c := fun c heq => hclose ⟨c, heq⟩
        have hfiles : (s.after t o).files = s.files := (s.apply_frame t o.effect).2.2.2.2 haccept hnot
        rw [hfiles] at hfile
        exact ⟨hfile, hnot c⟩
    rcases hf fd c hold.1 with ⟨rest, hpc⟩ | hc
    · exact .inl ⟨rest, by rw [hi.threads_eq hbefore hpc, hpc]⟩
    · exact .inr (h.filed_keep hs hw ht hold.2 hc)

end Step

theorem filed_of_reachable (hs : Machine.Reachable Server.step Registers Fresh s) : s.Filed := by
  refine hs.invariant (fun s hs fd c h => ?_) fun s action s' hs hinv _ hstep => ?_
  · rw [hs.files] at h
    cases h
  · obtain ⟨hw, -, hsound⟩ := sound_of_reachable (fun _ _ => deregisters_of_ctlSucceeds) hs
    obtain ⟨ht, o, hgoes, rfl⟩ := step_cases hstep
    exact hinv.after hsound hw (inTurn_of_reachable hs) ht hgoes

theorem enablesRead_of_ctlSucceeds (hok : move.CtlSucceeds) : EnablesRead c true s (t, move) := by
  rintro ⟨c', ok⟩ hstep - -
  unfold establishes at hstep
  split at hstep
  · rename_i hmove
    cases hstep
    dsimp only at hmove
    subst hmove
    exact hok
  · cases hstep

theorem Regular.registering (hs : s.Regular) : Machine.Reachable Server.step (Registering c true) Fresh s :=
  hs.fresh.mono (fun _ => id) fun _ _ hok => ⟨deregisters_of_ctlSucceeds hok, enablesRead_of_ctlSucceeds hok⟩

/-- Every thread waits, and nothing but bytes or a new connection will wake one. -/
structure AtRest (s : Server) : Prop where
  threads : ∀ t ≤ s.threadNums, s.threads t = ⟨.epollWait, []⟩
  wakeupEvent : ∀ l ≤ s.threadNums, (s.loops l).wakeupEvent = 0

/-- A connection that is in `connectionsMap`, open, and waited for by its loop. -/
structure Open (s : Server) (c : Nat) : Prop where
  unclosed : (s.slots c).session.history.closes = 0
  listed : s.connectionsMap (s.slots c).fd = some c
  file : s.files (s.slots c).fd = some c
  watched : s.Watched c

/-- A connection whose end is complete: every step of it was taken once. -/
structure Gone (s : Server) (c : Nat) : Prop where
  closes : (s.slots c).session.history.closes = 1
  erased : (s.slots c).erased = 1
  unregistered : (s.slots c).unregistered = 1
  expired : (s.slots c).expired = true
  closed : (s.slots c).closed = 1

theorem tally_eq_zero {f : EventLoop Task → Nat} {g : Thread → Nat}
    (h : ∀ i ≤ s.threadNums, f (s.loops i) = 0 ∧ g (s.threads i) = 0) : s.tally f g = 0 := by
  refine Nat.eq_zero_of_not_pos fun hpos => ?_
  obtain ⟨i, hi, hpos⟩ := tally_pos_iff.mp hpos
  have hzero := h i hi
  omega

section Rest

variable (hs : s.Regular) (hrest : s.AtRest)
include hs hrest

theorem AtRest.toDoList {l : Nat} (hl : l ≤ s.threadNums) : (s.loops l).toDoList = [] := by
  obtain ⟨r, hr, hbehaves⟩ := exists_behaves hs hl
  by_contra hqueued
  rcases hbehaves.awake (Reactor.sound_of_reachable hr) (by rw [hrest.threads l hl])
    (by rw [hrest.threads l hl]) hqueued with hpos | ⟨t, ht, -, hmem⟩
  · rw [hrest.wakeupEvent l hl] at hpos
    cases hpos
  · rw [hrest.threads t ht] at hmem
    cases hmem

theorem AtRest.tokens (cb : Task) : s.tokens cb = 0 := by
  refine tally_eq_zero fun i hi => ?_
  rw [hrest.toDoList hs hi, hrest.threads i hi]
  exact ⟨rfl, rfl⟩

theorem AtRest.pointers (c : Nat) : s.pointers c = 0 := by
  refine tally_eq_zero fun i hi => ?_
  rw [EventLoop.owns, hrest.toDoList hs hi, hrest.threads i hi]
  exact ⟨rfl, rfl⟩

omit hs in
theorem AtRest.destructors (c : Nat) : s.destructors c = 0 := by
  refine tally_eq_zero fun i hi => ?_
  rw [hrest.threads i hi]
  exact ⟨rfl, rfl⟩

/-- `HandleNewConnection` has returned for every connection. -/
theorem AtRest.stage_eq : c < s.accepted ↔ (s.slots c).stage = .done := by
  have hmain := hrest.threads 0 (Nat.zero_le _)
  have hconstructed := (inTurn_of_reachable hs.fresh).constructed c
  rw [constructed_of_not_accepted (by rw [hmain]; nofun)] at hconstructed
  rw [hconstructed]
  refine ⟨fun hc => ?_, fun hdone => by rw [hdone]; nofun⟩
  by_contra hdone
  obtain ⟨-, -, hsound⟩ := hs.sound
  obtain ⟨rest, hpc⟩ := hsound.ongoing c hc hdone
  rw [hmain] at hpc
  cases hpc

omit hrest in
theorem Regular.isOpen (hdone : (s.slots c).stage = .done)
    (hcloses : (s.slots c).session.history.closes = 0) : s.Open c := by
  obtain ⟨-, hh, hsound⟩ := hs.sound
  have hchain := hsound.chain c
  have hregistered : (s.slots c).unregistered = 0 := by omega
  refine ⟨hcloses, ?_, ?_, ?_⟩
  · exact (hsound.map _ c).mpr ⟨rfl, by rw [hdone]; decide, by omega⟩
  · exact (hsound.present hh (by rw [hdone]; nofun) hregistered).2.2
  · exact (registered_of_reachable hs.registering).watched (by rw [hdone]; decide) hregistered

theorem AtRest.gone (hdone : (s.slots c).stage = .done)
    (hcloses : (s.slots c).session.history.closes ≠ 0) : s.Gone c := by
  obtain ⟨-, hh, hsound⟩ := hs.sound
  have hchain := hsound.chain c
  have hcalled := hsound.closes c
  have herased := hsound.erased c
  have hdestroyed := hsound.destroyed c
  rw [hrest.tokens hs] at hcalled herased
  have hunowned : ¬s.Owned c := by
    rintro (hlisted | hpos)
    · have hlisted := ((hsound.map _ c).mp hlisted).erased
      omega
    · rw [hrest.pointers hs] at hpos
      cases hpos
  have hexpired : (s.slots c).expired = true := by
    rw [← Bool.not_eq_false, ← hsound.owned c (by rw [hdone]; nofun)]
    exact hunowned
  rw [hrest.destructors, hexpired, if_pos rfl] at hdestroyed
  exact ⟨by omega, by omega, by omega, hexpired, by omega⟩

theorem AtRest.open_or_gone (hc : c < s.accepted) : s.Open c ∨ s.Gone c := by
  have hdone := (hrest.stage_eq hs).mp hc
  by_cases hcloses : (s.slots c).session.history.closes = 0
  · exact .inl (hs.isOpen hdone hcloses)
  · exact .inr (hrest.gone hs hdone hcloses)

end Rest

/-- **Nothing is left over**, where `IsInLoopThread` is exact and `epoll_ctl` succeeds. When all threads wait and no eventfd is set, all queues are empty, each connection
that was ever accepted is served or gone, and the descriptors that are open are exactly those of the
connections in `connectionsMap`, which are the only ones in an epoll set. -/
theorem nothing_left_over (hs : s.Regular) (hrest : s.AtRest) :
    (∀ l ≤ s.threadNums, (s.loops l).toDoList = []) ∧ (∀ c < s.accepted, s.Open c ∨ s.Gone c) ∧
      (∀ fd c, s.files fd = some c ↔ s.connectionsMap fd = some c) ∧
      ∀ l fd c events, s.epoll l fd = some (c, events) → s.connectionsMap fd = some c := by
  obtain ⟨hw, hh, hsound⟩ := hs.sound
  have hopen : ∀ c, (s.slots c).stage ≠ .construct → ¬s.Gone c → s.Open c := by
    intro c hconstructed hgone
    have hmain := hrest.threads 0 (Nat.zero_le _)
    have hlt := ((inTurn_of_reachable hs.fresh).constructed c).mpr hconstructed
    rw [constructed_of_not_accepted (by rw [hmain]; nofun)] at hlt
    exact (hrest.open_or_gone hs hlt).resolve_right hgone
  refine ⟨fun l => hrest.toDoList hs, fun c => hrest.open_or_gone hs, fun fd c => ⟨fun hfile => ?_,
    fun hlisted => ?_⟩, fun l fd c events hentry => ?_⟩
  · rcases filed_of_reachable hs.fresh fd c hfile with ⟨rest, hpc⟩ | ⟨hconstructed, rfl, hclosed⟩
    · rw [hrest.threads 0 (Nat.zero_le _)] at hpc
      cases hpc
    · refine (hopen c hconstructed fun hgone => ?_).listed
      rw [hgone.closed] at hclosed
      cases hclosed
  · obtain ⟨rfl, hinserted, herased⟩ := (hsound.map fd c).mp hlisted
    refine (hopen c (fun hstage => ?_) fun hgone => ?_).file
    · rw [hstage] at hinserted
      exact absurd hinserted (by decide)
    · rw [hgone.erased] at herased
      cases herased
  · obtain ⟨hbelongs, rfl, -⟩ := hw.epoll l fd c events hentry
    refine (hopen c hbelongs.constructed fun hgone => ?_).listed
    have hregistered := hsound.registered l _ c events hentry
    rw [hgone.unregistered] at hregistered
    cases hregistered

/-- A connection ends, and another one gets its descriptor. -/
def successor : List (Nat × Move) :=
  closing ++ List.replicate 3 (1, .next true) ++ [(1, .run .tau)] ++ List.replicate 6 (1, .next true) ++
    [(0, .epollWait [.wakeup])] ++ List.replicate 12 (0, .next true) ++
    [(1, .epollWait [.wakeup])] ++ List.replicate 10 (1, .next true) ++
    [(0, .epollWait [.accept]), (0, .accept (some 7)), (0, .construct .invalid false true)] ++
    List.replicate 11 (0, .next true)

theorem nothing_left_over_successor : ∃ s : Server, s.Regular ∧ s.AtRest ∧
    s.Gone 0 ∧ s.Open 1 ∧ s.files 7 = some 1 := by
  have hview : (Machine.run Server.step Registers (start 1 id id) successor).map (fun s =>
      decide (s.threadNums = 1 ∧ s.accepted = 2 ∧ s.threads 0 = ⟨.epollWait, []⟩ ∧
        s.threads 1 = ⟨.epollWait, []⟩ ∧ (s.loops 0).wakeupEvent = 0 ∧ (s.loops 1).wakeupEvent = 0 ∧
        (s.slots 0).session.history.closes = 1 ∧ (s.slots 1).session.history.closes = 0 ∧
        s.files 7 = some 1)) = some true := by
    decide +kernel
  obtain ⟨s, hrun, hend⟩ := Option.map_eq_some_iff.mp hview
  obtain ⟨hnums, haccepted, hmain, hsub, hwake, hwake', hcloses, hcloses', hfile⟩ := of_decide_eq_true hend
  have hs : s.Regular := .run (.init ⟨fresh_start 1 id id, exactTid_start 1⟩) hrun
  have hrest : s.AtRest := by
    constructor <;> intro i hi <;> obtain rfl | rfl : i = 0 ∨ i = 1 := by omega
    · exact hmain
    · exact hsub
    · exact hwake
    · exact hwake'
  obtain ⟨-, hkept, -, -⟩ := nothing_left_over hs hrest
  refine ⟨s, hs, hrest, (hkept 0 (by omega)).resolve_left fun h => ?_,
    (hkept 1 (by omega)).resolve_right fun h => ?_, hfile⟩
  · exact absurd (hcloses.symm.trans h.unclosed) (by decide)
  · exact absurd (hcloses'.symm.trans h.closes) (by decide)

end Server

end EpollServer
