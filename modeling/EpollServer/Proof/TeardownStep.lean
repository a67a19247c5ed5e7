import EpollServer.Proof.Teardown

/-!
# Every step keeps the books

One result for each clause of `Server.Sound`, assembled in `Sound.after`.
-/

namespace EpollServer

/-- `epoll_ctl` does not fail. -/
def Move.CtlSucceeds : Move → Prop
  | .construct _ _ ok | .next ok | .run (.epollCtl ok) => ok = true
  | _ => True

instance (move : Move) : Decidable move.CtlSucceeds := by
  unfold Move.CtlSucceeds
  split <;> infer_instance

namespace Server

variable {s s' : Server} {t c : Nat} {move : Move} {o : Outcome}

/-- The connection whose `ConnectionDestructor` a step is, with the outcome of its `epoll_ctl`. -/
def destructs (s : Server) (action : Nat × Move) : Option (Nat × Bool) :=
  match (s.threads action.1).work, action.2 with
  | .func _ (.connectionDestructor c) :: _, .next ok => some (c, ok)
  | _, _ => none

/-- `epoll_ctl` does not refuse to remove a descriptor that is registered. -/
def Deregisters (s : Server) (action : Nat × Move) : Prop :=
  ∀ step ∈ s.destructs action,
    (s.epoll (s.slots step.1).eventLoop (s.slots step.1).fd).isSome → step.2 = true

instance (s : Server) (action : Nat × Move) : Decidable (s.Deregisters action) := by
  unfold Deregisters
  infer_instance

theorem deregisters_of_ctlSucceeds {action : Nat × Move} (h : action.2.CtlSucceeds) :
    s.Deregisters action := by
  rintro ⟨c, ok⟩ hstep -
  unfold destructs at hstep
  split at hstep
  · rename_i hmove
    cases hstep
    rwa [hmove] at h
  · cases hstep

theorem Fresh.tally_eq_zero (hs : s.Fresh) {f : EventLoop Task → Nat} {g : Thread → Nat}
    (hf : ∀ tid, f (.new tid) = 0) (hg : g ⟨.epollWait, []⟩ = 0) : s.tally f g = 0 := by
  refine Nat.eq_zero_of_not_pos fun h => ?_
  obtain ⟨i, -, h | h⟩ := tally_pos_iff.mp h
  · rw [hs.loops, hf] at h
    cases h
  · rw [hs.threads, hg] at h
    cases h

theorem Fresh.sound (hs : s.Fresh) : s.Sound := by
  have htokens (cb : Task) : s.tokens cb = 0 := hs.tally_eq_zero (fun _ => rfl) rfl
  have hdestructors (c : Nat) : s.destructors c = 0 := hs.tally_eq_zero (fun _ => rfl) rfl
  have hpointers (c : Nat) : s.pointers c = 0 := hs.tally_eq_zero (fun _ => rfl) rfl
  have hstage (c : Nat) : (s.slots c).stage = .construct := by
    rw [hs.slots]
    rfl
  constructor
  case unborn =>
    intro c _
    rw [hs.slots]
    exact ⟨rfl, rfl, rfl, rfl, rfl⟩
  case closing =>
    intro c
    rw [hs.slots]
    exact Nat.zero_le _
  case closes =>
    intro c
    rw [htokens, hs.slots]
    rfl
  case erased =>
    intro c
    rw [htokens, hs.slots]
    rfl
  case map =>
    intro fd c
    rw [hs.connectionsMap]
    exact ⟨nofun, fun h => absurd h.inserted (by rw [hstage]; decide)⟩
  case ongoing => exact fun c h => absurd (hstage c) h
  case registered =>
    intro l fd c registered h
    rw [hs.epoll] at h
    cases h
  case ready =>
    intro t fd c events h
    rw [hs.threads] at h
    cases h
  case handling =>
    intro t c guard rest h
    rw [hs.threads] at h
    cases h
  case held =>
    intro c h
    rw [hpointers] at h
    cases h
  case owned => exact fun c h => absurd (hstage c) h
  case destroyed =>
    intro c
    rw [hdestructors, hs.slots]
    rfl
  case files => exact fun c h => absurd (hstage c) h
  case accepted =>
    intro t c fd rest h
    rw [hs.threads] at h
    cases h

theorem Sound.found (hs : s.Sound) (hw : s.Wired) (ht : t ≤ s.threadNums) {l : Nat} {pc : Pc}
    {rest : List Work} (hthread : s.threads t = ⟨pc, .func l (.handleCloseInLoop c) :: rest⟩) :
    s.connectionsMap (s.slots c).fd = some c := by
  have htoken : 0 < s.tokens (.handleCloseInLoop c) :=
    tokens_of_work ht (by rw [hthread]; exact List.mem_cons_self) (beq_self_eq_true _)
  have hcloses := hs.closes c
  have hle := hs.closes_le c
  refine (hs.map _ c).mpr ⟨rfl, ?_, by omega⟩
  by_contra hstage
  have hearly := hs.early hw (c := c) (by simp only [Stage.index] at hstage ⊢; omega)
  omega

theorem owns_release (pc : Pc) (rest : List Work) (c : Nat) :
    (⟨pc, .release c :: rest⟩ : Thread).owns c = (⟨pc, rest⟩ : Thread).owns c + 1 := by
  simp only [Thread.owns, List.countP_cons, Work.owns, beq_self_eq_true, ↓reduceIte]
  omega

theorem Sound.owned_of_work (hs : s.Sound) (ht : t ≤ s.threadNums) {item : Work}
    (hitem : item ∈ (s.threads t).work) (howns : item.owns c = true) :
    (s.slots c).stage ≠ .construct ∧ s.Owned c := by
  have hpos : 0 < s.pointers c := pointers_pos ht (.inr (owns_of_work hitem howns))
  exact ⟨hs.held c hpos, .inr hpos⟩

theorem Sound.owned_of_release (hs : s.Sound) (ht : t ≤ s.threadNums) {pc : Pc} {rest : List Work}
    (hthread : s.threads t = ⟨pc, .release c :: rest⟩) :
    (s.slots c).stage ≠ .construct ∧ s.Owned c := by
  have hitem : .release c ∈ (s.threads t).work := by
    rw [hthread]
    exact List.mem_cons_self
  exact hs.owned_of_work ht hitem (beq_self_eq_true _)

theorem Sound.open_of_work (hs : s.Sound) (ht : t ≤ s.threadNums)
    (hitem : .destructor c ∈ (s.threads t).work) : (s.slots c).stage ≠ .construct ∧
      (s.slots c).expired = true ∧ (s.slots c).closed = 0 ∧ s.files (s.slots c).fd = some c := by
  have hpos : 0 < s.destructors c :=
    tally_pos_iff.mpr ⟨t, ht, .inr (List.count_pos_iff.mpr hitem)⟩
  have hdestroyed := hs.destroyed c
  have hexpired : (s.slots c).expired = true := by
    by_contra hexpired
    rw [if_neg hexpired] at hdestroyed
    omega
  have hconstructed : (s.slots c).stage ≠ .construct := fun hstage => by
    rw [(hs.unborn c hstage).expired] at hexpired
    cases hexpired
  rw [if_pos hexpired] at hdestroyed
  have hclosed : (s.slots c).closed = 0 := by omega
  exact ⟨hconstructed, hexpired, hclosed, hs.files c hconstructed hclosed⟩

theorem Goes.stage_of_construct (h : Goes s t move o) (hw : s.Wired) {fd : Fd}
    {state : ConnectionState} {tied ok : Bool} (heffect : o.effect = .construct c fd state tied ok) :
    (s.slots c).stage = .construct := by
  cases h with
  | construct hthread =>
      cases heffect
      exact hw.accepting t _ _ _ (by rw [hthread])
  | _ => cases heffect

theorem Goes.pointers_of_establish (h : Goes s t move o) (ht : t ≤ s.threadNums) {ok : Bool}
    (heffect : o.effect = .establish c ok) : 0 < s.pointers c := by
  cases h with
  | insert hthread | onConnect hthread | establish hthread =>
      cases heffect
      refine pointers_pos ht (.inr (owns_of_pc ?_))
      rw [hthread]
      simp [Pc.owns]
  | _ => cases heffect

section Step

variable (hs : s.Sound) (hw : s.Wired) (hh : s.Homed) (ht : t ≤ s.threadNums)
  (h : Goes s t move o)
include hs hw ht h

theorem Sound.findsItself : s.FindsItself o := by
  intro l c heffect
  cases h with
  | erase hthread | assertFailed hthread =>
      cases heffect
      exact hs.found hw ht hthread
  | _ => cases heffect

theorem Sound.counts (c : Nat) : Slot.Counts c o.effect (s.slots c) ((s.after t o).slots c) :=
  h.counts hw hs.unborn (hs.findsItself hw ht h) c

include hh

/-- An effect on a connection is on one that exists, unless it is its constructor. -/
theorem Sound.touched {slot : Slot} (htouched : s.touched o.effect = some (c, slot)) :
    (s.slots c).stage ≠ .construct ∨ ∃ fd state tied ok, o.effect = .construct c fd state tied ok := by
  cases h with
  | construct =>
      cases htouched
      exact .inr ⟨_, _, _, _, rfl⟩
  | insert hthread | onConnect hthread | establish hthread =>
      cases htouched
      exact .inl (hw.establishing t _ _ (by rw [hthread])).1
  | @dispatch fd _ events rest _ _ hthread hstep =>
      cases htouched
      have hitem := hw.ready t (.conn fd c events) (by rw [hthread]; exact List.mem_cons_self)
      exact .inl hitem.1.constructed
  | run hthread =>
      cases htouched
      exact .inl (hw.handling t _ _ _ (by rw [hthread])).constructed
  | erase hthread hfound =>
      obtain ⟨e, hfound, heq⟩ := Option.map_eq_some_iff.mp htouched
      cases heq
      exact .inl fun hstage => absurd ((hs.map _ c).mp hfound).inserted (by rw [hstage]; decide)
  | assertFailed hthread hnone =>
      rw [goOn, Server.touched, hnone] at htouched
      cases htouched
  | unregister hthread =>
      cases htouched
      have hitem := hh.work t _ (by rw [hthread]; exact List.mem_cons_self)
      exact .inl hitem.1.constructed
  | expire hthread =>
      cases htouched
      exact .inl (hs.owned_of_release ht hthread).1
  | close hthread =>
      cases htouched
      exact .inl (hs.open_of_work ht (by rw [hthread]; exact List.mem_cons_self)).1
  | _ => cases htouched

theorem Sound.after_unborn (hstage : ((s.after t o).slots c).stage = .construct) :
    ((s.after t o).slots c).Unborn := by
  have hbefore : (s.slots c).stage = .construct := by
    by_contra hconstructed
    exact h.constructed hw hconstructed hstage
  rcases s.slots_apply_cases t c o.effect with heq | ⟨slot, htouched, heq⟩
  · change ((s.apply t o.effect).slots c).Unborn
    rw [heq]
    exact hs.unborn c hbefore
  · rcases hs.touched hw hh ht h htouched with hconstructed | ⟨fd, state, tied, ok, heffect⟩
    · exact absurd hbefore hconstructed
    · exact absurd hstage (h.setUp_constructed hw (by rw [heffect]; rfl))

omit hh ht in
theorem Sound.after_closing (c : Nat) : ((s.after t o).slots c).session.Closing := by
  rcases h.slots hw c with heq | hchange
  · rw [heq]
    exact hs.closing c
  · exact hchange.closing (hw.early c) (hs.closing c)

theorem Sound.after_closes (c : Nat) : ((s.after t o).slots c).session.history.closes
    = (s.after t o).tokens (.handleCloseInLoop c) + ((s.after t o).slots c).erased := by
  have htokens := h.tokens hw hh ht (hs.findsItself hw ht h).finds (.handleCloseInLoop c)
  have hcounts := hs.counts hw ht h c
  have hbefore := hs.closes c
  rw [hcounts.closes, hcounts.erased]
  omega

theorem Sound.after_erased (c : Nat) : ((s.after t o).slots c).erased
    = (s.after t o).tokens (.connectionDestructor c) + ((s.after t o).slots c).unregistered := by
  have htokens := h.tokens hw hh ht (hs.findsItself hw ht h).finds (.connectionDestructor c)
  have hcounts := hs.counts hw ht h c
  have hbefore := hs.erased c
  rw [hcounts.erased, hcounts.unregistered]
  -- `HandleCloseInLoop` binds a `ConnectionDestructor` for each connection that it erases
  have hmade : o.effect.made.count (.connectionDestructor c)
      = o.effect.called.count (.handleCloseInLoop c) := by
    cases o.effect with
    | session c label session => cases label <;> simp [Effect.made, Effect.called]
    | handleCloseInLoop l c' => simp [Effect.made, Effect.called, List.count_cons]
    | _ => simp [Effect.made, Effect.called]
  omega

/-- `ConnectionDestructor` runs between the batches of its loop. -/
theorem Sound.unregistered_eq {t' : Nat} (hbelongs : s.Belongs t' c)
    (hcalled : t' = t → o.thread.pc.called = []) :
    ((s.after t o).slots c).unregistered = (s.slots c).unregistered := by
  rw [(hs.counts hw ht h c).unregistered]
  suffices hnone : o.effect.called.count (.connectionDestructor c) = 0 by omega
  cases h with
  | @unregister pc l c' rest ok hthread =>
      by_cases hc : c' = c
      · subst hc
        have hitem := hh.work t (.func l (.connectionDestructor c')) (by rw [hthread]; exact List.mem_cons_self)
        obtain ⟨hl, hmem⟩ := hitem.2.resolve_left nofun
        rw [hthread] at hmem
        have hloop : t' = t := by
          rw [← hbelongs.eventLoop, ← hl]
          exact hitem.1.home
        have hnil := hcalled hloop
        rw [show pc.called = [] from hnil] at hmem
        cases hmem
      · simp [goOn, Effect.called, hc]
  | @run _ _ _ label => simp [goOn, Effect.called]
  | _ => simp [goOn, Effect.called]

theorem Sound.after_ready {t' : Nat} {fd : Fd} {events : EpollEvents}
    (hitem : .conn fd c events ∈ ((s.after t o).threads t').pc.ready) :
    ((s.after t o).slots c).unregistered = 0 := by
  by_cases hne : t' = t
  · subst hne
    rw [threads_after_self] at hitem
    have hcalled : o.thread.pc.called = [] := by
      cases hpc : o.thread.pc with
      | funcs =>
          rw [hpc] at hitem
          cases hitem
      | _ => rfl
    rcases h.ready hitem with hold | hreports
    · rw [hs.unregistered_eq hw hh ht h (hw.ready t' _ hold).1 fun _ => hcalled]
      exact hs.ready t' fd c events hold
    · rw [hs.unregistered_eq hw hh ht h (hw.expected hreports).1 fun _ => hcalled]
      obtain ⟨registered, hentry, -⟩ := entry_of_reports hreports
      exact hs.registered t' fd c registered hentry
  · rw [threads_after_of_ne hne] at hitem
    rw [hs.unregistered_eq hw hh ht h (hw.ready t' _ hitem).1 fun heq => absurd heq hne]
    exact hs.ready t' fd c events hitem

theorem Sound.after_handling {t' : Nat} {guard : Bool} {rest : List Ready}
    (hpc : ((s.after t o).threads t').pc = .handleEvent c guard rest) :
    ((s.after t o).slots c).unregistered = 0 := by
  by_cases hne : t' = t
  · subst hne
    rw [threads_after_self] at hpc
    have hcalled : o.thread.pc.called = [] := by rw [hpc]; rfl
    rcases h.handling hpc with ⟨guard, rest, hbefore⟩ | ⟨fd, events, hitem⟩
    · rw [hs.unregistered_eq hw hh ht h (hw.handling t' c _ _ hbefore) fun _ => hcalled]
      exact hs.handling t' c _ _ hbefore
    · rw [hs.unregistered_eq hw hh ht h (hw.ready t' _ hitem).1 fun _ => hcalled]
      exact hs.ready t' fd c events hitem
  · rw [threads_after_of_ne hne] at hpc
    rw [hs.unregistered_eq hw hh ht h (hw.handling t' c _ _ hpc) fun heq => absurd heq hne]
    exact hs.handling t' c _ _ hpc

omit hs hw hh ht in
/-- An entry that `ConnectionDestructor` leaves is not the one of its connection. -/
theorem Goes.epoll_unregister (hdel : s.Deregisters (t, move)) (hw : s.Wired) {l l' : Nat} {fd : Fd}
    {registered : EpollEvents} {ok : Bool} (heffect : o.effect = .connectionDestructor l' c ok)
    (hold : s.epoll l fd = some (c, registered)) : (s.after t o).epoll l fd = none := by
  obtain ⟨hbelongs, hfd, -⟩ := hw.epoll l fd c registered hold
  cases h with
  | unregister hthread =>
      cases heffect
      obtain rfl := hfd
      obtain rfl := hbelongs.eventLoop
      obtain rfl : ok = true := hdel (c, ok) (by rw [destructs, hthread]; rfl) (by rw [hold]; rfl)
      simp [after, apply, goOn, connectionDestructor, setSlot, log]
  | _ => cases heffect

omit hs hw hh ht in
theorem Goes.called_of_handleEvent {guard : Bool} {rest : List Ready}
    (hpc : (s.threads t).pc = .handleEvent c guard rest) : o.thread.pc.called = [] := by
  cases h with
  | _ hthread =>
      rw [hthread] at hpc
      cases hpc <;> rfl

theorem Sound.after_registered (hdel : s.Deregisters (t, move)) {l : Nat} {fd : Fd}
    {registered : EpollEvents} (hentry : (s.after t o).epoll l fd = some (c, registered)) :
    ((s.after t o).slots c).unregistered = 0 := by
  have hcounts := (hs.counts hw ht h c).unregistered
  rcases h.epoll hw hentry with hold | ⟨huser, -⟩
  · have hbefore := hs.registered l fd c registered hold
    suffices hnone : o.effect.called.count (.connectionDestructor c) = 0 by omega
    cases heffect : o.effect with
    | connectionDestructor l' c' ok =>
        by_cases hc : c' = c
        · subst hc
          rw [h.epoll_unregister hdel hw heffect hold] at hentry
          cases hentry
        · simp [Effect.called, hc]
    | _ => simp [Effect.called]
  · rcases huser with ⟨hsetsUp, hstage⟩ | ⟨-, guard, rest, hpc⟩
    · have hbefore := (hs.early hw hstage).2.2
      cases heffect : o.effect with
      | construct | establish => 
          rw [heffect] at hcounts
          simpa [Effect.called, hbefore] using hcounts
      | _ =>
          rw [heffect] at hsetsUp
          exact hsetsUp.elim
    · rw [hs.unregistered_eq hw hh ht h (hw.handling t c guard rest hpc)
        fun _ => h.called_of_handleEvent hpc]
      exact hs.handling t c guard rest hpc

omit hh in
theorem Sound.after_ongoing (hconstructed : ((s.after t o).slots c).stage ≠ .construct)
    (hdone : ((s.after t o).slots c).stage ≠ .done) :
    ∃ rest, ((s.after t o).threads 0).pc = .newConnection c rest := by
  by_cases ht0 : t = 0
  · subst ht0
    rw [threads_after_self]
    by_cases heffect : o.effect.SetsUp c
    · cases h with
      | construct | insert | establish =>
          obtain rfl := heffect
          exact ⟨_, rfl⟩
      | @onConnect c' rest ok hthread hstage =>
          obtain rfl : c' = c := heffect
          refine absurd ?_ hdone
          change ((s.newConnection 0 c' ok).slots c').stage = _
          rw [slots_newConnection, Function.update_self, Slot.establish, hstage]
          rfl
      | _ => exact heffect.elim
    · have hstage : ((s.after 0 o).slots c).stage = (s.slots c).stage := stage_apply heffect
      rw [hstage] at hconstructed hdone
      obtain ⟨rest, hpc⟩ := hs.ongoing c hconstructed hdone
      refine ⟨rest, ?_⟩
      cases h with
      | assertFailed hthread hnone =>
          rw [hs.found hw ht hthread] at hnone
          cases hnone
      | insert hthread | onConnect hthread | establish hthread =>
          rw [hthread] at hpc
          cases hpc
          exact absurd rfl heffect
      | _ hthread =>
          rw [hthread] at hpc
          first
            | exact hpc
            | cases hpc
  · rw [threads_after_of_ne (Ne.symm ht0)]
    have hstage : ((s.after t o).slots c).stage = (s.slots c).stage :=
      h.stage_eq fun hpc => ht0 (hw.setsUp t c hpc).1
    rw [hstage] at hconstructed hdone
    exact hs.ongoing c hconstructed hdone

omit hh in
theorem Sound.listed_iff (hinsert : ∀ ok, o.effect = .establish c ok → (s.slots c).stage ≠ .insert)
    (herase : ∀ l, o.effect ≠ .handleCloseInLoop l c) (fd : Fd) :
    (s.after t o).Listed fd c ↔ s.Listed fd c := by
  have hindex : Stage.setConnected.index ≤ ((s.after t o).slots c).stage.index ↔
      Stage.setConnected.index ≤ (s.slots c).stage.index := by
    by_cases heffect : o.effect.SetsUp c
    · cases h with
      | construct hthread =>
          obtain rfl := heffect
          have hstage := hw.accepting t _ _ _ (by rw [hthread])
          change _ ≤ (Function.update s.slots _ _ _).stage.index ↔ _
          rw [Function.update_self, hstage]
          simp [Slot.new, Stage.index]
      | @insert c' rest ok hthread hstage =>
          obtain rfl : c' = c := heffect
          exact absurd hstage (hinsert ok rfl)
      | @onConnect c' rest ok hthread | @establish c' rest ok hthread =>
          obtain rfl : c' = c := heffect
          have hne : (s.slots c').stage.index ≠ Stage.insert.index :=
            Stage.index_injective.ne (hinsert ok rfl)
          obtain ⟨hconstructed, hdone⟩ := hw.establishing t _ _ (by rw [hthread])
          change _ ≤ ((s.newConnection t c' ok).slots c').stage.index ↔ _
          rw [slots_newConnection, Function.update_self,
            Slot.index_establish_of hconstructed hdone]
          simp only [Stage.index] at hne ⊢
          omega
      | _ => exact heffect.elim
    · rw [show ((s.after t o).slots c).stage = _ from stage_apply heffect]
  have herased : ((s.after t o).slots c).erased = (s.slots c).erased := by
    rw [(hs.counts hw ht h c).erased]
    cases heffect : o.effect with
    | handleCloseInLoop l c' =>
        have hc : c' ≠ c := fun hc => herase l (hc ▸ heffect)
        simp [Effect.called, hc]
    | _ => simp [Effect.called]
  constructor
  · intro hlisted
    have hinserted := hindex.mp hlisted.inserted
    have hconstructed : (s.slots c).stage ≠ .construct := fun hstage =>
      absurd hinserted (by rw [hstage]; decide)
    exact ⟨(h.fixed hw hconstructed).1.symm.trans hlisted.fd_eq, hinserted,
      herased.symm.trans hlisted.erased⟩
  · intro hlisted
    have hconstructed : (s.slots c).stage ≠ .construct := fun hstage =>
      absurd hlisted.inserted (by rw [hstage]; decide)
    exact ⟨(h.fixed hw hconstructed).1.trans hlisted.fd_eq, hindex.mpr hlisted.inserted,
      herased.trans hlisted.erased⟩

theorem Sound.map_insert {c' : Nat} {ok : Bool} (heffect : o.effect = .establish c' ok)
    (hstage : (s.slots c').stage = .insert) (fd : Fd) :
    Function.update s.connectionsMap (s.slots c').fd (some c') fd = some c ↔
      (s.after t o).Listed fd c := by
  have hearly := hs.early hw (c := c') (by rw [hstage]; decide)
  have hconstructed : (s.slots c').stage ≠ .construct := by rw [hstage]; decide
  have hself : (s.after t o).Listed (s.slots c').fd c' := by
    refine ⟨(h.fixed hw hconstructed).1, ?_, ?_⟩
    · change _ ≤ ((s.apply t o.effect).slots c').stage.index
      rw [heffect, apply, slots_newConnection, Function.update_self, Slot.establish, hstage]
      exact Nat.le_refl _
    · rw [(hs.counts hw ht h c').erased, hearly.2.1, heffect]
      rfl
  have hother (hc : c ≠ c') : (s.after t o).Listed fd c ↔ s.Listed fd c :=
    hs.listed_iff hw ht h (by rw [heffect]; rintro _ ⟨⟩; exact absurd rfl hc)
      (by simp [heffect]) fd
  by_cases hfd : fd = (s.slots c').fd
  · subst hfd
    rw [Function.update_self]
    by_cases hc : c = c'
    · subst hc
      exact ⟨fun _ => hself, fun _ => rfl⟩
    · refine ⟨fun heq => absurd (Option.some.inj heq).symm hc, fun hlisted => absurd ?_ hc⟩
      have hlisted := (hother hc).mp hlisted
      have hinserted := hlisted.inserted
      have hchain := (hs.chain c).1
      rw [hlisted.erased] at hchain
      exact hs.fd_injective hh (fun hstage => by rw [hstage] at hinserted; cases hinserted)
        hconstructed (Nat.le_zero.mp hchain) hearly.2.2 hlisted.fd_eq
  · rw [Function.update_of_ne hfd]
    by_cases hc : c = c'
    · subst hc
      refine ⟨fun hmap => absurd ((hs.map fd c).mp hmap).fd_eq.symm hfd, fun hlisted => absurd ?_ hfd⟩
      exact hlisted.fd_eq.symm.trans hself.fd_eq
    · rw [hs.map]
      exact (hother hc).symm

omit hh in
theorem Sound.map_erase {c' l : Nat} (heffect : o.effect = .handleCloseInLoop l c') (fd : Fd) :
    Function.update s.connectionsMap (s.slots c').fd none fd = some c ↔
      (s.after t o).Listed fd c := by
  have hself := (hs.map _ _).mp (hs.findsItself hw ht h l c' heffect)
  have hconstructed : (s.slots c').stage ≠ .construct := fun hstage =>
    absurd hself.inserted (by rw [hstage]; decide)
  have hother (hc : c ≠ c') : (s.after t o).Listed fd c ↔ s.Listed fd c :=
    hs.listed_iff hw ht h (by simp [heffect])
      (by rw [heffect]; rintro _ ⟨⟩; exact absurd rfl hc) fd
  have herased : ¬(s.after t o).Listed fd c' := fun hlisted => by
    have hcount := hlisted.erased
    rw [(hs.counts hw ht h c').erased, heffect] at hcount
    simp [Effect.called] at hcount
  by_cases hc : c = c'
  · subst hc
    refine ⟨fun hmap => absurd hmap ?_, fun hlisted => absurd hlisted herased⟩
    by_cases hfd : fd = (s.slots c).fd
    · subst hfd
      rw [Function.update_self]
      simp
    · rw [Function.update_of_ne hfd, hs.map]
      exact fun hlisted => hfd hlisted.fd_eq.symm
  · rw [hother hc, ← hs.map]
    by_cases hfd : fd = (s.slots c').fd
    · subst hfd
      rw [Function.update_self, (hs.map _ c').mpr hself]
      exact ⟨by simp, fun heq => absurd (Option.some.inj heq).symm hc⟩
    · rw [Function.update_of_ne hfd]

theorem Sound.after_map (fd : Fd) (c : Nat) :
    (s.after t o).connectionsMap fd = some c ↔ (s.after t o).Listed fd c := by
  change (s.apply t o.effect).connectionsMap fd = some c ↔ _
  cases heffect : o.effect with
  | establish c' ok =>
      rw [apply, connectionsMap_newConnection]
      split
      · exact hs.map_insert hw hh ht h heffect ‹_› fd
      · rename_i hstage
        rw [hs.map]
        refine (hs.listed_iff hw ht h ?_ (by simp [heffect]) fd).symm
        rw [heffect]
        rintro _ ⟨⟩
        exact hstage
  | handleCloseInLoop l c' =>
      rw [apply, handleCloseInLoop_of_some _ _ _ (hs.findsItself hw ht h l c' heffect)]
      exact hs.map_erase hw ht h heffect fd
  | _ =>
      rw [← heffect, s.connectionsMap_apply t o.effect (by simp [heffect]) (by simp [heffect]),
        hs.map]
      exact (hs.listed_iff hw ht h (by simp [heffect]) (by simp [heffect]) fd).symm

omit hs hw hh ht in
theorem Goes.gained_constructed (hs : s.Sound) (hw : s.Wired) (hh : s.Homed) (ht : t ≤ s.threadNums)
    (hgained : c ∈ s.gained o.effect) : (∃ fd state tied ok, o.effect = .construct c fd state tied ok) ∨
      (s.slots c).stage ≠ .construct ∧ s.Owned c := by
  have hlisted {fd : Fd} (hmap : s.connectionsMap fd = some c) :
      (s.slots c).stage ≠ .construct ∧ s.Owned c := by
    have hlisted := (hs.map fd c).mp hmap
    refine ⟨fun hstage => absurd hlisted.inserted (by rw [hstage]; decide), .inl ?_⟩
    rwa [hlisted.fd_eq]
  cases h with
  | runQueued hthread =>
      obtain rfl := List.mem_singleton.mp hgained
      exact .inr (hs.owned_of_work ht (by rw [hthread]; exact List.mem_cons_self) (beq_self_eq_true _))
  | construct =>
      obtain rfl := List.mem_singleton.mp hgained
      exact .inl ⟨_, _, _, _, rfl⟩
  | insert hthread hstage =>
      simp only [goOn, gained, hstage, ↓reduceIte, Option.mem_toList] at hgained
      exact .inr (hlisted hgained)
  | onConnect hthread hstage =>
      simp [goOn, gained, hstage] at hgained
  | establish hthread hconstructed hinsert =>
      simp [goOn, gained, hinsert] at hgained
  | @dispatch fd c' events rest ok session hthread =>
      simp only [goOn, gained] at hgained
      split at hgained
      · obtain rfl := List.mem_singleton.mp hgained
        rename_i hlock
        have hitem := hw.ready t (.conn fd c events) (by rw [hthread]; exact List.mem_cons_self)
        refine .inr ⟨hitem.1.constructed, (hs.owned c hitem.1.constructed).mpr ?_⟩
        simpa [Slot.lock] using (Bool.and_eq_true_iff.mp (Bool.and_eq_true_iff.mp hlock).2).2
      · cases hgained
  | @run c' guard rest label session hthread hbusy hstep =>
      cases label with
      | event events => exact absurd (Session.stack_of_event hstep) hbusy
      | onClose =>
          obtain rfl : c = c' := by simpa [goOn, gained] using hgained
          have hconstructed := (hw.handling t c guard rest (by rw [hthread])).constructed
          have hregistered := hs.handling t c guard rest (by rw [hthread])
          exact .inr ⟨hconstructed, hs.alive hh hconstructed hregistered⟩
      | _ => cases hgained
  | erase hthread hfound =>
      have hself := hs.found hw ht hthread
      simp only [goOn, gained, hself, Option.toList_some, List.cons_append, List.nil_append,
        List.mem_cons, List.not_mem_nil, or_false, or_self] at hgained
      subst hgained
      exact .inr (hlisted hself)
  | assertFailed hthread hnone =>
      rw [hs.found hw ht hthread] at hnone
      cases hnone
  | _ => cases hgained

theorem Sound.after_held (hpos : 0 < (s.after t o).pointers c) :
    ((s.after t o).slots c).stage ≠ .construct := by
  have hpointers := h.pointers hw hh ht (hs.findsItself hw ht h).finds c
  by_cases hgained : c ∈ s.gained o.effect
  · rcases h.gained_constructed hs hw hh ht hgained with ⟨fd, state, tied, ok, heffect⟩ | ⟨hc, -⟩
    · exact h.setUp_constructed hw (by rw [heffect]; rfl)
    · exact h.constructed hw hc
  · rw [List.count_eq_zero.mpr hgained] at hpointers
    exact h.constructed hw (hs.held c (by omega))

theorem Sound.owned_iff (hconstructed : (s.slots c).stage ≠ .construct)
    (hlost : c ∉ o.effect.lost) : (s.after t o).Owned c ↔ s.Owned c := by
  have hpointers := h.pointers hw hh ht (hs.findsItself hw ht h).finds c
  rw [List.count_eq_zero.mpr hlost] at hpointers
  have hfd := (h.fixed hw hconstructed).1
  by_cases hinsert : ∃ ok, o.effect = .establish c ok
  · obtain ⟨ok, heffect⟩ := hinsert
    have hpos := h.pointers_of_establish ht heffect
    exact ⟨fun _ => .inr hpos, fun _ => .inr (by omega)⟩
  by_cases herase : ∃ l, o.effect = .handleCloseInLoop l c
  · obtain ⟨l, heffect⟩ := herase
    have hmap := hs.findsItself hw ht h l c heffect
    have hgained : 0 < (s.gained o.effect).count c := by
      rw [heffect, gained]
      exact List.count_pos_iff.mpr (List.mem_append_right _ (List.mem_singleton.mpr rfl))
    exact ⟨fun _ => .inl hmap, fun _ => .inr (by omega)⟩
  have hmap : (s.after t o).connectionsMap (s.slots c).fd = some c ↔
      s.connectionsMap (s.slots c).fd = some c := by
    rw [hs.after_map hw hh ht h, hs.map]
    exact hs.listed_iff hw ht h (fun ok heffect => absurd ⟨ok, heffect⟩ hinsert)
      (fun l heffect => absurd ⟨l, heffect⟩ herase) _
  unfold Owned
  rw [hfd, hmap]
  by_cases hgained : c ∈ s.gained o.effect
  · rcases h.gained_constructed hs hw hh ht hgained with ⟨fd, state, tied, ok, heffect⟩ | ⟨-, howned⟩
    · exact absurd (h.stage_of_construct hw heffect) hconstructed
    · have hpos := List.count_pos_iff.mpr hgained
      exact ⟨fun _ => howned, fun _ => .inr (by omega)⟩
  · rw [List.count_eq_zero.mpr hgained] at hpointers
    rw [show (s.after t o).pointers c = s.pointers c by omega]

/-- After a release, something owns the connection if something else did before. -/
theorem Sound.owned_of_lost {pc : Pc} {rest : List Work}
    (hthread : s.threads t = ⟨pc, .release c :: rest⟩)
    (hlost : o.effect = .drop c ∨ o.effect = .expire c) :
    (s.after t o).Owned c ↔ (s.setThread t ⟨pc, rest⟩).Owned c := by
  have hconstructed := (hs.owned_of_release ht hthread).1
  have hpointers : (s.after t o).pointers c + 1 = s.pointers c := by
    have hpointers := h.pointers hw hh ht (hs.findsItself hw ht h).finds c
    rcases hlost with heffect | heffect <;> simpa [heffect, Effect.lost, gained] using hpointers
  have hset : (s.setThread t ⟨pc, rest⟩).pointers c + 1 = s.pointers c := by
    have htally := tally_setThread ht ⟨pc, rest⟩ (·.owns c) (·.owns c)
    rw [hthread, owns_release] at htally
    unfold Server.pointers
    omega
  have hmap : (s.after t o).connectionsMap = s.connectionsMap :=
    s.connectionsMap_apply t o.effect (by rcases hlost with heffect | heffect <;> simp [heffect])
      (by rcases hlost with heffect | heffect <;> simp [heffect])
  unfold Owned
  rw [hmap, (h.fixed hw hconstructed).1,
    show (s.after t o).pointers c = (s.setThread t ⟨pc, rest⟩).pointers c by omega]
  rfl

theorem Sound.after_owned (hconstructed : ((s.after t o).slots c).stage ≠ .construct) :
    (s.after t o).Owned c ↔ ((s.after t o).slots c).expired = false := by
  have hexpired := (hs.counts hw ht h c).expired
  rw [← Bool.not_eq_true, hexpired]
  by_cases hbefore : (s.slots c).stage = .construct
  · have hsetsUp : o.effect.SetsUp c := by
      by_contra heffect
      exact hconstructed ((stage_apply heffect).trans hbefore)
    have hpointers := h.pointers hw hh ht (hs.findsItself hw ht h).finds c
    cases h with
    | construct =>
        obtain rfl := hsetsUp
        simp only [goOn, Effect.lost, gained, List.count_nil, List.count_singleton_self] at hpointers
        refine ⟨fun _ hor => ?_, fun _ => .inr (by simp only [goOn]; omega)⟩
        rcases hor with hor | hor
        · rw [(hs.unborn _ hbefore).expired] at hor
          cases hor
        · cases hor
    | insert hthread | onConnect hthread | establish hthread =>
        obtain rfl := hsetsUp
        exact absurd hbefore (hw.establishing t _ _ (by rw [hthread])).1
    | _ => exact hsetsUp.elim
  · by_cases hlost : c ∈ o.effect.lost
    · have hleft {pc : Pc} {rest : List Work} (hthread : s.threads t = ⟨pc, .release c :: rest⟩)
          (hlost : o.effect = .drop c ∨ o.effect = .expire c) :=
        hs.owned_of_lost hw hh ht h hthread hlost
      cases h with
      | release hthread howned =>
          obtain rfl := List.mem_singleton.mp hlost
          have hwork := hs.owned_of_release ht hthread
          have halive := (hs.owned c hbefore).mp hwork.2
          refine ⟨fun _ hor => ?_, fun _ => (hleft hthread (.inl rfl)).mpr howned⟩
          rcases hor with hor | hor
          · rw [halive] at hor
            cases hor
          · cases hor
      | expire hthread hlast =>
          obtain rfl := List.mem_singleton.mp hlost
          exact ⟨fun howned => absurd ((hleft hthread (.inr rfl)).mp howned) hlast,
            fun hor => absurd (.inr (List.mem_singleton.mpr rfl)) hor⟩
      | _ => cases hlost
    · have hexpires : c ∉ o.effect.expires := by
        intro hmem
        cases heffect : o.effect with
        | expire c' =>
            rw [heffect] at hmem hlost
            exact hlost hmem
        | _ =>
            rw [heffect] at hmem
            cases hmem
      rw [hs.owned_iff hw hh ht h hbefore hlost, hs.owned c hbefore, ← Bool.not_eq_true]
      simp [hexpires]

omit hs hw hh ht in
theorem Goes.files_eq {fd : Fd} (hfile : s.files fd = some c)
    (hclose : ∀ c', o.effect = .close c' → fd ≠ (s.slots c').fd) : (s.after t o).files fd = some c := by
  change (s.apply t o.effect).files fd = _
  have hframe := (s.apply_frame t o.effect).2.2.2.2
  cases h with
  | @accept rest fd' hthread hfree =>
      have hne : fd ≠ fd' := fun heq => by
        rw [heq, hfree] at hfile
        cases hfile
      exact (Function.update_of_ne hne _ _).trans hfile
  | close => exact (Function.update_of_ne (hclose _ rfl) _ _).trans hfile
  | _ => rwa [hframe nofun nofun]

omit hw hh in
theorem Sound.open_of_close {c' : Nat} (heffect : o.effect = .close c') :
    (s.slots c').stage ≠ .construct ∧ s.files (s.slots c').fd = some c' := by
  cases h with
  | close hthread =>
      cases heffect
      have hopen := hs.open_of_work ht (c := c') (by rw [hthread]; exact List.mem_cons_self)
      exact ⟨hopen.1, hopen.2.2.2⟩
  | _ => cases heffect

/-- The destructor of a connection is still to run, or has run, once its last pointer is gone. -/
theorem Sound.after_destroyed (c : Nat) : (s.after t o).destructors c + ((s.after t o).slots c).closed
    = if ((s.after t o).slots c).expired then 1 else 0 := by
  have hdestructors := h.destructors hw hh ht (hs.findsItself hw ht h).finds c
  have hcounts := hs.counts hw ht h c
  have hbefore := hs.destroyed c
  rw [hcounts.closed]
  by_cases hexpires : c ∈ o.effect.expires
  · rw [if_pos (hcounts.expired.mpr (.inr hexpires))]
    have hexpired : (s.slots c).expired = false := by
      cases h with
      | expire hthread =>
          obtain rfl := List.mem_singleton.mp hexpires
          have hwork := hs.owned_of_release ht hthread
          exact (hs.owned c hwork.1).mp hwork.2
      | _ => cases hexpires
    have hcount : o.effect.expires.count c = 1 := by
      cases heffect : o.effect with
      | expire c' =>
          rw [heffect] at hexpires
          obtain rfl := List.mem_singleton.mp hexpires
          exact List.count_singleton_self
      | _ =>
          rw [heffect] at hexpires
          cases hexpires
    rw [hexpired, if_neg Bool.false_ne_true] at hbefore
    omega
  · have hexpired : ((s.after t o).slots c).expired = (s.slots c).expired := by
      rw [Bool.eq_iff_iff, hcounts.expired]
      simp [hexpires]
    rw [hexpired, ← hbefore]
    rw [List.count_eq_zero.mpr hexpires] at hdestructors
    omega

omit hh in
theorem Sound.after_files (hconstructed : ((s.after t o).slots c).stage ≠ .construct)
    (hclosed : ((s.after t o).slots c).closed = 0) :
    (s.after t o).files ((s.after t o).slots c).fd = some c := by
  by_cases hbefore : (s.slots c).stage = .construct
  · have hsetsUp : o.effect.SetsUp c := by
      by_contra heffect
      exact hconstructed ((stage_apply heffect).trans hbefore)
    cases h with
    | @construct c' fd rest state tied ok hthread =>
        obtain rfl := hsetsUp
        have hfd : ((s.after t (s.goOn t (.construct c' fd state tied ok) (.newConnection c' rest) [])).slots
            c').fd = fd := by
          change (Function.update s.slots _ _ _).fd = _
          rw [Function.update_self]
          rfl
        rw [hfd]
        exact hs.accepted t c' fd rest (by rw [hthread])
    | insert hthread | onConnect hthread | establish hthread =>
        obtain rfl := hsetsUp
        exact absurd hbefore (hw.establishing t _ _ (by rw [hthread])).1
    | _ => exact hsetsUp.elim
  · have hcount := (hs.counts hw ht h c).closed
    have hfile := hs.files c hbefore (by omega)
    rw [(h.fixed hw hbefore).1]
    refine h.files_eq hfile fun c' heffect hfd => ?_
    have hopen := (hs.open_of_close ht h heffect).2
    rw [← hfd, hfile] at hopen
    obtain rfl := Option.some.inj hopen
    rw [heffect] at hcount
    simp only [Effect.closes, List.count_singleton_self] at hcount
    omega

omit hh in
theorem Sound.after_accepted {t' : Nat} {fd : Fd} {rest : List Ready}
    (hpc : ((s.after t o).threads t').pc = .accepted c fd rest) : (s.after t o).files fd = some c := by
  have hkeep (hbefore : (s.threads t').pc = .accepted c fd rest) :
      (s.after t o).files fd = some c := by
    have hfile := hs.accepted t' c fd rest hbefore
    refine h.files_eq hfile fun c' heffect hfd => ?_
    have hopen := hs.open_of_close ht h heffect
    rw [hfd, hopen.2] at hfile
    obtain rfl := Option.some.inj hfile
    exact hopen.1 (hw.accepting t' _ fd rest hbefore)
  by_cases hne : t' = t
  · subst hne
    rw [threads_after_self] at hpc
    rcases h.accepting hpc with hbefore | ⟨rfl, heffect⟩
    · exact hkeep hbefore
    · change (s.apply t' o.effect).files fd = _
      rw [heffect]
      exact Function.update_self ..
  · rw [threads_after_of_ne hne] at hpc
    exact hkeep hpc

theorem Sound.after (hdel : s.Deregisters (t, move)) : (s.after t o).Sound where
  unborn _ := hs.after_unborn hw hh ht h
  closing := hs.after_closing hw h
  closes := hs.after_closes hw hh ht h
  erased := hs.after_erased hw hh ht h
  map fd _ := hs.after_map hw hh ht h fd _
  ongoing _ := hs.after_ongoing hw ht h
  registered _ _ _ _ := hs.after_registered hw hh ht h hdel
  ready _ _ _ _ := hs.after_ready hw hh ht h
  handling _ _ _ _ := hs.after_handling hw hh ht h
  held _ := hs.after_held hw hh ht h
  owned _ := hs.after_owned hw hh ht h
  destroyed := hs.after_destroyed hw hh ht h
  files _ := hs.after_files hw ht h
  accepted _ _ _ _ := hs.after_accepted hw ht h

end Step

/-- In every run in which `epoll_ctl` removes what is registered. -/
theorem sound_of_reachable {ok : Server → Nat × Move → Prop}
    (hok : ∀ s action, ok s action → s.Deregisters action)
    (hs : Machine.Reachable Server.step ok Fresh s) : s.Wired ∧ s.Homed ∧ s.Sound := by
  induction hs with
  | init h => exact ⟨h.wired, h.homed, h.sound⟩
  | step hs hstepok hstep ih =>
      obtain ⟨hw, hh, hsound⟩ := ih
      obtain ⟨ht, o, hgoes, rfl⟩ := step_cases hstep
      exact ⟨hw.after hgoes, hh.after hw hgoes, hsound.after hw hh ht hgoes (hok _ _ hstepok)⟩

end Server

end EpollServer
