import EpollServer.Proof.Ledger

/-!
# The end of a connection

A connection leaves the server in stages that two threads hand to each other: its close callback binds a
`HandleCloseInLoop`, which erases it from `connectionsMap` and binds a `ConnectionDestructor`, which
deregisters its channel; the descriptor is closed when the last pointer goes. `Server.Sound` keeps the books
of these stages. Its main consequence is `Sound.alive`: as long as a connection is not deregistered,
something owns it, so that its descriptor denotes its own socket.
-/

namespace EpollServer

theorem Slot.Change.closing {n : Nat} {slot slot' : Slot} (h : slot.Change n slot')
    (hearly : slot.stage.index ≤ Stage.enableRead.index → slot.Early)
    (hclosing : slot.session.Closing) : slot'.session.Closing := by
  cases h with
  | construct => exact Nat.zero_le _
  | establish =>
      unfold Slot.establish
      cases hstage : slot.stage with
      | setConnected =>
          have hearly := hearly (by rw [hstage]; decide)
          simp [Session.Closing, Slot.goOn, hearly.history, hearly.stack, History.new]
      | _ => exact hclosing
  | session hstep => exact hclosing.step hstep
  | finish => exact hclosing

namespace Server

variable {s s' : Server} {t c : Nat} {move : Move} {o : Outcome}

/-- A connection that was inserted into `connectionsMap` and not erased. -/
structure Listed (s : Server) (fd : Fd) (c : Nat) : Prop where
  fd_eq : (s.slots c).fd = fd
  inserted : Stage.setConnected.index ≤ (s.slots c).stage.index
  erased : (s.slots c).erased = 0

/-- The books of all connections. -/
structure Sound (s : Server) : Prop where
  unborn : ∀ c, (s.slots c).stage = .construct → (s.slots c).Unborn
  closing : ∀ c, (s.slots c).session.Closing
  closes : ∀ c, (s.slots c).session.history.closes
    = s.tokens (.handleCloseInLoop c) + (s.slots c).erased
  erased : ∀ c, (s.slots c).erased
    = s.tokens (.connectionDestructor c) + (s.slots c).unregistered
  map : ∀ fd c, s.connectionsMap fd = some c ↔ s.Listed fd c
  ongoing : ∀ c, (s.slots c).stage ≠ .construct → (s.slots c).stage ≠ .done →
    ∃ rest, (s.threads 0).pc = .newConnection c rest
  registered : ∀ l fd c registered, s.epoll l fd = some (c, registered) → (s.slots c).unregistered = 0
  ready : ∀ t fd c events, .conn fd c events ∈ (s.threads t).pc.ready → (s.slots c).unregistered = 0
  handling : ∀ t c guard rest, (s.threads t).pc = .handleEvent c guard rest →
    (s.slots c).unregistered = 0
  held : ∀ c, 0 < s.pointers c → (s.slots c).stage ≠ .construct
  owned : ∀ c, (s.slots c).stage ≠ .construct → (s.Owned c ↔ (s.slots c).expired = false)
  destroyed : ∀ c, s.destructors c + (s.slots c).closed = if (s.slots c).expired then 1 else 0
  files : ∀ c, (s.slots c).stage ≠ .construct → (s.slots c).closed = 0 →
    s.files (s.slots c).fd = some c
  accepted : ∀ t c fd rest, (s.threads t).pc = .accepted c fd rest → s.files fd = some c

section Derived

variable (hs : s.Sound)
include hs

theorem Sound.closes_le (c : Nat) : (s.slots c).session.history.closes ≤ 1 := by
  have hclosing := hs.closing c
  unfold Session.Closing at hclosing
  split at hclosing <;> omega

/-- A connection is closed once, erased once and deregistered once, in this order. -/
theorem Sound.chain (c : Nat) : (s.slots c).unregistered ≤ (s.slots c).erased ∧
    (s.slots c).erased ≤ (s.slots c).session.history.closes ∧
      (s.slots c).session.history.closes ≤ 1 := by
  have hcloses := hs.closes c
  have herased := hs.erased c
  have hle := hs.closes_le c
  omega

theorem Sound.early (hw : s.Wired) (hstage : (s.slots c).stage.index ≤ Stage.enableRead.index) :
    (s.slots c).session.history.closes = 0 ∧ (s.slots c).erased = 0 ∧
      (s.slots c).unregistered = 0 := by
  have hcloses : (s.slots c).session.history.closes = 0 := by
    rw [(hw.early c hstage).history]
    rfl
  have hchain := hs.chain c
  omega

omit hs in
theorem tokens_pos {cb : Task} (h : 0 < s.tokens cb) : ∃ i ≤ s.threadNums,
    cb ∈ (s.loops i).toDoList ∨ cb ∈ (s.threads i).pc.pending ∨
      ∃ item ∈ (s.threads i).work, item.carries cb = true := by
  obtain ⟨i, hi, hpos | hpos⟩ := tally_pos_iff.mp h <;> refine ⟨i, hi, ?_⟩
  · exact .inl (List.count_pos_iff.mp hpos)
  · rcases Nat.add_pos_iff_pos_or_pos.mp hpos with hpos | hpos
    · exact .inr (.inr (List.countP_pos_iff.mp hpos))
    · exact .inr (.inl (List.count_pos_iff.mp hpos))

omit hs in
theorem tokens_of_work {i : Nat} {cb : Task} {item : Work} (hi : i ≤ s.threadNums)
    (hitem : item ∈ (s.threads i).work) (hcarries : item.carries cb = true) : 0 < s.tokens cb :=
  tally_pos_iff.mpr ⟨i, hi,
    .inr (Nat.add_pos_left (List.countP_pos_iff.mpr ⟨item, hitem, hcarries⟩) _)⟩

omit hs in
theorem pointers_pos {i : Nat} (hi : i ≤ s.threadNums)
    (h : 0 < (s.loops i).owns c ∨ 0 < (s.threads i).owns c) : 0 < s.pointers c :=
  tally_pos_iff.mpr ⟨i, hi, h⟩

omit hs in
theorem owns_of_work {thread : Thread} {item : Work} (hitem : item ∈ thread.work)
    (howns : item.owns c = true) : 0 < thread.owns c :=
  Nat.add_pos_left (List.countP_pos_iff.mpr ⟨item, hitem, howns⟩) _

omit hs in
theorem owns_of_pc {thread : Thread} (h : 0 < thread.pc.owns c) : 0 < thread.owns c :=
  Nat.add_pos_right _ h

omit hs in
theorem owns_of_tasks {thread : Thread} (cb : Task) (hcb : cb ∈ thread.pc.tasks) :
    0 < thread.owns cb.conn := by
  apply owns_of_pc
  have hcount : 0 < thread.pc.tasks.countP (·.conn == cb.conn) :=
    List.countP_pos_iff.mpr ⟨cb, hcb, beq_self_eq_true _⟩
  cases hpc : thread.pc with
  | funcs called rest =>
      rw [hpc, Pc.tasks, List.countP_append] at hcount
      exact hcount
  | _ =>
      rw [hpc] at hcb
      cases hcb

omit hs in
/-- Whoever still has to deregister a connection holds a pointer to it. -/
theorem Homed.pointers_of_token (hh : s.Homed) (h : 0 < s.tokens (.connectionDestructor c)) :
    0 < s.pointers c := by
  obtain ⟨i, hi, hcb | hcb | ⟨item, hitem, hcarries⟩⟩ := tokens_pos h
  · exact pointers_pos hi (.inl (List.countP_pos_iff.mpr ⟨_, hcb, beq_self_eq_true _⟩))
  · refine pointers_pos hi (.inr (owns_of_tasks (.connectionDestructor c) ?_))
    cases hpc : (s.threads i).pc with
    | funcs called rest =>
        rw [hpc] at hcb
        exact List.mem_append_right called hcb
    | _ =>
        rw [hpc] at hcb
        cases hcb
  · refine pointers_pos hi (.inr ?_)
    cases item with
    | runOneFunc l cb | queueOneFunc l cb =>
        obtain rfl : cb = _ := by simpa [Work.carries] using hcarries
        exact owns_of_work hitem (beq_self_eq_true _)
    | func l cb =>
        obtain rfl : cb = _ := by simpa [Work.carries] using hcarries
        have hcalled := ((hh.work i _ hitem).2.resolve_left (by simp)).2
        apply owns_of_tasks (.connectionDestructor c)
        cases hpc : (s.threads i).pc with
        | funcs called rest =>
            rw [hpc] at hcalled
            exact List.mem_append_left rest hcalled
        | _ =>
            rw [hpc] at hcalled
            cases hcalled
    | wakeup | release | destructor => cases hcarries

/-- **A connection that is not deregistered is owned**, by `connectionsMap`, by `HandleNewConnection` or by
the function that is going to deregister it. -/
theorem Sound.alive (hh : s.Homed) (hconstructed : (s.slots c).stage ≠ .construct)
    (hregistered : (s.slots c).unregistered = 0) : s.Owned c := by
  by_cases herased : (s.slots c).erased = 0
  · by_cases hstage : Stage.setConnected.index ≤ (s.slots c).stage.index
    · exact .inl ((hs.map _ c).mpr ⟨rfl, hstage, herased⟩)
    · have hdone : (s.slots c).stage ≠ .done := fun h => hstage (by rw [h]; decide)
      obtain ⟨rest, hpc⟩ := hs.ongoing c hconstructed hdone
      refine .inr (pointers_pos (Nat.zero_le _) (.inr (owns_of_pc ?_)))
      rw [hpc]
      simp [Pc.owns]
  · refine .inr (hh.pointers_of_token ?_)
    have := hs.erased c
    omega

theorem Sound.present (hh : s.Homed) (hconstructed : (s.slots c).stage ≠ .construct)
    (hregistered : (s.slots c).unregistered = 0) :
    (s.slots c).expired = false ∧ (s.slots c).closed = 0 ∧ s.files (s.slots c).fd = some c := by
  have hexpired := (hs.owned c hconstructed).mp (hs.alive hh hconstructed hregistered)
  have hdestroyed := hs.destroyed c
  rw [hexpired] at hdestroyed
  have hclosed : (s.slots c).closed = 0 := by simp at hdestroyed; omega
  exact ⟨hexpired, hclosed, hs.files c hconstructed hclosed⟩

theorem Sound.fd_injective (hh : s.Homed) {c' : Nat} (hc : (s.slots c).stage ≠ .construct)
    (hc' : (s.slots c').stage ≠ .construct) (hregistered : (s.slots c).unregistered = 0)
    (hregistered' : (s.slots c').unregistered = 0) (hfd : (s.slots c).fd = (s.slots c').fd) :
    c = c' := by
  have hfile := (hs.present hh hc hregistered).2.2
  rw [hfd, (hs.present hh hc' hregistered').2.2] at hfile
  exact (Option.some.inj hfile).symm

end Derived

end Server

end EpollServer
