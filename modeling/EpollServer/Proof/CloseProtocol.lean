import EpollServer.Proof.TeardownStep

/-!
# The close protocol

What `Server.Sound` says about the end of a connection, whatever the callbacks call, the reads and writes
return and the order of the threads is.
-/

namespace EpollServer

namespace Server

variable {s : Server} {t c : Nat} {move : Move} {o : Outcome}

/-- `IsInLoopThread` is true exactly on the loop's own thread. -/
def ExactTid (s : Server) : Prop :=
  ∀ t ≤ s.threadNums, ∀ l ≤ s.threadNums, (s.loops l).isInLoopThread (s.tid t) = true ↔ t = l

theorem exactTid_start (threadNums : Nat) : (start threadNums id id).ExactTid := by
  intro t _ l _
  simp [start, EventLoop.isInLoopThread, EventLoop.new]

/-- The runs in which `epoll_ctl` succeeds. -/
def Registers (_ : Server) (action : Nat × Move) : Prop := action.2.CtlSucceeds

instance (s : Server) (action : Nat × Move) : Decidable (s.Registers action) := by
  unfold Registers
  infer_instance

/-- How connection `c` is closed. -/
structure CloseProtocol (s : Server) (c : Nat) : Prop where
  /-- The close callback is called at most once. -/
  closes : (s.slots c).session.history.closes ≤ 1
  /-- `HandleCloseInLoop` finds this very connection. -/
  found : ∀ t ≤ s.threadNums, ∀ pc l rest,
    s.threads t = ⟨pc, .func l (.handleCloseInLoop c) :: rest⟩ →
      s.connectionsMap (s.slots c).fd = some c
  /-- The assignment in `HandleNewConnection` replaces no entry. -/
  inserted : ∀ t rest, s.threads t = ⟨.newConnection c rest, []⟩ → (s.slots c).stage = .insert →
    s.connectionsMap (s.slots c).fd = none
  /-- `ConnectionDestructor` runs at most once, and the erasure comes before it. -/
  ordered : (s.slots c).unregistered ≤ (s.slots c).erased ∧
    (s.slots c).erased ≤ (s.slots c).session.history.closes
  /-- It runs on the thread of the connection's loop. -/
  deregistered : ∀ t ≤ s.threadNums, ∀ pc l rest,
    s.threads t = ⟨pc, .func l (.connectionDestructor c) :: rest⟩ →
      t = l ∧ l = (s.slots c).eventLoop ∧ (s.slots c).erased = 1 ∧ (s.slots c).unregistered = 0
  /-- The descriptor is closed once, and exactly if no pointer is left. -/
  closed : (s.slots c).stage ≠ .construct →
    s.destructors c + (s.slots c).closed = if s.Owned c then 0 else 1
  /-- By then `ConnectionDestructor` has run. -/
  unowned : (s.slots c).stage ≠ .construct → ¬s.Owned c → (s.slots c).unregistered = 1
  /-- Who gives up the last pointer goes on with closing the descriptor, which is still the connection's. -/
  closing : ∀ t ≤ s.threadNums, .destructor c ∈ (s.threads t).work →
    (s.threads t).work.head? = some (.destructor c) ∧ s.files (s.slots c).fd = some c

/-- A destructor is next to run as soon as it is to be run. -/
theorem Goes.destructor_tail (h : Goes s t move o) (hs : .destructor c ∉ (s.threads t).work.tail) :
    .destructor c ∉ o.thread.work.tail := by
  cases h with
  | handleRead => exact List.not_mem_nil
  | insert =>
      intro hmem
      obtain ⟨e, -, heq⟩ := List.mem_map.mp (List.mem_of_mem_tail hmem)
      cases heq
  | run =>
      simp only [goOn]
      split <;> simp
  | handled =>
      simp only [goOn]
      split <;> simp
  | emplaceBack hthread | wakeup hthread | unregister hthread | release hthread | close hthread
  | runInline hthread | runQueued hthread | erase hthread | expire hthread =>
      rw [hthread] at hs
      first
        | simpa [goOn] using hs
        | exact fun hmem => hs (List.mem_of_mem_tail hmem)
  | _ => exact List.not_mem_nil

theorem destructor_tail_of_reachable {ok : Server → Nat × Move → Prop}
    (hs : Machine.Reachable Server.step ok Fresh s) (t c : Nat) :
    .destructor c ∉ (s.threads t).work.tail := by
  induction hs with
  | init h =>
      rw [h.threads]
      exact List.not_mem_nil
  | @step s s' action hs hok hstep ih =>
      obtain ⟨-, o, hgoes, rfl⟩ := step_cases hstep
      by_cases hne : t = action.1
      · subst hne
        rw [threads_after_self]
        exact hgoes.destructor_tail ih
      · rwa [threads_after_of_ne hne]

theorem Sound.not_inserted (hs : s.Sound) (hh : s.Homed) (hstage : (s.slots c).stage = .insert)
    (hearly : (s.slots c).unregistered = 0) : s.connectionsMap (s.slots c).fd = none := by
  refine Option.eq_none_iff_forall_ne_some.mpr fun c' hmap => ?_
  have hlisted := (hs.map _ c').mp hmap
  have hinserted := hlisted.inserted
  have hchain := (hs.chain c').1
  have hconstructed : (s.slots c').stage ≠ .construct := fun h => by
    rw [h] at hinserted
    cases hinserted
  rw [hlisted.erased] at hchain
  obtain rfl := hs.fd_injective hh hconstructed (by rw [hstage]; nofun) (Nat.le_zero.mp hchain) hearly
    hlisted.fd_eq
  rw [hstage] at hinserted
  exact absurd hinserted (by decide)

/-- **The close protocol holds in every run**, with or without sub reactors, if `IsInLoopThread` is exact
and `epoll_ctl` succeeds. -/
theorem closeProtocol
    (hs : Machine.Reachable Server.step Registers (fun s => s.Fresh ∧ s.ExactTid) s) (c : Nat) :
    s.CloseProtocol c := by
  have hfresh : Machine.Reachable Server.step Registers Fresh s := hs.mono (fun _ => And.left) fun _ _ => id
  obtain ⟨hw, hh, hsound⟩ := sound_of_reachable (fun _ _ => deregisters_of_ctlSucceeds) hfresh
  obtain ⟨hunregistered, herased, hcloses⟩ := hsound.chain c
  constructor
  case closes => exact hcloses
  case found => exact fun t ht pc l rest hthread => hsound.found hw ht hthread
  case inserted =>
    intro t rest hthread hstage
    exact hsound.not_inserted hh hstage (hsound.early hw (by rw [hstage]; decide)).2.2
  case ordered => exact ⟨hunregistered, herased⟩
  case deregistered =>
    intro t ht pc l rest hthread
    have hmem : .func l (.connectionDestructor c) ∈ (s.threads t).work := by
      rw [hthread]
      exact List.mem_cons_self
    obtain ⟨hdestined, hcalled⟩ := hh.work t _ hmem
    have hl := (hcalled.resolve_left nofun).1
    have htoken := tokens_of_work ht hmem (beq_self_eq_true _)
    have hbooks := hsound.erased c
    exact ⟨hl.symm, hdestined.home.symm, by omega, by omega⟩
  case closed =>
    intro hconstructed
    have howned := hsound.owned c hconstructed
    rw [hsound.destroyed c]
    by_cases h : s.Owned c
    · rw [if_pos h, howned.mp h, if_neg Bool.false_ne_true]
    · rw [if_neg h, if_pos (Bool.not_eq_false _ ▸ mt howned.mpr h)]
  case unowned =>
    intro hconstructed howned
    have hne : (s.slots c).unregistered ≠ 0 := fun h => howned (hsound.alive hh hconstructed h)
    omega
  case closing =>
    intro t ht hmem
    refine ⟨?_, (hsound.open_of_work ht hmem).2.2.2⟩
    have htail := destructor_tail_of_reachable hfresh t c
    cases hwork : (s.threads t).work with
    | nil =>
        rw [hwork] at hmem
        cases hmem
    | cons item rest =>
        rw [hwork] at hmem htail
        rw [(List.mem_cons.mp hmem).resolve_right htail]
        rfl

/-- A connection of a sub reactor ends, and the next one gets its descriptor. -/
def reuse : List (Nat × Move) :=
  [(0, .epollWait [.accept]), (0, .accept (some 7)), (0, .construct .invalid false true),
    (0, .next true), (0, .next true), (0, .next true), (0, .next true), (0, .next true),
    (0, .next true), (0, .next true),
    (1, .epollWait [.conn 7 0 { EpollEvents.none with epollin := true }]), (1, .next true),
    (1, .run .tau), (1, .run (.read 8 (.data []))), (1, .run .tau), (1, .run .onClose),
    (1, .next true), (1, .next true), (0, .next true), (0, .next true), (0, .next true),
    (0, .next true), (0, .next true), (0, .next true), (0, .next true), (0, .next true),
    (0, .next true), (0, .next true), (0, .next true), (1, .next true), (1, .next true),
    (1, .next true), (1, .run .tau), (1, .next true), (1, .next true), (1, .next true),
    (1, .next true), (1, .next true), (1, .next true), (1, .next true), (1, .next true),
    (1, .next true), (1, .next true), (0, .epollWait [.wakeup, .accept]), (0, .next true),
    (0, .accept (some 7)), (0, .construct .invalid false true), (0, .next true)]

theorem closeProtocol_reuse : ∃ s : Server,
    Machine.Reachable Server.step Registers (fun s => s.Fresh ∧ s.ExactTid) s ∧
      (s.CloseProtocol 0 ∧ s.CloseProtocol 1) ∧ (s.slots 0).closed = 1 ∧
        (s.slots 1).fd = (s.slots 0).fd ∧ s.files 7 = some 1 := by
  have hinit : Machine.Reachable Server.step Registers (fun s => s.Fresh ∧ s.ExactTid) (start 1 id id) :=
    .init ⟨fresh_start 1 id id, exactTid_start 1⟩
  have hreuse : (Machine.run Server.step Registers (start 1 id id) reuse).map (fun s =>
      ((s.slots 0).closed, (s.slots 1).fd, (s.slots 0).fd, s.files 7)) = some (1, 7, 7, some 1) := by
    decide +kernel
  obtain ⟨s, hrun, hend⟩ := Option.map_eq_some_iff.mp hreuse
  simp only [Prod.mk.injEq] at hend
  have hs := hinit.run hrun
  exact ⟨s, hs, ⟨closeProtocol hs 0, closeProtocol hs 1⟩, hend.1, hend.2.1.trans hend.2.2.1.symm,
    hend.2.2.2⟩

end Server

end EpollServer
