import EpollServer.Proof.Startup
import EpollServer.Proof.Wired

/-!
# The connections are spread evenly

The main reactor constructs one connection after the other, in the order in which `accept4` returned them, and
each construction takes one turn of the thread pool.
-/

namespace EpollServer

/-- The number that the server's model gives to a loop. -/
def LoopPtr.index : LoopPtr → Nat
  | .mainReactor | .loop1 _ => 0
  | .loop i => i + 1

namespace Server

variable {s s' : Server} {t c : Nat} {move : Move} {o : Outcome}

/-- The loop that the `c`-th connection gets. -/
def turn (s : Server) (c : Nat) : Nat := (Startup.turn s.threadNums c).index

theorem turn_eq (s : Server) (c : Nat) :
    s.turn c = if s.threadNums = 0 then 0 else c % s.threadNums + 1 := by
  unfold turn Startup.turn
  split <;> rfl

/-- **The thread pool that has started up and the one of the server's model agree** on the loop of the next
connection and on the turn after it. -/
theorem nextEventLoop_pool {n : Int} {p : Startup} (hp : p.Sound n) (hpc : p.pc = .running)
    (hnums : s.threadNums = n.toNat) (hnext : 0 < n.toNat → s.next = p.pool.next) :
    ∃ loop pool, p.pool.nextEventLoop = some (some loop, pool) ∧ loop.index = s.nextEventLoop.1 ∧
      (0 < n.toNat → pool.next = s.nextEventLoop.2) := by
  refine ⟨_, _, hp.nextEventLoop hpc, ?_, ?_⟩
  · unfold nextEventLoop Startup.turn
    rw [hnums]
    split
    · rfl
    · have hpos := Nat.pos_of_ne_zero ‹_›
      rw [hnext hpos, hp.next hpos]
      rfl
  · intro hpos
    have hcounted := hp.counted
    rw [Startup.Counted, hpc] at hcounted
    have hzero : n.toNat ≠ 0 := Nat.ne_of_gt hpos
    simp only [nextEventLoop, hnums, if_neg hzero, hnext hpos, hcounted.1, RoundRobin.next]

/-- The number of connections that were constructed. -/
def constructed (s : Server) : Nat :=
  match (s.threads 0).pc with
  | .accepted c _ _ => c
  | _ => s.accepted

/-- The connections are constructed one after the other and get the loops in turn. -/
structure InTurn (s : Server) : Prop where
  pending : ∀ c fd rest, (s.threads 0).pc = .accepted c fd rest →
    s.accepted = c + 1 ∧ (s.threads 0).work = []
  constructed : ∀ c, c < s.constructed ↔ (s.slots c).stage ≠ .construct
  next : 0 < s.threadNums → s.next = s.constructed % s.threadNums
  loop : ∀ c, (s.slots c).stage ≠ .construct → (s.slots c).eventLoop = s.turn c

theorem Fresh.inTurn (hs : s.Fresh) : s.InTurn where
  pending c fd rest h := by
    rw [hs.threads] at h
    cases h
  constructed c := by
    rw [Server.constructed, hs.threads, hs.slots]
    simp [hs.accepted, Slot.empty]
  next _ := by
    rw [Server.constructed, hs.threads, hs.next]
    simp [hs.accepted]
  loop c h := by
    rw [hs.slots] at h
    exact absurd rfl h

theorem Goes.turns (h : Goes s t move o) :
    (∃ fd rest, s.threads t = ⟨.batch (.accept :: rest), []⟩ ∧ o.effect = .accept fd ∧
        o.thread = ⟨.accepted s.accepted fd rest, []⟩) ∨
      (∃ c fd rest state tied ok, s.threads t = ⟨.accepted c fd rest, []⟩ ∧
        o.effect = .construct c fd state tied ok ∧ o.thread = ⟨.newConnection c rest, []⟩) ∨
      (∀ fd, o.effect ≠ .accept fd) ∧ (∀ c fd state tied ok, o.effect ≠ .construct c fd state tied ok) ∧
        (∀ c fd rest, s.threads t ≠ ⟨.accepted c fd rest, []⟩) ∧
          ∀ c fd rest, o.thread.pc = .accepted c fd rest → (s.threads t).pc = .accepted c fd rest := by
  cases h with
  | accept hthread => exact .inl ⟨_, _, hthread, rfl, rfl⟩
  | construct hthread => exact .inr (.inl ⟨_, _, _, _, _, _, hthread, rfl, rfl⟩)
  | handleRead hthread =>
      refine .inr (.inr ⟨nofun, nofun, fun c fd rest => by rw [hthread]; nofun, fun c fd rest hpc => ?_⟩)
      dsimp only at hpc
      split at hpc <;> cases hpc
  | _ hthread =>
      refine .inr (.inr ⟨nofun, nofun, fun c fd rest => by rw [hthread]; nofun, fun c fd rest hpc => ?_⟩)
      rw [hthread]
      first
        | exact hpc
        | cases hpc

theorem constructed_of_accepted {fd : Fd} {rest : List Ready} (h : (s.threads 0).pc = .accepted c fd rest) :
    s.constructed = c := by
  rw [constructed, h]

theorem constructed_of_not_accepted (h : ∀ c fd rest, (s.threads 0).pc ≠ .accepted c fd rest) :
    s.constructed = s.accepted := by
  unfold constructed
  split
  · exact absurd ‹_› (h _ _ _)
  · rfl

theorem stage_construct_after {fd : Fd} {state : ConnectionState} {tied ok : Bool}
    (h : o.effect = .construct c fd state tied ok) : ((s.after t o).slots c).stage = .setCallbacks := by
  have hslot : (s.construct c fd state tied ok).slots c = .new (.new s.nextEventLoop.1 fd state tied ok) :=
    Function.update_self ..
  change ((s.apply t o.effect).slots c).stage = _
  rw [h, apply, hslot]
  rfl

theorem stage_establish_after {ok : Bool} (h : o.effect = .establish c ok) :
    ((s.after t o).slots c).stage = ((s.slots c).establish ok).stage := by
  change ((s.apply t o.effect).slots c).stage = _
  rw [h, apply, slots_newConnection, Function.update_self]

theorem Goes.establishing (h : Goes s t move o) (hw : s.Wired) {ok : Bool} (heffect : o.effect = .establish c ok) :
    (s.slots c).stage ≠ .construct ∧ (s.slots c).stage ≠ .done := by
  cases h with
  | insert hthread | onConnect hthread | establish hthread =>
      cases heffect
      exact hw.establishing t _ _ (by rw [hthread])
  | _ => cases heffect

theorem Goes.stage_construct (h : Goes s t move o) (hw : s.Wired)
    (heffect : ∀ fd state tied ok, o.effect ≠ .construct c fd state tied ok) :
    ((s.after t o).slots c).stage ≠ .construct ↔ (s.slots c).stage ≠ .construct := by
  by_cases hsetsUp : o.effect.SetsUp c
  · cases heq : o.effect with
    | construct c' fd state tied ok =>
        rw [heq] at hsetsUp
        obtain rfl : c' = c := hsetsUp
        exact absurd heq (heffect fd state tied ok)
    | establish c' ok =>
        rw [heq] at hsetsUp
        obtain rfl : c' = c := hsetsUp
        have hconstructed := (h.establishing hw heq).1
        exact iff_of_true (h.constructed hw hconstructed) hconstructed
    | _ =>
        rw [heq] at hsetsUp
        exact hsetsUp.elim
  · rw [show ((s.after t o).slots c).stage = (s.slots c).stage from stage_apply hsetsUp]

section Step

variable (hs : s.InTurn) (hw : s.Wired) (h : Goes s t move o)
include hs hw h

theorem InTurn.loop_after (hconstruct : ∀ fd state tied ok, o.effect ≠ .construct c fd state tied ok)
    (hc : ((s.after t o).slots c).stage ≠ .construct) :
    ((s.after t o).slots c).eventLoop = (s.after t o).turn c := by
  have hold := (h.stage_construct hw hconstruct).mp hc
  rw [(h.fixed hw hold).2, hs.loop c hold, turn, turn, threadNums_after]

theorem InTurn.accept {fd : Fd} {rest : List Ready} (hbatch : s.threads t = ⟨.batch (.accept :: rest), []⟩)
    (heffect : o.effect = .accept fd) (hthread : o.thread = ⟨.accepted s.accepted fd rest, []⟩) :
    (s.after t o).InTurn := by
  obtain rfl : t = 0 := hw.ready t .accept (by rw [hbatch]; exact List.mem_cons_self)
  have hconstruct : ∀ c fd state tied ok, o.effect ≠ .construct c fd state tied ok := by simp [heffect]
  have hthread' : (s.after 0 o).threads 0 = ⟨.accepted s.accepted fd rest, []⟩ :=
    threads_after_self.trans hthread
  have haccepted : (s.after 0 o).accepted = s.accepted + 1 := by
    rw [after, heffect]
    rfl
  have hsame : (s.after 0 o).constructed = s.constructed := by
    rw [constructed_of_accepted (by rw [hthread']), constructed_of_not_accepted (by simp [hbatch])]
  constructor
  case pending =>
    intro c fd' rest' hpc
    rw [hthread'] at hpc ⊢
    cases hpc
    exact ⟨haccepted, rfl⟩
  case constructed =>
    intro c
    rw [hsame, h.stage_construct hw (hconstruct c), hs.constructed]
  case next =>
    intro hn
    rw [threadNums_after] at hn
    have hnext : (s.after 0 o).next = s.next := (s.apply_frame 0 o.effect).2.2.1 hconstruct
    rw [hnext, hsame, threadNums_after, hs.next hn]
  case loop => exact fun c => hs.loop_after hw h (hconstruct c)

theorem InTurn.construct {fd : Fd} {rest : List Ready} {state : ConnectionState} {tied ok : Bool}
    (hpc : s.threads t = ⟨.accepted c fd rest, []⟩)
    (heffect : o.effect = .construct c fd state tied ok) (hthread : o.thread = ⟨.newConnection c rest, []⟩) :
    (s.after t o).InTurn := by
  obtain rfl : t = 0 := (hw.setsUp t c (by rw [hpc]; rfl)).1
  have hcount : s.constructed = c := constructed_of_accepted (by rw [hpc])
  obtain ⟨haccepted, -⟩ := hs.pending c fd rest (by rw [hpc])
  have hthread' : (s.after 0 o).threads 0 = ⟨.newConnection c rest, []⟩ := threads_after_self.trans hthread
  have hsame : (s.after 0 o).accepted = s.accepted := (s.apply_frame 0 o.effect).2.2.2.1 (by simp [heffect])
  have hcount' : (s.after 0 o).constructed = c + 1 := by
    rw [constructed_of_not_accepted (by simp [hthread']), hsame, haccepted]
  have hslot : (s.after 0 o).slots c = .new (.new s.nextEventLoop.1 fd state tied ok) := by
    rw [after, heffect]
    exact Function.update_self ..
  have hnext : (s.after 0 o).next = s.nextEventLoop.2 := by
    rw [after, heffect]
    rfl
  constructor
  case pending =>
    intro c' fd' rest' hpc'
    rw [hthread'] at hpc'
    cases hpc'
  case constructed =>
    intro c'
    rw [hcount']
    by_cases hc : c' = c
    · subst hc
      rw [hslot]
      exact iff_of_true (Nat.lt_succ_self _) (by simp [Slot.new])
    · have hother : ∀ fd state tied ok, o.effect ≠ .construct c' fd state tied ok := by
        intro _ _ _ _ heq
        rw [heffect] at heq
        cases heq
        exact hc rfl
      rw [h.stage_construct hw hother, ← hs.constructed, hcount]
      omega
  case next =>
    intro hn
    rw [threadNums_after] at hn ⊢
    rw [hnext, hcount', ← RoundRobin.next_mod hn, ← hcount, ← hs.next hn, nextEventLoop,
      if_neg (Nat.ne_of_gt hn)]
    rfl
  case loop =>
    intro c' hc'
    by_cases hc : c' = c
    · subst hc
      rw [hslot, turn_eq, threadNums_after]
      change s.nextEventLoop.1 = _
      unfold nextEventLoop
      split
      · rfl
      · have hpos := Nat.pos_of_ne_zero ‹_›
        rw [hs.next hpos, hcount]
    · refine hs.loop_after hw h (fun _ _ _ _ heq => ?_) hc'
      rw [heffect] at heq
      cases heq
      exact hc rfl

omit hw h in
/-- A step of another kind leaves the thread alone that is about to construct a connection. -/
theorem InTurn.threads_eq {fd : Fd} {rest : List Ready}
    (hbefore : ∀ c fd rest, s.threads t ≠ ⟨.accepted c fd rest, []⟩)
    (hpc : (s.threads 0).pc = .accepted c fd rest) : (s.after t o).threads 0 = s.threads 0 := by
  refine threads_after_of_ne fun ht => hbefore c fd rest ?_
  rw [← ht, ← hpc, ← (hs.pending c fd rest hpc).2]

theorem InTurn.keep (haccept : ∀ fd, o.effect ≠ .accept fd)
    (hconstruct : ∀ c fd state tied ok, o.effect ≠ .construct c fd state tied ok)
    (hbefore : ∀ c fd rest, s.threads t ≠ ⟨.accepted c fd rest, []⟩)
    (hafter : ∀ c fd rest, o.thread.pc = .accepted c fd rest → (s.threads t).pc = .accepted c fd rest) :
    (s.after t o).InTurn := by
  have haccepted : (s.after t o).accepted = s.accepted := (s.apply_frame t o.effect).2.2.2.1 haccept
  have hnext : (s.after t o).next = s.next := (s.apply_frame t o.effect).2.2.1 hconstruct
  -- a thread other than the one that goes on is where it was, and that one constructs nothing
  have hpc : ∀ c fd rest, ((s.after t o).threads 0).pc = .accepted c fd rest →
      (s.after t o).threads 0 = s.threads 0 := by
    intro c fd rest hpc
    by_cases ht : t = 0
    · subst ht
      rw [threads_after_self] at hpc
      have hold := hafter c fd rest hpc
      refine absurd ?_ (hbefore c fd rest)
      rw [← hold, ← (hs.pending c fd rest hold).2]
    · exact threads_after_of_ne (Ne.symm ht)
  have hsame : (s.after t o).constructed = s.constructed := by
    by_cases hold : ∃ c fd rest, (s.threads 0).pc = .accepted c fd rest
    · obtain ⟨c, fd, rest, hold⟩ := hold
      have hpc' := (congrArg Thread.pc (hs.threads_eq (o := o) hbefore hold)).trans hold
      rw [constructed_of_accepted hold, constructed_of_accepted hpc']
    · have hnot : ∀ c fd rest, (s.threads 0).pc ≠ .accepted c fd rest := fun c fd rest hold' =>
        hold ⟨c, fd, rest, hold'⟩
      rw [constructed_of_not_accepted hnot, constructed_of_not_accepted, haccepted]
      intro c fd rest hpc'
      rw [hpc c fd rest hpc'] at hpc'
      exact hnot c fd rest hpc'
  constructor
  case pending =>
    intro c fd rest hpc'
    rw [hpc c fd rest hpc', haccepted]
    rw [hpc c fd rest hpc'] at hpc'
    exact hs.pending c fd rest hpc'
  case constructed =>
    intro c
    rw [hsame, h.stage_construct hw (hconstruct c), hs.constructed]
  case next =>
    intro hn
    rw [threadNums_after] at hn
    rw [hnext, hsame, threadNums_after, hs.next hn]
  case loop => exact fun c => hs.loop_after hw h (hconstruct c)

theorem InTurn.after : (s.after t o).InTurn := by
  rcases h.turns with ⟨fd, rest, hbatch, heffect, hthread⟩ |
    ⟨c, fd, rest, state, tied, ok, hpc, heffect, hthread⟩ | ⟨haccept, hconstruct, hbefore, hafter⟩
  · exact hs.accept hw h hbatch heffect hthread
  · exact hs.construct hw h hpc heffect hthread
  · exact hs.keep hw h haccept hconstruct hbefore hafter

end Step

theorem inTurn_of_reachable {ok : Server → Nat × Move → Prop}
    (hs : Machine.Reachable Server.step ok Fresh s) : s.InTurn := by
  refine hs.invariant (fun _ hs => hs.inTurn) fun s action s' hs hinv _ hstep => ?_
  obtain ⟨-, o, hgoes, rfl⟩ := step_cases hstep
  exact hinv.after (wired_of_reachable hs) hgoes

/-- The number of connections that loop `l` got. -/
def served (s : Server) (l : Nat) : Nat :=
  s.accepted.count fun c => (s.slots c).stage ≠ .construct ∧ (s.slots c).eventLoop = l

theorem InTurn.constructed_le (hs : s.InTurn) : s.constructed ≤ s.accepted := by
  unfold Server.constructed
  split
  · have haccepted := (hs.pending _ _ _ ‹_›).1
    omega
  · exact Nat.le_refl _

theorem InTurn.served_eq (hs : s.InTurn) {i : Nat} (hi : i < s.threadNums) :
    s.served (i + 1) = RoundRobin.turns s.threadNums s.constructed i := by
  refine RoundRobin.count_eq_turns hs.constructed_le (fun c hc => ?_) fun c hc => ?_
  · have hconstructed := (hs.constructed c).mp hc
    have hzero : s.threadNums ≠ 0 := Nat.ne_of_gt (Nat.zero_lt_of_lt hi)
    rw [hs.loop c hconstructed, turn_eq, if_neg hzero]
    simp [hconstructed]
  · rintro ⟨hconstructed, -⟩
    have hlt := (hs.constructed c).mpr hconstructed
    omega

/-- **The connections are spread evenly.** In every run the `c`-th connection that is accepted belongs to the
loop of the `c % n`-th sub reactor, or to the main reactor without sub reactors, and the numbers of connections
that two sub reactors got never differ by more than one. -/
theorem spread_evenly (hs : Machine.Reachable Server.step (fun _ _ => True) Fresh s) :
    (∀ c, (s.slots c).stage ≠ .construct →
        (s.slots c).eventLoop = if s.threadNums = 0 then 0 else c % s.threadNums + 1) ∧
      ∀ i < s.threadNums, ∀ j < s.threadNums, s.served (i + 1) ≤ s.served (j + 1) + 1 := by
  have hturn := inTurn_of_reachable hs
  refine ⟨fun c hc => (hturn.loop c hc).trans (s.turn_eq c), fun i hi j hj => ?_⟩
  rw [hturn.served_eq hi, hturn.served_eq hj]
  exact RoundRobin.turns_le hi hj

/-- Three connections with two sub reactors. -/
def threeConnections : List (Nat × Move) :=
  [(0, .epollWait [.accept]), (0, .accept (some 7)), (0, .construct .invalid false true)] ++
    List.replicate 11 (0, .next true) ++
    [(0, .epollWait [.accept]), (0, .accept (some 8)), (0, .construct .invalid false true)] ++
    List.replicate 11 (0, .next true) ++
    [(0, .epollWait [.accept]), (0, .accept (some 9)), (0, .construct .invalid false true)]

theorem spread_evenly_three : ∃ s : Server, (s.slots 2).eventLoop = 1 ∧ s.served 1 ≤ s.served 2 + 1 := by
  have hview : (Machine.run Server.step (fun _ _ => True) (start 2 id id) threeConnections).map
      (fun s => ((s.slots 2).stage, s.threadNums)) = some (.setCallbacks, 2) := by
    decide +kernel
  obtain ⟨s, hrun, hend⟩ := Option.map_eq_some_iff.mp hview
  obtain ⟨hstage, hnums⟩ := Prod.mk.inj hend
  obtain ⟨hloop, heven⟩ := spread_evenly (.run (.init (fresh_start 2 id id)) hrun)
  refine ⟨s, ?_, heven 0 (by rw [hnums]; decide) 1 (by rw [hnums]; decide)⟩
  rw [hloop 2 (by rw [hstage]; nofun), hnums]
  rfl

end Server

end EpollServer
