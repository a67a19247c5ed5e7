import EpollServer.Acceptor
import EpollServer.Proof.Loops

/-!
# Accepting

`Accept` takes one connection each time although more may be waiting. That is enough, since the listening
socket is reported again in every round of the main reactor until its queue is empty; it would not be with
`EPOLLET`. A failed `accept4` costs a round and loses nobody.
-/

namespace EpollServer

/-- The calls of `Accept` that a thread has in its batch; an aborted thread may have had one. -/
def Pc.toAccept : Pc → Nat
  | .aborted => 1
  | pc => pc.ready.count .accept

namespace Server

variable {s s' : Server} {t : Nat} {move : Move} {o : Outcome}

/-- What a step does to the calls of `Accept` that are to come. -/
inductive Plans (pc : Pc) (move : Move) (pc' : Pc) : Prop
  | epollWait {ready : List Ready} (hmove : move = .epollWait ready) (hpc : pc.toAccept = 0)
      (hpc' : pc'.toAccept = ready.count .accept)
  | accept {r : Option Fd} (hmove : move = .accept r) (hpc : pc.toAccept = pc'.toAccept + 1)
  | other (hwait : ∀ ready, move ≠ .epollWait ready) (haccept : ∀ r, move ≠ .accept r)
      (hpc : pc'.toAccept = pc.toAccept ∨ pc' = .aborted)

theorem Goes.plans (h : Goes s t move o) : Plans (s.threads t).pc move o.thread.pc := by
  cases h with
  | epollWait hthread => exact .epollWait rfl (by rw [hthread]; rfl) rfl
  | acceptFailed hthread | accept hthread =>
      exact .accept rfl (by rw [hthread]; exact List.count_cons_self ..)
  | assertFailed => exact .other nofun nofun (.inr rfl)
  | handleRead hthread =>
      refine .other nofun nofun ?_
      rw [hthread]
      cases (s.loops t).handleRead.2 with
      | true => exact .inl (List.count_cons_of_ne (by simp)).symm
      | false => exact .inr rfl
  | dispatch hthread =>
      refine .other nofun nofun (.inl ?_)
      rw [hthread]
      exact (List.count_cons_of_ne (by simp)).symm
  | _ hthread =>
      exact .other nofun nofun (.inl (congrArg (fun thread : Thread => thread.pc.toAccept) hthread).symm)

theorem accepted_step (h : s.step (t, move) = some s') :
    s'.accepted = s.accepted + (match move with | .accept (some _) => 1 | _ => 0) := by
  obtain ⟨-, o, hgoes, rfl⟩ := step_cases h
  cases hgoes with
  | accept => rfl
  | _ => exact (s.apply_frame t _).2.2.2.1 nofun

end Server

namespace Listener

open Server (Plans)

variable {l l' l₁ : Listener} {t : Nat} {move : Move} {aborted : Bool}

theorem run_cases (h : l.step (.run t move aborted) = some l') : ∃ server l₁,
    l.server.step (t, move) = some server ∧ l.answer t move aborted = some l₁ ∧
      l' = { l₁ with server := server } := by
  obtain ⟨server, hstep, h⟩ := Option.bind_eq_some_iff.mp h
  obtain ⟨l₁, hanswer, h⟩ := Option.bind_eq_some_iff.mp h
  exact ⟨server, l₁, hstep, hanswer, (Option.some.inj h).symm⟩

/-- What a step of a thread does to the listening socket. -/
inductive Answers (l : Listener) (t : Nat) : Move → Listener → Prop
  | reported {ready} (hzero : t = 0) (hmem : .accept ∈ ready) (hdue : l.Due) :
      Answers l t (.epollWait ready) { l with ready := !l.acceptChannel.listeningEvents.epollet }
  | unreported {ready} (hzero : t = 0) (hmem : .accept ∉ ready) (hdue : l.Due → eventNum ≤ ready.length) :
      Answers l t (.epollWait ready) l
  | taken {r client rest} (hqueue : l.queue = client :: rest) :
      Answers l t (.accept r) { l with queue := rest, taken := l.taken ++ [(client, r.isSome)] }
  | failed : Answers l t (.accept none) { l with failures := l.failures + 1 }
  | other {m : Move} (hwait : t = 0 → ∀ ready, m ≠ .epollWait ready) (haccept : ∀ r, m ≠ .accept r) :
      Answers l t m l

theorem take_cases {accepted : Bool} (h : l.take accepted = some l₁) : ∃ client rest,
    l.queue = client :: rest ∧ l₁ = { l with queue := rest, taken := l.taken ++ [(client, accepted)] } := by
  unfold take at h
  split at h
  · cases h
  · rename_i client rest hqueue
    exact ⟨client, rest, hqueue, (Option.some.inj h).symm⟩

theorem answer_cases (h : l.answer t move aborted = some l₁) : Answers l t move l₁ := by
  cases move with
  | epollWait ready =>
      by_cases hzero : t = 0
      · rw [answer, if_pos hzero, epollWait] at h
        split at h
        · rename_i hmem
          obtain ⟨hdue, h⟩ := Option.ite_none_right_eq_some.mp h
          cases h
          exact .reported hzero hmem hdue
        · rename_i hmem
          obtain ⟨hdue, h⟩ := Option.ite_none_left_eq_some.mp h
          cases h
          exact .unreported hzero hmem fun hdue' => Nat.le_of_not_lt fun hlt => hdue ⟨hdue', hlt⟩
      · rw [answer, if_neg hzero] at h
        cases h
        exact .other (fun h => absurd h hzero) nofun
  | accept r =>
      cases r with
      | some fd =>
          obtain ⟨client, rest, hqueue, rfl⟩ := take_cases h
          exact .taken hqueue
      | none =>
          cases aborted with
          | true =>
              obtain ⟨client, rest, hqueue, rfl⟩ := take_cases h
              exact .taken hqueue
          | false =>
              cases h
              exact .failed
  | construct | run | next =>
      cases h
      exact .other (fun _ => nofun) nofun

/-- What holds of the listen queue in every run. -/
structure Sound (l : Listener) : Prop where
  order : l.taken.map Prod.fst ++ l.queue = List.range l.established
  accepted : l.taken.countP Prod.snd = l.server.accepted
  epollet : l.acceptChannel.listeningEvents.epollet = false
  epollin : l.acceptChannel.listeningEvents.epollin = true
  ready : l.acceptChannel.inEpoll = true → l.queue ≠ [] → l.ready = true
  toAccept : (l.server.threads 0).pc.toAccept ≤ 1

theorem Fresh.sound (hl : l.Fresh) : l.Sound where
  order := by rw [hl.taken, hl.queue, hl.established]; rfl
  accepted := by rw [hl.taken, hl.server.accepted]; rfl
  epollet := by
    obtain ⟨listenedFd, tied, ok, hchannel⟩ := hl.acceptChannel
    rw [hchannel, EpollServer.acceptChannel, Channel.enableRead, Channel.listeningEvents_undateChannel]
    rfl
  epollin := by
    obtain ⟨listenedFd, tied, ok, hchannel⟩ := hl.acceptChannel
    rw [hchannel, EpollServer.acceptChannel, Channel.enableRead, Channel.listeningEvents_undateChannel]
    rfl
  ready := fun _ hqueue => absurd hl.queue hqueue
  toAccept := by rw [hl.server.threads]; exact Nat.zero_le 1

theorem plans_step {s s' : Server} (h : s.step (t, move) = some s') :
    t = 0 ∧ Plans (s.threads 0).pc move (s'.threads 0).pc ∨ t ≠ 0 ∧ s'.threads 0 = s.threads 0 := by
  obtain ⟨-, o, hgoes, rfl⟩ := Server.step_cases h
  by_cases hzero : 0 = t
  · subst hzero
    rw [Server.threads_after_self]
    exact .inl ⟨rfl, hgoes.plans⟩
  · exact .inr ⟨Ne.symm hzero, Server.threads_after_of_ne hzero⟩

/-- The main reactor plans at most one call of `Accept`. -/
theorem toAccept_step {s s' : Server} (hs : (s.threads 0).pc.toAccept ≤ 1) (h : s.step (t, move) = some s') :
    (s'.threads 0).pc.toAccept ≤ 1 := by
  rcases plans_step h with ⟨rfl, hplans⟩ | ⟨-, hsame⟩
  · cases hplans with
    | @epollWait ready hmove _ hpc' =>
        subst hmove
        have hnodup := Server.nodup_of_step h
        rw [hpc']
        calc
          ready.count .accept ≤ (ready.map Ready.channel).count (Ready.channel .accept) :=
            List.count_le_count_map
          _ ≤ 1 := List.nodup_iff_count_le_one.mp hnodup _
    | accept _ hpc => omega
    | other _ _ hpc =>
        rcases hpc with hpc | hpc
        · omega
        · rw [hpc]
          exact Nat.le_refl 1
  · rw [hsame]
    exact hs

/-- Only `epoll_wait` and `accept4` change what the main reactor plans, unless it aborts. -/
theorem toAccept_keep {s s' : Server} (hs : (s.threads 0).pc.toAccept ≤ 1) (h : s.step (t, move) = some s')
    (hwait : t = 0 → ∀ ready, move ≠ .epollWait ready) (haccept : ∀ r, move ≠ .accept r) :
    (s.threads 0).pc.toAccept ≤ (s'.threads 0).pc.toAccept := by
  rcases plans_step h with ⟨rfl, hplans⟩ | ⟨-, hsame⟩
  · cases hplans with
    | epollWait hmove => exact absurd hmove (hwait rfl _)
    | accept hmove => exact absurd hmove (haccept _)
    | other _ _ hpc =>
        rcases hpc with hpc | hpc
        · exact Nat.le_of_eq hpc.symm
        · rw [hpc]
          exact hs
  · rw [hsame]

/-- A call of `accept4` is one of those that were planned. -/
theorem toAccept_accept {s s' : Server} {r : Option Fd} (h : s.step (t, .accept r) = some s') :
    (s.threads 0).pc.toAccept ≤ (s'.threads 0).pc.toAccept + 1 := by
  rcases plans_step h with ⟨-, hplans⟩ | ⟨-, hsame⟩
  · cases hplans with
    | epollWait hmove => cases hmove
    | accept _ hpc => exact Nat.le_of_eq hpc
    | other _ haccept _ => exact absurd rfl (haccept r)
  · rw [hsame]
    exact Nat.le_succ _

theorem toAccept_epollWait {s s' : Server} {ready : List Ready} (h : s.step (0, .epollWait ready) = some s') :
    (s.threads 0).pc.toAccept = 0 ∧ (s'.threads 0).pc.toAccept = ready.count .accept := by
  rcases plans_step h with ⟨-, hplans⟩ | ⟨hne, -⟩
  · cases hplans with
    | epollWait hmove hpc hpc' =>
        cases hmove
        exact ⟨hpc, hpc'⟩
    | accept hmove => cases hmove
    | other hwait _ _ => exact absurd rfl (hwait ready)
  · exact absurd rfl hne

theorem Sound.step (hl : l.Sound) {action : Action} (h : l.step action = some l') : l'.Sound := by
  cases action with
  | establish =>
      cases h
      refine { hl with order := ?_, ready := fun hin _ => ?_ }
      · change l.taken.map Prod.fst ++ (l.queue ++ [l.established]) = List.range (l.established + 1)
        rw [← List.append_assoc, hl.order, List.range_succ]
      · change l.acceptChannel.inEpoll = true at hin
        change (l.ready || l.acceptChannel.inEpoll && l.acceptChannel.listeningEvents.epollin) = true
        rw [hin, hl.epollin, Bool.true_and, Bool.or_true]
  | run t move aborted =>
      obtain ⟨server, l₁, hstep, hanswer, rfl⟩ := run_cases h
      have htoAccept := toAccept_step hl.toAccept hstep
      have haccepted := Server.accepted_step hstep
      cases answer_cases hanswer with
      | reported =>
          refine { hl with accepted := ?_, ready := fun _ _ => ?_, toAccept := htoAccept }
          · exact hl.accepted.trans haccepted.symm
          · change (!l.acceptChannel.listeningEvents.epollet) = true
            rw [hl.epollet]
            rfl
      | unreported => exact { hl with accepted := hl.accepted.trans haccepted.symm, toAccept := htoAccept }
      | failed => exact { hl with accepted := hl.accepted.trans haccepted.symm, toAccept := htoAccept }
      | other _ haccept =>
          refine { hl with accepted := ?_, toAccept := htoAccept }
          change l.taken.countP Prod.snd = server.accepted
          rw [hl.accepted, haccepted]
          cases move with
          | accept r => exact absurd rfl (haccept r)
          | epollWait | construct | run | next => rfl
      | @taken r client rest hqueue =>
          refine { hl with order := ?_, accepted := ?_, ready := ?_, toAccept := htoAccept }
          · change (l.taken ++ [(client, r.isSome)]).map Prod.fst ++ rest = List.range l.established
            rw [← hl.order, hqueue, List.map_append, List.append_assoc]
            rfl
          · change (l.taken ++ [(client, r.isSome)]).countP Prod.snd = server.accepted
            rw [List.countP_append, hl.accepted, haccepted]
            cases r <;> rfl
          · intro hin _
            exact hl.ready hin (by rw [hqueue]; nofun)

theorem sound_of_reachable (hl : Machine.Reachable step (fun _ _ => True) Fresh l) : l.Sound := by
  induction hl with
  | init h => exact h.sound
  | step _ _ h ih => exact ih.step h

/-- The main reactor looks at its sockets, and the result has room for all of them. -/
def Action.isRound : Action → Bool
  | .run 0 (.epollWait ready) _ => decide (ready.length < eventNum)
  | _ => false

theorem Action.isRound_eq_false (h : t = 0 → ∀ ready, move ≠ .epollWait ready) :
    (Action.run t move aborted).isRound = false := by
  cases t with
  | succ t => rfl
  | zero =>
      cases move with
      | epollWait ready => exact absurd rfl (h rfl ready)
      | accept | construct | run | next => rfl

theorem Action.isRound_accept {r : Option Fd} : (Action.run t (.accept r) aborted).isRound = false := by
  refine Action.isRound_eq_false fun _ ready h => ?_
  cases h

/-- After `n` rounds from `start`: if somebody who waited then still waits, each round took one off the queue,
failed to or is about to take one. -/
structure Serves (start : Listener) (n : Nat) (l : Listener) : Prop where
  sound : l.Sound
  inEpoll : l.acceptChannel.inEpoll = true
  established : start.established ≤ l.established
  taken : start.taken.length ≤ l.taken.length
  failures : start.failures ≤ l.failures
  rounds : l.taken.length < start.taken.length + start.queue.length →
    n + start.taken.length + start.failures ≤
      l.taken.length + l.failures + (l.server.threads 0).pc.toAccept

theorem Sound.length_eq (hl : l.Sound) : l.taken.length + l.queue.length = l.established := by
  have hlength := congrArg List.length hl.order
  rwa [List.length_append, List.length_map, List.length_range] at hlength

theorem Serves.step {start : Listener} {n : Nat} {action : Action} (hstart : start.Sound)
    (hl : Serves start n l) (h : l.step action = some l') : Serves start (n + action.isRound.toNat) l' := by
  have hsound := hl.sound.step h
  cases action with
  | establish =>
      cases h
      exact { hl with sound := hsound, established := Nat.le_succ_of_le hl.established }
  | run t move aborted =>
      obtain ⟨server, l₁, hstep, hanswer, rfl⟩ := run_cases h
      cases answer_cases hanswer with
      | @reported ready hzero hmem hdue =>
          subst hzero
          obtain ⟨hbefore, hafter⟩ := toAccept_epollWait hstep
          have hcount := List.count_pos_iff.mpr hmem
          have hround := Bool.toNat_le (Action.run 0 (.epollWait ready) aborted).isRound
          refine { hl with sound := hsound, rounds := fun hwaits => ?_ }
          have hrounds := hl.rounds hwaits
          change _ ≤ l.taken.length + l.failures + (server.threads 0).pc.toAccept
          omega
      | @unreported ready hzero hmem hdue =>
          subst hzero
          obtain ⟨hbefore, -⟩ := toAccept_epollWait hstep
          refine { hl with sound := hsound, rounds := fun hwaits => ?_ }
          have hrounds := hl.rounds hwaits
          change n + (decide (ready.length < eventNum)).toNat + _ + _ ≤
            l.taken.length + l.failures + (server.threads 0).pc.toAccept
          by_cases hroom : ready.length < eventNum
          · -- The socket is not to be reported, so its queue is empty and nobody who waited is left.
            have hempty : l.queue = [] := by
              by_contra hqueue
              exact absurd (hdue ⟨hl.sound.ready hl.inEpoll hqueue, hqueue⟩) (Nat.not_le_of_lt hroom)
            have htaken := hl.sound.length_eq
            rw [hempty, List.length_nil] at htaken
            have hlength := hstart.length_eq
            have hestablished := hl.established
            change l.taken.length < _ at hwaits
            omega
          · rw [decide_eq_false hroom, Bool.toNat_false]
            omega
      | @taken r client rest hqueue =>
          have hplanned := toAccept_accept hstep
          have hlength : (l.taken ++ [(client, r.isSome)]).length = l.taken.length + 1 := List.length_append
          have htaken := hl.taken
          refine { hl with sound := hsound, taken := ?_, rounds := fun hwaits => ?_ }
          · change _ ≤ (l.taken ++ [(client, r.isSome)]).length
            omega
          · change (l.taken ++ [(client, r.isSome)]).length < _ at hwaits
            have hrounds := hl.rounds (by omega)
            rw [Action.isRound_accept]
            change n + 0 + _ + _ ≤ (l.taken ++ [(client, r.isSome)]).length + l.failures +
              (server.threads 0).pc.toAccept
            omega
      | failed =>
          have hplanned := toAccept_accept hstep
          refine { hl with sound := hsound, failures := Nat.le_succ_of_le hl.failures, rounds := fun hwaits => ?_ }
          have hrounds := hl.rounds hwaits
          rw [Action.isRound_accept]
          change n + 0 + _ + _ ≤ l.taken.length + (l.failures + 1) + (server.threads 0).pc.toAccept
          omega
      | other hwait haccept =>
          have hkeep := toAccept_keep hl.sound.toAccept hstep hwait haccept
          refine { hl with sound := hsound, rounds := fun hwaits => ?_ }
          have hrounds := hl.rounds hwaits
          rw [Action.isRound_eq_false hwait]
          change n + 0 + _ + _ ≤ l.taken.length + l.failures + (server.threads 0).pc.toAccept
          omega

/-- Those that wait are taken in their order. -/
theorem Serves.queue_prefix {start : Listener} {n : Nat} (hstart : start.Sound) (hl : Serves start n l) :
    start.queue <+: (l.taken.drop start.taken.length).map Prod.fst ++ l.queue := by
  have hqueue : start.queue = (List.range start.established).drop start.taken.length := by
    rw [← hstart.order, List.drop_left' (List.length_map _)]
  have hrange : List.range start.established = (List.range l.established).take start.established := by
    rw [List.take_range, Nat.min_eq_left hl.established]
  have hrest : (l.taken.drop start.taken.length).map Prod.fst ++ l.queue =
      (List.range l.established).drop start.taken.length := by
    rw [← hl.sound.order, List.drop_append_of_le_length (by rw [List.length_map]; exact hl.taken), List.map_drop]
  rw [hrest, hqueue, hrange, List.drop_take]
  exact List.take_prefix _ _

/-- **Nobody waits in the listen queue for long.** In each round of the main reactor the next one that waits is
taken, unless `accept4` fails to; the last round may not have come to it yet. Everybody is taken once and in
order, and those who were not aborted are the connections of the server. -/
theorem accepted_in_turn (hl : Machine.Reachable step (fun _ _ => True) Fresh l)
    (hin : l.acceptChannel.inEpoll = true) {as : List Action}
    (hrun : Machine.run step (fun _ _ => True) l as = some l') :
    l.queue.take (as.countP Action.isRound - (l'.failures - l.failures) - 1) <+:
        (l'.taken.drop l.taken.length).map Prod.fst ∧
      l'.taken.map Prod.fst ++ l'.queue = List.range l'.established ∧
      l'.taken.countP Prod.snd = l'.server.accepted := by
  have hstart := sound_of_reachable hl
  have hserves : Serves l 0 l := by
    refine ⟨hstart, hin, Nat.le_refl _, Nat.le_refl _, Nat.le_refl _, fun _ => ?_⟩
    omega
  have hend : Serves l (0 + as.countP Action.isRound) l' :=
    Machine.run_counts (fun _ _ _ _ hserves _ h => hserves.step hstart h) hserves hrun
  refine ⟨?_, hend.sound.order, hend.sound.accepted⟩
  refine List.prefix_of_prefix_length_le ((List.take_prefix _ _).trans (hend.queue_prefix hstart))
    (List.prefix_append _ _) ?_
  have hrounds := hend.rounds
  have hplanned := hend.sound.toAccept
  rw [Nat.zero_add] at hrounds
  rw [List.length_take, List.length_map, List.length_drop]
  omega

/-- The listener of a server with one sub reactor, whose channel is registered. -/
def start : Listener where
  server := .start 1 id id
  acceptChannel := EpollServer.acceptChannel 3 false true
  ready := false
  queue := []
  established := 0
  taken := []
  failures := 0

theorem fresh_start : start.Fresh :=
  ⟨Server.fresh_start 1 id id, ⟨3, false, true, rfl⟩, rfl, rfl, rfl, rfl, rfl⟩

/-- A round in which the main reactor accepts a connection. -/
def acceptRound (fd : Fd) : List Action :=
  [.run 0 (.epollWait [.accept]) false, .run 0 (.accept (some fd)) false,
    .run 0 (.construct .invalid false true) false] ++ List.replicate 11 (.run 0 (.next true) false)

/-- Between two rounds there is one without a free descriptor. -/
def exhausted : List Action :=
  acceptRound 7 ++ [.run 0 (.epollWait [.accept]) false, .run 0 (.accept none) false] ++
    List.replicate 4 (.run 0 (.next true) false) ++ acceptRound 8 ++ [.run 0 (.epollWait []) false]

theorem accepted_in_turn_exhausted : ∃ l l' : Listener, Machine.Reachable step (fun _ _ => True) Fresh l ∧
    l.queue = [0, 1] ∧ Machine.run step (fun _ _ => True) l exhausted = some l' ∧ l'.failures = 1 ∧
      [0, 1] <+: l'.taken.map Prod.fst := by
  have hview : (Machine.run step (fun _ _ => True) start [.establish, .establish]).map
      (fun l => (l.queue, l.taken, l.failures, l.acceptChannel.inEpoll,
        (Machine.run step (fun _ _ => True) l exhausted).map (·.failures))) =
          some ([0, 1], [], 0, true, some 1) := by
    decide +kernel
  obtain ⟨l, hrun, hend⟩ := Option.map_eq_some_iff.mp hview
  simp only [Prod.mk.injEq] at hend
  obtain ⟨hqueue, htaken, hfailures, hin, hmore⟩ := hend
  obtain ⟨l', hmore, hfailures'⟩ := Option.map_eq_some_iff.mp hmore
  have hl : Machine.Reachable step (fun _ _ => True) Fresh l := .run (.init fresh_start) hrun
  have hturn := (accepted_in_turn hl hin hmore).1
  rw [hqueue, htaken, hfailures, hfailures'] at hturn
  exact ⟨l, l', hl, hqueue, hmore, hfailures', hturn⟩

end Listener

end EpollServer
