import EpollServer.EventLoopThreadPool
import EpollServer.Lib.Machine
import EpollServer.Lib.RoundRobin
import EpollServer.Lib.Tally

/-!
# Every sub reactor is started before the first connection

One object after the other, the mutex and the condition variable hand over the address of the right loop:
`event_loop` is written once, under the mutex, and the thread in `Start` goes to sleep only while it holds
the mutex and has seen a null pointer. So the notification finds it asleep or not yet there.
-/

namespace EpollServer

namespace StartPc

/-- Whether the thread is inside the critical section. -/
def holds : StartPc → Bool
  | .test | .wait | .read | .unlock _ => true
  | _ => false

/-- Whether the thread has seen that `event_loop` is set. -/
def knows : StartPc → Bool
  | .read | .unlock _ | .returned _ => true
  | _ => false

/-- The value that the thread has read. -/
def value : StartPc → Option (Option LoopPtr)
  | .unlock currentLoop | .returned currentLoop => some currentLoop
  | _ => none

/-- How much of `Start` is left. -/
def rank : StartPc → Nat
  | .createThread => 6
  | .lock | .relock => 5
  | .test => 4
  | .wait | .read => 3
  | .blocked => 2
  | .unlock _ => 2
  | .returned _ => 1

end StartPc

namespace RunPc

/-- Whether the thread is inside the critical section. -/
def holds : RunPc → Bool
  | .assign | .notify | .unlock => true
  | _ => false

/-- Whether `event_loop` is set. -/
def published : RunPc → Bool
  | .notify | .unlock | .start | .running _ => true
  | _ => false

/-- Whether the loop that `event_loop` is to point to is constructed. -/
def built : RunPc → Bool
  | .absent | .loop1 | .loop => false
  | _ => true

/-- Whether the notification is out. -/
def notified : RunPc → Bool
  | .unlock | .start | .running _ => true
  | _ => false

/-- How much of `ThreadRunFunc` is left; the notification pays for what it wakes up. -/
def rank : RunPc → Nat
  | .absent => 11
  | .loop1 => 10
  | .loop => 9
  | .lock => 8
  | .assign => 7
  | .notify => 6
  | .unlock => 2
  | .start => 1
  | .running _ => 0

end RunPc

namespace EventLoopThread

variable {i : Nat} {t t' : EventLoopThread}

structure Sound (i : Nat) (t : EventLoopThread) : Prop where
  starter : t.starter.holds = true ↔ t.mu = some .starter
  runner : t.runner.holds = true ↔ t.mu = some .runner
  created : t.starter = .createThread ↔ t.runner = .absent
  eventLoop : t.eventLoop = if t.runner.published then some (.loop i) else none
  waiting : t.starter = .wait → t.runner.published = false
  blocked : t.starter = .blocked → t.runner.notified = false
  knows : t.starter.knows = true → t.runner.published = true
  value : ∀ currentLoop, t.starter.value = some currentLoop → currentLoop = some (.loop i)
  running : ∀ eventLoop, t.runner = .running eventLoop → eventLoop = .loop i

theorem sound_new (i : Nat) : Sound i new where
  starter := by decide
  runner := by decide
  created := by decide
  eventLoop := rfl
  waiting := nofun
  blocked := nofun
  knows := nofun
  value := nofun
  running := nofun

theorem Sound.advanceStart (ht : t.Sound i) (h : t.advanceStart = some t') : t'.Sound i := by
  obtain ⟨hstarter, hrunner, hcreated, hloop, hwaiting, hblocked, hknows, hvalue, hrunning⟩ := ht
  unfold EventLoopThread.advanceStart at h
  cases hpc : t.starter with
  | createThread =>
      have hrunner' := hcreated.mp hpc
      simp only [hpc, Option.some.injEq] at h
      subst h
      constructor <;> simp_all [StartPc.holds, RunPc.holds, RunPc.published, StartPc.knows, StartPc.value]
  | lock | relock =>
      simp only [hpc, Option.ite_none_right_eq_some, Option.some.injEq] at h
      obtain ⟨hmu, rfl⟩ := h
      constructor <;> simp_all [StartPc.holds, StartPc.knows, StartPc.value]
  | test =>
      simp only [hpc, Option.some.injEq] at h
      subst h
      cases hpublished : t.runner.published <;> constructor <;>
        simp_all [StartPc.holds, StartPc.knows, StartPc.value]
  | wait =>
      have hpublished := hwaiting hpc
      simp only [hpc, Option.some.injEq] at h
      subst h
      have hnotified : t.runner.notified = false := by
        cases hr : t.runner <;> simp_all [RunPc.published, RunPc.notified]
      constructor <;> simp_all [StartPc.holds, StartPc.knows, StartPc.value]
  | read =>
      simp only [hpc, Option.some.injEq] at h
      subst h
      constructor <;> simp_all [StartPc.holds, StartPc.knows, StartPc.value]
  | unlock currentLoop =>
      simp only [hpc, Option.some.injEq] at h
      subst h
      constructor <;> simp_all [StartPc.holds, StartPc.knows, StartPc.value]
  | blocked | returned => simp only [hpc, reduceCtorEq] at h

theorem Sound.advanceRun (ht : t.Sound i) (h : t.advanceRun i = some t') : t'.Sound i := by
  obtain ⟨hstarter, hrunner, hcreated, hloop, hwaiting, hblocked, hknows, hvalue, hrunning⟩ := ht
  unfold EventLoopThread.advanceRun at h
  cases hpc : t.runner with
  | loop1 | loop =>
      simp only [hpc, Option.some.injEq] at h
      subst h
      constructor <;> simp_all [RunPc.holds, RunPc.published, RunPc.notified]
  | lock =>
      simp only [hpc, Option.ite_none_right_eq_some, Option.some.injEq] at h
      obtain ⟨hmu, rfl⟩ := h
      constructor <;> simp_all [RunPc.holds, RunPc.published, RunPc.notified]
  | assign =>
      simp only [hpc, Option.some.injEq] at h
      subst h
      have hmu := hrunner.mp (by rw [hpc]; rfl)
      have hout : t.starter ≠ .wait := by
        intro hwait
        simp_all [StartPc.holds]
      constructor <;> simp_all [RunPc.holds, RunPc.published, RunPc.notified]
  | notify =>
      simp only [hpc, Option.some.injEq] at h
      subst h
      by_cases hstart : t.starter = .blocked <;> constructor <;>
        simp_all [notifyOne, StartPc.holds, StartPc.knows, StartPc.value, RunPc.holds, RunPc.published,
          RunPc.notified]
  | unlock =>
      simp only [hpc, Option.some.injEq] at h
      subst h
      constructor <;> simp_all [RunPc.holds, RunPc.published, RunPc.notified]
  | start =>
      simp only [hpc] at h
      obtain ⟨eventLoop, heq, rfl⟩ := Option.map_eq_some_iff.mp h
      constructor <;> simp_all [RunPc.holds, RunPc.published, RunPc.notified]
  | absent | running => simp only [hpc, reduceCtorEq] at h

theorem Sound.wakeSpuriously (ht : t.Sound i) (h : t.wakeSpuriously = some t') : t'.Sound i := by
  obtain ⟨hstarter, hrunner, hcreated, hloop, hwaiting, hblocked, hknows, hvalue, hrunning⟩ := ht
  obtain ⟨hpc, h⟩ := Option.ite_none_right_eq_some.mp h
  cases h
  constructor <;> simp_all [StartPc.holds, StartPc.knows, StartPc.value]

/-- How much the two threads still have to do. -/
def rank (t : EventLoopThread) : Nat := t.starter.rank + t.runner.rank

theorem Sound.rank_advanceStart (ht : t.Sound i) (h : t.advanceStart = some t') : t'.rank + 1 ≤ t.rank := by
  unfold EventLoopThread.advanceStart at h
  cases hpc : t.starter with
  | createThread =>
      have hrunner := ht.created.mp hpc
      simp only [hpc, Option.some.injEq] at h
      subst h
      simp [rank, hpc, hrunner, StartPc.rank, RunPc.rank]
  | lock | relock =>
      simp only [hpc, Option.ite_none_right_eq_some, Option.some.injEq] at h
      obtain ⟨-, rfl⟩ := h
      simp only [rank, hpc, StartPc.rank]
      omega
  | test =>
      simp only [hpc, Option.some.injEq] at h
      subst h
      cases hloop : t.eventLoop <;> simp only [rank, hpc, StartPc.rank, if_pos, reduceCtorEq, if_false] <;>
        omega
  | wait | read | unlock =>
      simp only [hpc, Option.some.injEq] at h
      subst h
      simp only [rank, hpc, StartPc.rank]
      omega
  | blocked | returned => simp only [hpc, reduceCtorEq] at h

theorem rank_advanceRun (h : t.advanceRun i = some t') : t'.rank + 1 ≤ t.rank := by
  unfold EventLoopThread.advanceRun at h
  cases hpc : t.runner with
  | loop1 | loop | assign | unlock =>
      simp only [hpc, Option.some.injEq] at h
      subst h
      simp only [rank, hpc, RunPc.rank]
      omega
  | lock =>
      simp only [hpc, Option.ite_none_right_eq_some, Option.some.injEq] at h
      obtain ⟨-, rfl⟩ := h
      simp only [rank, hpc, RunPc.rank]
      omega
  | notify =>
      simp only [hpc, Option.some.injEq] at h
      subst h
      simp only [rank, notifyOne, hpc, RunPc.rank]
      split
      · rename_i hblocked
        simp only [hblocked, StartPc.rank]
        omega
      · omega
  | start =>
      simp only [hpc] at h
      obtain ⟨eventLoop, -, rfl⟩ := Option.map_eq_some_iff.mp h
      simp only [rank, hpc, RunPc.rank]
      omega
  | absent | running => simp only [hpc, reduceCtorEq] at h

theorem rank_wakeSpuriously (h : t.wakeSpuriously = some t') : t'.rank = t.rank + 3 := by
  obtain ⟨hpc, h⟩ := Option.ite_none_right_eq_some.mp h
  cases h
  simp only [rank, hpc, StartPc.rank]
  omega

/-- **No wakeup is lost**: when neither thread can go on, `Start` has returned and the loop runs. -/
theorem Sound.done (ht : t.Sound i) (hstart : t.advanceStart = none) (hrun : t.advanceRun i = none) :
    t.starter = .returned (some (.loop i)) ∧ t.runner = .running (.loop i) := by
  have hrunning : t.runner = .running (.loop i) := by
    unfold EventLoopThread.advanceRun at hrun
    cases hpc : t.runner with
    | absent =>
        have hstarter := ht.created.mpr hpc
        simp [EventLoopThread.advanceStart, hstarter] at hstart
    | loop1 | loop | assign | notify | unlock => simp [hpc] at hrun
    | lock =>
        -- the mutex is with the other thread, which can go on
        have hheld : t.mu ≠ none := by simpa [hpc] using hrun
        have hother : t.mu ≠ some .runner := by
          intro hmu
          have hholds := ht.runner.mpr hmu
          rw [hpc] at hholds
          cases hholds
        have hholds : t.starter.holds = true := by
          apply ht.starter.mpr
          cases hmu : t.mu with
          | none => exact absurd hmu hheld
          | some side =>
              cases side with
              | starter => rfl
              | runner => exact absurd hmu hother
        cases hstarter : t.starter <;> simp_all [EventLoopThread.advanceStart, StartPc.holds]
    | start =>
        have hloop := ht.eventLoop
        simp_all [RunPc.published]
    | running eventLoop => rw [ht.running eventLoop hpc]
  refine ⟨?_, hrunning⟩
  have hfree : t.mu ≠ some .runner := by
    intro hmu
    have hholds := ht.runner.mpr hmu
    rw [hrunning] at hholds
    cases hholds
  have hnotified : t.starter ≠ .blocked := by
    intro hblocked
    have hnot := ht.blocked hblocked
    rw [hrunning] at hnot
    cases hnot
  unfold EventLoopThread.advanceStart at hstart
  cases hpc : t.starter with
  | lock | relock =>
      have hheld : t.mu = some .starter := by
        cases hmu : t.mu with
        | none => simp [hpc, hmu] at hstart
        | some side =>
            cases side with
            | starter => rfl
            | runner => exact absurd hmu hfree
      have hholds := ht.starter.mpr hheld
      rw [hpc] at hholds
      cases hholds
  | blocked => exact absurd hpc hnotified
  | returned currentLoop =>
      rw [ht.value currentLoop (by rw [hpc]; rfl)]
  | createThread | test | wait | read | unlock => simp [hpc] at hstart

theorem built_advanceStart (h : t.advanceStart = some t') (hbuilt : t'.runner.built = true) :
    t.runner.built = true := by
  unfold EventLoopThread.advanceStart at h
  cases hpc : t.starter with
  | createThread =>
      simp only [hpc, Option.some.injEq] at h
      subst h
      cases hbuilt
  | lock | relock =>
      simp only [hpc, Option.ite_none_right_eq_some, Option.some.injEq] at h
      obtain ⟨-, rfl⟩ := h
      exact hbuilt
  | test | wait | read | unlock =>
      simp only [hpc, Option.some.injEq] at h
      subst h
      exact hbuilt
  | blocked | returned => simp only [hpc, reduceCtorEq] at h

theorem advanceRun_frame (h : t.advanceRun i = some t') : t.runner ≠ .absent ∧
    (∀ currentLoop, t.starter = .returned currentLoop → t'.starter = .returned currentLoop) ∧
      (t'.runner.built = true → t.runner.built = true ∨ t.constructs i = some (.loop i)) := by
  unfold EventLoopThread.advanceRun at h
  cases hpc : t.runner with
  | loop1 | loop | assign | unlock =>
      simp only [hpc, Option.some.injEq] at h
      subst h
      simp [constructs, hpc, RunPc.built]
  | lock =>
      simp only [hpc, Option.ite_none_right_eq_some, Option.some.injEq] at h
      obtain ⟨-, rfl⟩ := h
      simp [RunPc.built]
  | notify =>
      simp only [hpc, Option.some.injEq] at h
      subst h
      simp +contextual [notifyOne, RunPc.built]
  | start =>
      simp only [hpc] at h
      obtain ⟨eventLoop, -, rfl⟩ := Option.map_eq_some_iff.mp h
      simp [RunPc.built]
  | absent | running => simp only [hpc, reduceCtorEq] at h

end EventLoopThread

namespace Startup

variable {n : Int} {s s' : Startup} {i : Nat}

/-- The loop that the `k`-th connection gets. -/
def turn (n k : Nat) : LoopPtr := if n = 0 then .mainReactor else .loop (k % n)

/-- How many threads there are, and how many of them have handed over their loop. -/
def Counted (n : Int) (s : Startup) : Prop :=
  match s.pc with
  | .test i => s.pool.subReactors = i ∧ s.pool.eventLoops.length = i ∧ i ≤ n.toNat
  | .start i => s.pool.subReactors = i + 1 ∧ s.pool.eventLoops.length = i ∧ i < n.toNat
  | .running => s.pool.subReactors = n.toNat ∧ s.pool.eventLoops.length = n.toNat

structure Sound (n : Int) (s : Startup) : Prop where
  mainReactor : s.pool.mainReactor = .mainReactor
  threadNums : s.pool.threadNums = n
  counted : s.Counted n
  threads : ∀ i, (s.threads i).Sound i
  absent : ∀ i, s.pool.subReactors ≤ i → s.threads i = .new
  returned : ∀ i < s.pool.eventLoops.length, (s.threads i).starter = .returned (some (.loop i))
  eventLoops : s.pool.eventLoops = (List.range s.pool.eventLoops.length).map fun i => some (.loop i)
  mainConstructed : .mainReactor ∈ s.constructed
  constructed : ∀ i, (s.threads i).runner.built = true → .loop i ∈ s.constructed
  next : 0 < n.toNat → s.pool.next = s.handed.length % n.toNat
  handed : s.handed = (List.range s.handed.length).map fun k => some (turn n.toNat k)
  waiting : s.pc ≠ .running → s.handed = []

theorem sound_new (n : Int) : (new n).Sound n where
  mainReactor := rfl
  threadNums := rfl
  counted := ⟨rfl, rfl, Nat.zero_le _⟩
  threads := EventLoopThread.sound_new
  absent _ _ := rfl
  returned _ hi := absurd hi (Nat.not_lt_zero _)
  eventLoops := rfl
  mainConstructed := List.mem_singleton_self _
  constructed := nofun
  next _ := (Nat.zero_mod _).symm
  handed := rfl
  waiting _ := rfl

theorem Sound.counts (hs : s.Sound n) : s.pool.eventLoops.length ≤ s.pool.subReactors ∧
    s.pool.subReactors ≤ n.toNat := by
  have hcounted := hs.counted
  unfold Counted at hcounted
  split at hcounted <;> omega

theorem Sound.setThread (hs : s.Sound n) {thread : EventLoopThread} (hthread : thread.Sound i)
    (hi : i < s.pool.subReactors)
    (hreturned : i < s.pool.eventLoops.length → thread.starter = .returned (some (.loop i)))
    (hbuilt : thread.runner.built = true → .loop i ∈ s.constructed) : (s.setThread i thread).Sound n where
  mainReactor := hs.mainReactor
  threadNums := hs.threadNums
  counted := hs.counted
  threads := (Function.forall_update_iff s.threads fun i t => t.Sound i).mpr
    ⟨hthread, fun j _ => hs.threads j⟩
  absent j hj := by
    have hne : j ≠ i := by
      rintro rfl
      exact absurd hi (Nat.not_lt.mpr hj)
    exact (Function.update_of_ne hne ..).trans (hs.absent j hj)
  returned j hj := by
    by_cases hne : j = i
    · subst hne
      simpa [Startup.setThread] using hreturned hj
    · simpa [Startup.setThread, Function.update_of_ne hne] using hs.returned j hj
  eventLoops := hs.eventLoops
  mainConstructed := hs.mainConstructed
  constructed :=
    (Function.forall_update_iff s.threads fun i t => t.runner.built = true → LoopPtr.loop i ∈ s.constructed).mpr
      ⟨hbuilt, fun j _ => hs.constructed j⟩
  next := hs.next
  handed := hs.handed
  waiting := hs.waiting

/-- A thread that can go on has been created. -/
theorem Sound.lt_of_runner (hs : s.Sound n) (hrunner : (s.threads i).runner ≠ .absent) :
    i < s.pool.subReactors := by
  refine Nat.lt_of_not_le fun hle => hrunner ?_
  rw [hs.absent i hle]
  rfl

theorem Sound.advanceMain (hs : s.Sound n) (h : s.advanceMain = some s') : s'.Sound n := by
  have hcounted := hs.counted
  unfold Startup.advanceMain at h
  unfold Counted at hcounted
  cases hpc : s.pc with
  | test i =>
      simp only [hpc, Option.some.injEq] at h hcounted
      subst h
      obtain ⟨hsub, hloops, hle⟩ := hcounted
      have hidle := hs.waiting (by rw [hpc]; nofun)
      by_cases hlt : (i : Int) < s.pool.threadNums
      · rw [if_pos hlt]
        rw [hs.threadNums] at hlt
        exact { hs with
          counted := ⟨by rw [hsub], hloops, by omega⟩
          absent := fun j hj => hs.absent j (Nat.le_of_succ_le hj)
          waiting := fun _ => hidle }
      · rw [if_neg hlt]
        rw [hs.threadNums] at hlt
        exact { hs with
          counted := ⟨by dsimp only; omega, by dsimp only; omega⟩
          waiting := fun _ => hidle }
  | start i =>
      simp only [hpc] at h hcounted
      obtain ⟨hsub, hloops, hlt⟩ := hcounted
      cases hstarter : (s.threads i).starter with
      | returned currentLoop =>
          simp only [hstarter, Option.some.injEq] at h
          subst h
          have hvalue := (hs.threads i).value currentLoop (by rw [hstarter]; rfl)
          subst hvalue
          exact { hs with
            counted := ⟨hsub, by simp [hloops], hlt⟩
            returned := by
              intro j hj
              rw [List.length_append, List.length_singleton] at hj
              by_cases hlast : j = i
              · subst hlast
                exact hstarter
              · exact hs.returned j (by omega)
            eventLoops := by
              rw [List.length_append, List.length_singleton, List.range_succ, List.map_append,
                ← hs.eventLoops, hloops]
              rfl
            waiting := fun _ => hs.waiting (by rw [hpc]; nofun) }
      | _ =>
          simp only [hstarter] at h
          obtain ⟨thread, hthread, rfl⟩ := Option.map_eq_some_iff.mp h
          have hsound := (hs.threads i).advanceStart hthread
          exact hs.setThread hsound (by omega) (fun hi => absurd hi (by omega)) fun hbuilt =>
            hs.constructed i (EventLoopThread.built_advanceStart hthread hbuilt)
  | running => simp only [hpc, reduceCtorEq] at h

theorem Sound.construct (hs : s.Sound n) (eventLoop : LoopPtr) :
    Sound n { s with constructed := s.constructed ++ [eventLoop] } :=
  { hs with
    mainConstructed := List.mem_append_left _ hs.mainConstructed
    constructed := fun i hbuilt => List.mem_append_left _ (hs.constructed i hbuilt) }

theorem Sound.runThread (hs : s.Sound n) {thread : EventLoopThread}
    (hthread : (s.threads i).advanceRun i = some thread)
    (hconstructed : (s.threads i).constructs i = some (.loop i) → .loop i ∈ s.constructed) :
    (s.setThread i thread).Sound n := by
  obtain ⟨hpresent, hreturned, hbuilt⟩ := EventLoopThread.advanceRun_frame hthread
  refine hs.setThread ((hs.threads i).advanceRun hthread) (hs.lt_of_runner hpresent)
    (fun hi => hreturned _ (hs.returned i hi)) fun h => ?_
  rcases hbuilt h with hold | hnew
  · exact hs.constructed i hold
  · exact hconstructed hnew

theorem Sound.advanceRunner (hs : s.Sound n) {ok : Bool} (h : s.advanceRunner i ok = some s') :
    s'.Sound n := by
  unfold Startup.advanceRunner at h
  split at h
  · rename_i eventLoop hconstructs
    split at h
    · obtain ⟨thread, hthread, rfl⟩ := Option.map_eq_some_iff.mp h
      refine (hs.construct eventLoop).runThread hthread fun hloop => ?_
      obtain rfl : eventLoop = .loop i := Option.some.inj (hconstructs.symm.trans hloop)
      exact List.mem_append_right _ (List.mem_singleton_self _)
    · cases h
      exact { hs with }
  · rename_i hconstructs
    obtain ⟨thread, hthread, rfl⟩ := Option.map_eq_some_iff.mp h
    refine hs.runThread hthread fun hloop => ?_
    rw [hconstructs] at hloop
    cases hloop

/-- `NextEventLoop` finds the loop of the connection's turn. -/
theorem Sound.nextEventLoop (hs : s.Sound n) (hpc : s.pc = .running) :
    s.pool.nextEventLoop = some (some (turn n.toNat s.handed.length),
      { s.pool with
        next := if n.toNat = 0 then s.pool.next
          else RoundRobin.next s.pool.subReactors s.pool.next }) := by
  have hcounted := hs.counted
  rw [Counted, hpc] at hcounted
  obtain ⟨hsub, hloops⟩ := hcounted
  unfold EventLoopThreadPool.nextEventLoop
  by_cases hzero : n.toNat = 0
  · rw [if_pos (by omega), if_pos hzero, hs.mainReactor, turn, if_pos hzero]
  · have hnext := hs.next (Nat.pos_of_ne_zero hzero)
    have hlt : s.pool.next < n.toNat := hnext ▸ Nat.mod_lt _ (Nat.pos_of_ne_zero hzero)
    have hget : s.pool.eventLoops[s.pool.next]? = some (some (.loop s.pool.next)) := by
      rw [hs.eventLoops, hloops]
      simp [List.getElem?_range hlt]
    rw [if_neg (by omega), if_neg hzero, hget, turn, if_neg hzero, ← hnext]
    rfl

theorem Sound.newConnection (hs : s.Sound n) (h : s.newConnection = some s') : s'.Sound n := by
  unfold Startup.newConnection at h
  cases hpc : s.pc with
  | running =>
      simp only [hpc, hs.nextEventLoop hpc, Option.map_some, Option.some.injEq] at h
      subst h
      have hcounted := hs.counted
      rw [Counted, hpc] at hcounted
      exact { hs with
        counted := hcounted
        next := by
          intro hn
          rw [List.length_append, List.length_singleton, if_neg (Nat.ne_of_gt hn), hs.next hn, hcounted.1]
          exact RoundRobin.next_mod hn _
        handed := by
          rw [List.length_append, List.length_singleton, List.range_succ, List.map_append, ← hs.handed]
          rfl
        waiting := fun hne => absurd rfl hne }
  | test | start => simp only [hpc, reduceCtorEq] at h

theorem Sound.spurious (hs : s.Sound n) {thread : EventLoopThread}
    (hthread : (s.threads i).wakeSpuriously = some thread) : (s.setThread i thread).Sound n := by
  have hsound := (hs.threads i).wakeSpuriously hthread
  obtain ⟨hblocked, h⟩ := Option.ite_none_right_eq_some.mp hthread
  cases h
  refine hs.setThread hsound (hs.lt_of_runner fun habsent => ?_) (fun hi => ?_) (hs.constructed i)
  · have hcreate := (hs.threads i).created.mpr habsent
    rw [hblocked] at hcreate
    cases hcreate
  · have hreturned := hs.returned i hi
    rw [hblocked] at hreturned
    cases hreturned

theorem Sound.step (hs : s.Sound n) {action : Action} (h : s.step action = some s') : s'.Sound n := by
  obtain ⟨-, h⟩ := Option.ite_none_left_eq_some.mp h
  cases action with
  | main => exact hs.advanceMain h
  | newConnection => exact hs.newConnection h
  | runner i ok => exact hs.advanceRunner h
  | spurious i =>
      obtain ⟨thread, hthread, rfl⟩ := Option.map_eq_some_iff.mp h
      exact hs.spurious hthread

theorem sound_of_reachable (hs : Machine.Reachable Startup.step (fun _ _ => True) (· = new n) s) : s.Sound n :=
  hs.invariant (fun _ h => h ▸ sound_new n) fun _ _ _ _ hinv _ h => hinv.step h

theorem Sound.constructed_of_returned (hs : s.Sound n) {currentLoop : Option LoopPtr}
    (hreturned : (s.threads i).starter = .returned currentLoop) :
    currentLoop = some (.loop i) ∧ .loop i ∈ s.constructed := by
  refine ⟨(hs.threads i).value currentLoop (by rw [hreturned]; rfl), hs.constructed i ?_⟩
  have hpublished := (hs.threads i).knows (by rw [hreturned]; rfl)
  cases hpc : (s.threads i).runner <;> simp_all [RunPc.published, RunPc.built]

theorem Sound.constructed_turn (hs : s.Sound n) (hpc : s.pc = .running) (k : Nat) :
    turn n.toNat k ∈ s.constructed := by
  have hcounted := hs.counted
  rw [Counted, hpc] at hcounted
  unfold turn
  split
  · exact hs.mainConstructed
  · rename_i hzero
    have hlt : k % n.toNat < s.pool.eventLoops.length := by
      rw [hcounted.2]
      exact Nat.mod_lt k (Nat.pos_of_ne_zero hzero)
    exact (hs.constructed_of_returned (hs.returned _ hlt)).2

/-- **Every connection gets a loop that is constructed, in turn.** `Start` of an `EventLoopThread` returns the
loop that its thread runs and never a null pointer, whatever the order of the threads and however often
`cv.wait` returns for no reason. Once the main reactor runs, `NextEventLoop` stays inside of `event_loops`,
and the `k`-th connection gets the loop of the `k % n`-th thread, or the main reactor without sub reactors. -/
theorem loops_in_turn (hs : Machine.Reachable Startup.step (fun _ _ => True) (· = new n) s) :
    (∀ i currentLoop, (s.threads i).starter = .returned currentLoop →
        currentLoop = some (.loop i) ∧ .loop i ∈ s.constructed) ∧
      (∀ i eventLoop, (s.threads i).runner = .running eventLoop → eventLoop = .loop i) ∧
      (∀ k ret, s.handed[k]? = some ret → ret = some (turn n.toNat k) ∧ turn n.toNat k ∈ s.constructed) ∧
      (s.pc = .running → (s.pool.nextEventLoop).isSome) := by
  have hsound := sound_of_reachable hs
  refine ⟨fun i currentLoop => hsound.constructed_of_returned, fun i => (hsound.threads i).running,
    fun k ret hret => ?_, fun hpc => by rw [hsound.nextEventLoop hpc]; rfl⟩
  have hrunning : s.pc = .running := by
    by_contra hne
    rw [hsound.waiting hne] at hret
    cases hret
  refine ⟨?_, hsound.constructed_turn hrunning k⟩
  rw [hsound.handed, List.getElem?_map] at hret
  obtain ⟨j, hj, rfl⟩ := Option.map_eq_some_iff.mp hret
  rw [(List.getElem?_eq_some_iff.mp hj).2.symm, List.getElem_range]

/-- The start of two sub reactors: the first time the main thread sleeps, and wakes up for no reason. -/
def twoReactors : List Action :=
  [.main, .main, .main, .main, .main, .spurious 0, .runner 0 true, .runner 0 true, .main, .main, .main,
    .runner 0 true, .runner 0 true, .runner 0 true, .runner 0 true, .main, .main, .main, .main, .main,
    .runner 0 true, .main, .main, .runner 1 true, .runner 1 true, .runner 1 true, .runner 1 true,
    .runner 1 true, .runner 1 true, .runner 1 true, .main, .main, .main, .main, .main, .main]

theorem loops_in_turn_two : ∃ s : Startup, s.handed[2]? = some (some (.loop 0)) ∧ .loop 0 ∈ s.constructed := by
  have hview : (Machine.run Startup.step (fun _ _ => True) (new 2)
      (twoReactors ++ [.newConnection, .newConnection, .newConnection])).map (fun s => s.handed[2]?)
        = some (some (some (.loop 0))) := by
    decide
  obtain ⟨s, hs, hhanded⟩ := Option.map_eq_some_iff.mp hview
  have hreachable : Machine.Reachable Startup.step (fun _ _ => True) (· = new 2) s := .run (.init rfl) hs
  exact ⟨s, hhanded, ((loops_in_turn hreachable).2.2.1 2 _ hhanded).2⟩

/-- How much of the start the main thread has left. -/
def mainRank (n : Nat) : PoolPc → Nat
  | .test i => 2 * (n - i) + 1
  | .start i => 2 * (n - i)
  | .running => 0

/-- How much of the start all threads have left. -/
def rank (n : Nat) (s : Startup) : Nat :=
  ∑ i ∈ Finset.range n, (s.threads i).rank + mainRank n s.pc + if s.terminated then 0 else 1

/-- What an action may add to it. -/
def Action.credit : Action → Nat
  | .main | .runner _ _ => 0
  | .newConnection => 1
  | .spurious _ => 4

theorem Sound.rank_setThread (hs : s.Sound n) (hi : i < s.pool.subReactors) (thread : EventLoopThread) :
    (s.setThread i thread).rank n.toNat + (s.threads i).rank = s.rank n.toNat + thread.rank := by
  have hlt : i < n.toNat := Nat.lt_of_lt_of_le hi hs.counts.2
  have hsum := Tally.sum_add_eq (Finset.mem_range.mpr hlt) (f := fun j => (s.threads j).rank)
    (g := fun j => (Function.update s.threads i thread j).rank)
    fun j hj => by rw [Function.update_of_ne hj]
  rw [Function.update_self] at hsum
  dsimp only [rank, Startup.setThread] at hsum ⊢
  omega

theorem Sound.rank_step (hs : s.Sound n) {action : Action} (h : s.step action = some s') :
    s'.rank n.toNat + 1 ≤ s.rank n.toNat + action.credit := by
  obtain ⟨hterminated, h⟩ := Option.ite_none_left_eq_some.mp h
  have hcounted := hs.counted
  cases action with
  | main =>
      dsimp only [Startup.advanceMain] at h
      unfold Counted at hcounted
      cases hpc : s.pc with
      | test i =>
          simp only [hpc, Option.some.injEq] at h hcounted
          subst h
          split
          · dsimp only [rank]
            rw [hpc, mainRank, mainRank]
            omega
          · dsimp only [rank]
            rw [hpc, mainRank, mainRank]
            omega
      | start i =>
          simp only [hpc] at h hcounted
          cases hstarter : (s.threads i).starter with
          | returned currentLoop =>
              simp only [hstarter, Option.some.injEq] at h
              subst h
              dsimp only [rank]
              rw [hpc, mainRank, mainRank]
              omega
          | _ =>
              simp only [hstarter] at h
              obtain ⟨thread, hthread, rfl⟩ := Option.map_eq_some_iff.mp h
              have hset := hs.rank_setThread (i := i) (by omega) thread
              have hlt := (hs.threads i).rank_advanceStart hthread
              omega
      | running => simp only [hpc, reduceCtorEq] at h
  | newConnection =>
      dsimp only [Startup.newConnection] at h
      cases hpc : s.pc with
      | running =>
          simp only [hpc] at h
          obtain ⟨ret, -, rfl⟩ := Option.map_eq_some_iff.mp h
          simp only [rank, hpc, Action.credit]
          omega
      | test | start => simp only [hpc, reduceCtorEq] at h
  | runner i ok =>
      have hset : ∀ thread, (s.threads i).advanceRun i = some thread →
          (s.setThread i thread).rank n.toNat + 1 ≤ s.rank n.toNat := by
        intro thread hthread
        have hi := hs.lt_of_runner (EventLoopThread.advanceRun_frame hthread).1
        have hset := hs.rank_setThread hi thread
        have hlt := EventLoopThread.rank_advanceRun hthread
        omega
      dsimp only [Startup.advanceRunner] at h
      split at h
      · split at h
        · obtain ⟨thread, hthread, rfl⟩ := Option.map_eq_some_iff.mp h
          exact hset thread hthread
        · cases h
          simp only [rank, hterminated, Action.credit]
          simp
      · obtain ⟨thread, hthread, rfl⟩ := Option.map_eq_some_iff.mp h
        exact hset thread hthread
  | spurious i =>
      obtain ⟨thread, hthread, rfl⟩ := Option.map_eq_some_iff.mp h
      have hadds := EventLoopThread.rank_wakeSpuriously hthread
      obtain ⟨hblocked, -⟩ := Option.ite_none_right_eq_some.mp hthread
      have hpresent : (s.threads i).runner ≠ .absent := by
        intro habsent
        have hcreate := (hs.threads i).created.mpr habsent
        rw [hblocked] at hcreate
        cases hcreate
      have hset := hs.rank_setThread (hs.lt_of_runner hpresent) thread
      rw [Action.credit]
      omega

theorem sum_credit (as : List Action) : (as.map Action.credit).sum
    = as.countP (· matches .newConnection) + 4 * as.countP (· matches .spurious _) := by
  induction as with
  | nil => rfl
  | cons a as ih =>
      rw [List.map_cons, List.sum_cons, ih, List.countP_cons, List.countP_cons]
      cases a <;> simp [Action.credit] <;> omega

theorem rank_new (n : Int) : (new n).rank n.toNat = 19 * n.toNat + 2 := by
  have hsum : ∑ i ∈ Finset.range n.toNat, ((new n).threads i).rank = n.toNat * 17 := by
    calc ∑ i ∈ Finset.range n.toNat, ((new n).threads i).rank
        = (Finset.range n.toNat).card * 17 := Finset.sum_const_nat fun _ _ => rfl
      _ = n.toNat * 17 := by rw [Finset.card_range]
  rw [rank, hsum]
  simp only [new, mainRank, Bool.false_eq_true, if_false]
  omega

theorem advanceRun_of_stuck (hterminated : s.terminated = false) (h : s.step (.runner i true) = none) :
    (s.threads i).advanceRun i = none := by
  rw [Startup.step, if_neg (by rw [hterminated]; exact Bool.false_ne_true)] at h
  dsimp only [Startup.advanceRunner] at h
  split at h
  · rw [if_pos rfl] at h
    exact Option.map_eq_none_iff.mp h
  · exact Option.map_eq_none_iff.mp h

/-- When no thread can go on, the main thread is not left in the start of the pool. -/
theorem Sound.running_of_stuck (hs : s.Sound n) (hmain : s.advanceMain = none)
    (hrunner : ∀ i, (s.threads i).advanceRun i = none) : s.pc = .running := by
  unfold Startup.advanceMain at hmain
  cases hpc : s.pc with
  | running => rfl
  | test i => simp only [hpc, reduceCtorEq] at hmain
  | start i =>
      exfalso
      simp only [hpc] at hmain
      cases hstarter : (s.threads i).starter with
      | returned currentLoop => simp only [hstarter, reduceCtorEq] at hmain
      | _ =>
          simp only [hstarter] at hmain
          have hreturned := ((hs.threads i).done (Option.map_eq_none_iff.mp hmain) (hrunner i)).1
          rw [hstarter] at hreturned
          cases hreturned

/-- **Starting up ends.** A start of `n` sub reactors takes at most `19 * n + 2` steps and four more for each
time that `cv.wait` returns without a notification. If no thread can go on, then every thread runs the loop it
has constructed, and `event_loops` holds these loops. -/
theorem starts_up {as : List Action} (h : Machine.run Startup.step (fun _ _ => True) (new n) as = some s) :
    as.length ≤ 19 * n.toNat + 2 + as.countP (· matches .newConnection)
        + 4 * as.countP (· matches .spurious _) ∧
      (s.terminated = false → s.step .main = none → (∀ i ok, s.step (.runner i ok) = none) →
        s.pc = .running ∧ s.pool.eventLoops = (List.range n.toNat).map (fun i => some (.loop i)) ∧
          ∀ i < n.toNat, (s.threads i).runner = .running (.loop i)) := by
  have hreachable : Machine.Reachable Startup.step (fun _ _ => True) (· = new n) s := .run (.init rfl) h
  have hsound := sound_of_reachable hreachable
  constructor
  · have hspends := Machine.run_spends (rank n.toNat) (fun _ => 1) Action.credit
      (fun s a s' (hs : s.Sound n) _ h => ⟨hs.step h, hs.rank_step h⟩) (sound_new n) h
    rw [rank_new, sum_credit, List.map_const', List.sum_replicate_nat, Nat.mul_one] at hspends
    omega
  · intro hterminated hmain hrunner
    have hrun : ∀ i, (s.threads i).advanceRun i = none := fun i =>
      advanceRun_of_stuck hterminated (hrunner i true)
    rw [Startup.step, if_neg (by rw [hterminated]; exact Bool.false_ne_true)] at hmain
    have hpc := hsound.running_of_stuck hmain hrun
    have hcounted := hsound.counted
    rw [Counted, hpc] at hcounted
    have hloops := hsound.eventLoops
    rw [hcounted.2] at hloops
    refine ⟨hpc, hloops, fun i hi => ?_⟩
    have hreturned := hsound.returned i (by rw [hcounted.2]; exact hi)
    exact ((hsound.threads i).done (by simp [EventLoopThread.advanceStart, hreturned]) (hrun i)).2

/-- The start of one sub reactor. -/
def oneReactor : List Action :=
  [.main, .main, .main, .main, .main, .runner 0 true, .runner 0 true, .runner 0 true, .runner 0 true,
    .runner 0 true, .runner 0 true, .main, .main, .main, .main, .main, .main, .runner 0 true]

theorem starts_up_one : oneReactor.length ≤ 21 ∧
    ∃ s : Startup, s.pc = .running ∧ s.pool.eventLoops = [some (.loop 0)] := by
  obtain ⟨s, hs, hterminated, hmain, hrunner⟩ : ∃ s : Startup,
      Machine.run Startup.step (fun _ _ => True) (new 1) oneReactor = some s ∧ s.terminated = false ∧
        s.step .main = none ∧ ∀ i ok, s.step (.runner i ok) = none := by
    refine ⟨_, rfl, rfl, rfl, fun i ok => ?_⟩
    cases i <;> rfl
  obtain ⟨hlength, hdone⟩ := starts_up hs
  obtain ⟨hpc, hloops, -⟩ := hdone hterminated hmain hrunner
  exact ⟨hlength, s, hpc, hloops⟩

end Startup

end EpollServer
