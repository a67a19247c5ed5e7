import EpollServer.Lib.Interleaving
import EpollServer.Proof.Logging

/-!
# The order of a log

Threads log at the same time, and each call of `Log` takes the mutex twice. What is pushed is nevertheless
made of whole calls: each thread contributes its calls, one record for each, in the order in which it made
them.
-/

namespace EpollServer

/-- What a call of `Log` contributes to the queue of an asynchronous object. -/
def LogCall.contributes (call : LogCall) : List String :=
  if call.level.value < logLevel then [] else [call.record]

/-- What a thread asks to be recorded. -/
def LogLabel.requests : LogLabel → List String
  | .log call => call.contributes
  | .fatal name err message => [(⟨.fatal, name, err, message⟩ : LogCall).record]
  | .openFile none => [asyncThreadRunning.record]
  | _ => []

/-- The record that a thread has yet to push. -/
def LoggerPc.outstanding : LoggerPc → List String
  | .log call .testLevel _ => call.contributes
  | .log _ .clear _ | .log _ .unlock _ => []
  | .log call _ _ => [call.record]
  | _ => []

@[simp]
theorem LogReturn.outstanding_pc (ret : LogReturn) : ret.pc.outstanding = [] := by cases ret <;> rfl

namespace LoggerInner

variable {l l' : LoggerInner} {thread : Nat} {pc' : LoggerPc} {label : LogLabel}

/-- The record of a call is outstanding until it is pushed. -/
theorem outstanding_advanceLog {call : LogCall} {pc : LogPc} {ret : LogReturn}
    (hasync : (l.isAsync && !l.asyncThreadFailed) = true)
    (h : l.advanceLog thread call pc ret = some (l', pc')) :
    (LoggerPc.log call pc ret).outstanding = (if pc = .push then [call.record] else []) ++ pc'.outstanding := by
  cases pc with
  | testLevel =>
      cases h
      change call.contributes = _
      rw [LogCall.contributes]
      split
      · exact ret.outstanding_pc.symm
      · cases l.isPrintCout <;> rfl
  | testAsync =>
      cases h
      rw [if_pos hasync]
      rfl
  | lockCout | lock =>
      obtain ⟨-, rfl⟩ := acquire_eq_some h
      rfl
  | push =>
      cases h
      rfl
  | unlock =>
      cases h
      exact ret.outstanding_pc.symm
  | print | unlockCout | format | clear =>
      cases h
      rfl

theorem requests_of_advanceDrain {pc : DrainPc} (h : l.advanceDrain thread pc label = some (l', pc')) :
    label.requests = [] := by
  cases label with
  | tau | write | flush => rfl
  | log | fatal | openFile => cases pc <;> cases h

end LoggerInner

namespace Logger

open Interleaving

variable {s s' t : Logger} {action : Nat × LogLabel} {isPrintCout : Bool} {thread : Nat}

/-- What an asynchronous object makes of the statement of a thread in `Log`. -/
theorem Switched.logs_eq (hw : s.Switched) {u : Nat} {call : LogCall} {pc : LogPc} {ret : LogReturn}
    (hpc : s.pcs u = .log call pc ret) : s.logs u = if pc = .push then [call.record] else [] := by
  rw [logs, hpc]
  cases pc with
  | testAsync =>
      change (if (s.inner.isAsync && !s.inner.asyncThreadFailed) = true then [] else [call.record]) = _
      rw [hw.isAsync, hw.asyncThreadFailed]
      rfl
  | testLevel | lockCout | print | unlockCout | lock | format | push | clear | unlock => rfl

/-- **What a thread asks for is what it pushes and has yet to push.** -/
theorem Switched.outstanding_step (hw : s.Switched) (hopen : action.2.failsToOpen = false)
    (h : s.step action = some s') :
    (s.pcs action.1).outstanding ++ action.2.requests = s.logs action.1 ++ (s'.pcs action.1).outstanding := by
  obtain ⟨inner, pc, hadvance, rfl⟩ := step_cases h
  obtain ⟨u, label⟩ := action
  change (s.pcs u).outstanding ++ label.requests =
    s.logs u ++ (Function.update s.pcs u pc u).outstanding
  rw [Function.update_self]
  change s.inner.advance u (s.pcs u) label = some (inner, pc) at hadvance
  cases hpc : s.pcs u with
  | idle =>
      rw [hpc] at hadvance
      rw [logs, hpc]
      cases label with
      | log | fatal =>
          cases hadvance
          rfl
      | tau | openFile | write | flush => cases hadvance
  | log call logPc ret =>
      rw [hpc] at hadvance
      cases label with
      | tau =>
          rw [hw.logs_eq hpc]
          change _ ++ [] = _
          rw [List.append_nil]
          exact LoggerInner.outstanding_advanceLog (by rw [hw.isAsync, hw.asyncThreadFailed]; rfl) hadvance
      | log | fatal | openFile | write | flush => cases hadvance
  | terminate =>
      rw [hpc] at hadvance
      cases hadvance
  | asyncThreadFunc =>
      rw [hpc] at hadvance
      rw [logs, hpc]
      cases label with
      | openFile err =>
          cases err with
          | none =>
              cases hadvance
              rfl
          | some => cases hopen
      | log | fatal | tau | write | flush => cases hadvance
  | drain drainPc =>
      rw [hpc] at hadvance
      obtain ⟨-, drainPc', rfl⟩ := LoggerInner.advanceDrain_leaves hadvance
      rw [LoggerInner.requests_of_advanceDrain hadvance, logs, hpc]
      rfl
  | setFailed =>
      rw [hpc] at hadvance
      rw [logs, hpc]
      cases label with
      | tau =>
          cases hadvance
          rfl
      | log | fatal | openFile | write | flush => cases hadvance

/-- What is pushed is an interleaving of what the threads asked for, less what they have yet to push. -/
structure Merged (requests : Nat → List String) (s : Logger) : Prop where
  sound : s.Sound
  switched : s.Switched
  merges : ∃ parts, Merges parts s.history.pushed ∧ ∀ u, parts u ++ (s.pcs u).outstanding = requests u

theorem merged_startAasync : ((new isPrintCout).startAasync thread).Merged fun _ => [] where
  sound := sound_startAasync
  switched := switched_startAasync
  merges := by
    refine ⟨fun _ => [], .nil, ?_⟩
    exact (Function.forall_update_iff _ fun _ (pc : LoggerPc) => [] ++ pc.outstanding = []).mpr
      ⟨rfl, fun _ _ => rfl⟩

theorem Merged.step {requests : Nat → List String} (hs : s.Merged requests)
    (hopen : action.2.failsToOpen = false) (h : s.step action = some s') :
    s'.Merged (Function.update requests action.1 (requests action.1 ++ action.2.requests)) where
  sound := hs.sound.step h
  switched := hs.switched.step hopen h
  merges := by
    obtain ⟨parts, hmerges, hparts⟩ := hs.merges
    refine ⟨Function.update parts action.1 (parts action.1 ++ s.logs action.1), ?_, fun u => ?_⟩
    · rw [hs.sound.pushed_step hs.switched h]
      exact hmerges.append action.1 _
    · by_cases heq : u = action.1
      · subst heq
        rw [Function.update_self, Function.update_self, List.append_assoc,
          ← hs.switched.outstanding_step hopen h, ← List.append_assoc, hparts]
      · rw [Function.update_of_ne heq, Function.update_of_ne heq, ← hparts u]
        obtain ⟨inner, pc, -, rfl⟩ := step_cases h
        change _ ++ (Function.update s.pcs action.1 pc u).outstanding = _
        rw [Function.update_of_ne heq]

/-- **The log is made of whole calls, in the order of each thread.** What was pushed is an interleaving of what
each thread pushed; and that, with the record that the thread has yet to push, is what it asked for. -/
theorem recorded_in_order {as : List (Nat × LogLabel)}
    (h : Machine.run Logger.step (fun _ action => action.2.failsToOpen = false)
      ((new isPrintCout).startAasync thread) as = some t) :
    ∃ parts, Merges parts t.history.pushed ∧
      ∀ u, parts u ++ (t.pcs u).outstanding = produced LogLabel.requests as u := by
  have hend := Machine.run_refines (R := fun s requests => s.Merged requests)
    (fun _ requests action _ hs hopen h => hs.step hopen h) merged_startAasync h
  obtain ⟨parts, hmerges, hparts⟩ := hend.merges
  refine ⟨parts, hmerges, fun u => ?_⟩
  rw [hparts, foldl_produced]
  rfl

/-- One thread calls `Log` before another and prints after it. -/
def overtaken : List (Nat × LogLabel) :=
  opening ++ [(1, .write none), (1, .tau), (1, .tau), (1, .flush true), (1, .tau),
    (2, .log ⟨.error, "Connection::Send", "Connection reset by peer", "send failed"⟩),
    (3, .log ⟨.info, "Server::Start", "", "server starting"⟩)] ++
    List.replicate 10 (3, .tau) ++ List.replicate 10 (2, .tau)

theorem recorded_in_order_overtaken : ∃ (t : Logger) (parts : Nat → List String),
    Merges parts t.history.pushed ∧
      parts 2 = [(⟨.error, "Connection::Send", "Connection reset by peer", "send failed"⟩ : LogCall).record] ∧
      parts 3 = [(⟨.info, "Server::Start", "", "server starting"⟩ : LogCall).record] := by
  have hview : (Machine.run Logger.step (fun _ action => action.2.failsToOpen = false)
      ((new true).startAasync 1) overtaken).map (fun t => (t.pcs 2, t.pcs 3)) = some (.idle, .idle) := rfl
  obtain ⟨t, hrun, hend⟩ := Option.map_eq_some_iff.mp hview
  obtain ⟨hpc₂, hpc₃⟩ := Prod.mk.inj hend
  obtain ⟨parts, hmerges, hparts⟩ := recorded_in_order hrun
  have h₂ := hparts 2
  have h₃ := hparts 3
  rw [hpc₂] at h₂
  rw [hpc₃] at h₃
  exact ⟨t, parts, hmerges, (List.append_nil _).symm.trans h₂, (List.append_nil _).symm.trans h₃⟩

end Logger

end EpollServer
