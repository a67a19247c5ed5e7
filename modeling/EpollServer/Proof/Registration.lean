import EpollServer.Epoller
import EpollServer.Lib.Machine

/-!
# What a channel knows of its registration

`in_epoll` follows the kernel's table exactly: it decides between `ADD` and `MOD`, so neither meets an item
that it does not expect. The registered events follow `listening_events` only as long as no registration
failed, for the events are set before the system call.
-/

namespace EpollServer

variable {ι : Type*}

/-- **What `epoll_ctl` can do**: a success is about an item that is there, or is not there for `ADD`; a
failure changes nothing, and says so when it is about the item. -/
theorem EpollTable.ctl_spec {table table' : EpollTable ι} {op : EpollCtl} {fd : Fd}
    {event : ι × EpollEvents} {r : CtlResult} (h : table.ctl op fd event r = some table') :
    (r = .ok ∧ (op = .add ↔ table fd = none) ∧
        table' = Function.update table fd (if op = .del then none else some event)) ∨
      (r.isOk = false ∧ table' = table ∧ (r = .eexist → op = .add ∧ table fd ≠ none) ∧
        (r = .enoent → op ≠ .add ∧ table fd = none) ∧ (op = .del → table fd = none)) := by
  cases op with
  | add =>
      cases r with
      | ok =>
          obtain ⟨hfree, h⟩ := Option.ite_none_right_eq_some.mp h
          cases h
          exact .inl ⟨rfl, by simp [hfree], by simp⟩
      | eexist =>
          obtain ⟨hthere, h⟩ := Option.ite_none_left_eq_some.mp h
          cases h
          exact .inr ⟨rfl, rfl, fun _ => ⟨rfl, hthere⟩, by simp, by simp⟩
      | enoent => cases h
      | exhausted =>
          cases h
          exact .inr ⟨rfl, rfl, by simp, by simp, by simp⟩
  | mod =>
      cases r with
      | ok =>
          obtain ⟨hthere, h⟩ := Option.ite_none_left_eq_some.mp h
          cases h
          exact .inl ⟨rfl, by simp [hthere], by simp⟩
      | eexist => cases h
      | enoent =>
          obtain ⟨hfree, h⟩ := Option.ite_none_right_eq_some.mp h
          cases h
          exact .inr ⟨rfl, rfl, by simp, fun _ => ⟨by simp, hfree⟩, by simp⟩
      | exhausted =>
          cases h
          exact .inr ⟨rfl, rfl, by simp, by simp, by simp⟩
  | del =>
      cases r with
      | ok =>
          obtain ⟨hthere, h⟩ := Option.ite_none_left_eq_some.mp h
          cases h
          exact .inl ⟨rfl, by simp [hthere], by simp⟩
      | enoent =>
          obtain ⟨hfree, h⟩ := Option.ite_none_right_eq_some.mp h
          cases h
          exact .inr ⟨rfl, rfl, by simp, fun _ => ⟨by simp, hfree⟩, fun _ => hfree⟩
      | eexist | exhausted => cases h

namespace Channel

@[simp]
theorem clientFd_request (chan : Channel) (f : Request) (ok : Bool) :
    (chan.request f ok).clientFd = chan.clientFd := by
  cases f <;> cases ok <;> cases hin : chan.inEpoll <;>
    simp [request, enableET, enableRead, enableWrite, deleteChannel, undateChannel, listen, hin]

/-- The calls that register: `in_epoll` is set by a success, and a failure is kept for good. -/
theorem request_register (chan : Channel) {f : Request} (hf : f ≠ .deleteChannel) (ok : Bool) :
    (chan.request f ok).inEpoll = (chan.inEpoll || ok) ∧
      (chan.request f ok).failed = (chan.failed || !ok) := by
  cases f with
  | deleteChannel => exact absurd rfl hf
  | enableET | enableRead | enableWrite =>
      cases ok <;> cases hin : chan.inEpoll <;>
        simp [request, enableET, enableRead, enableWrite, undateChannel, listen, hin]

theorem requestCtl_register (chan : Channel) {f : Request} (hf : f ≠ .deleteChannel) :
    chan.requestCtl f = if chan.inEpoll then .mod else .add := by
  cases f with
  | deleteChannel => exact absurd rfl hf
  | enableET | enableRead | enableWrite => rfl

/-- The channel of `i` and the item of its descriptor agree. -/
structure Tracks (chan : Channel) (i : ι) (item : Option (ι × EpollEvents)) : Prop where
  absent : chan.inEpoll = false → item = none
  present : chan.inEpoll = true → ∃ events, item = some (i, events) ∧
    (chan.failed = false → events = chan.listeningEvents)

variable {chan : Channel} {i : ι} {table table' : EpollTable ι} {f : Request} {r : CtlResult}

theorem Tracks.register (hc : chan.Tracks i (table chan.clientFd)) (hf : f ≠ .deleteChannel)
    (h : table.ctl (chan.requestCtl f) chan.clientFd (i, (chan.request f r.isOk).listeningEvents) r
      = some table') :
    (chan.request f r.isOk).Tracks i (table' chan.clientFd) ∧ r ≠ .eexist ∧ r ≠ .enoent := by
  obtain ⟨hin, hfailed⟩ := chan.request_register hf r.isOk
  rw [chan.requestCtl_register hf] at h
  rcases EpollTable.ctl_spec h with ⟨rfl, -, rfl⟩ | ⟨hr, rfl, heexist, henoent, -⟩
  · have hin : (chan.request f CtlResult.ok.isOk).inEpoll = true := hin.trans (Bool.or_true _)
    refine ⟨⟨fun h => absurd (hin.symm.trans h) (by decide), fun _ => ⟨_, ?_, fun _ => rfl⟩⟩, by simp,
      by simp⟩
    · rw [Function.update_self]
      cases chan.inEpoll <;> rfl
  · rw [hr, Bool.or_false] at hin
    rw [hr, Bool.not_false, Bool.or_true] at hfailed
    rw [hr]
    refine ⟨⟨fun h => hc.absent (hin.symm.trans h), fun h => ?_⟩, fun h => ?_, fun h => ?_⟩
    · obtain ⟨events, hitem, -⟩ := hc.present (hin.symm.trans h)
      exact ⟨events, hitem, fun h => absurd (hfailed.symm.trans h) (by decide)⟩
    · obtain ⟨hadd, hthere⟩ := heexist h
      cases hin : chan.inEpoll with
      | false => exact hthere (hc.absent hin)
      | true => simp [hin] at hadd
    · obtain ⟨hmod, hfree⟩ := henoent h
      cases hin : chan.inEpoll with
      | false => simp [hin] at hmod
      | true =>
          obtain ⟨events, hitem, -⟩ := hc.present hin
          rw [hfree] at hitem
          cases hitem

theorem Tracks.delete (h : table.ctl .del chan.clientFd (i, (chan.request .deleteChannel
      r.isOk).listeningEvents) r = some table') :
    (chan.request .deleteChannel r.isOk).Tracks i (table' chan.clientFd) := by
  have hin : (chan.request .deleteChannel r.isOk).inEpoll = false := rfl
  refine ⟨fun _ => ?_, fun h => absurd (hin.symm.trans h) Bool.false_ne_true⟩
  rcases EpollTable.ctl_spec h with ⟨-, -, rfl⟩ | ⟨-, rfl, -, -, hfree⟩
  · rw [Function.update_self]
    rfl
  · exact hfree rfl

end Channel

namespace Epollers

variable {s s' : Epollers ι} {i : ι} {f : Channel.Request} {r : CtlResult}

/-- Every channel agrees with the item of its descriptor, and the descriptors are distinct. -/
structure Tracked (s : Epollers ι) : Prop where
  distinct : ∀ i j, (s.channels i).clientFd = (s.channels j).clientFd → i = j
  tracks : ∀ i, (s.channels i).Tracks i (s.item i)

theorem Fresh.tracked (hs : s.Fresh) : s.Tracked := by
  refine ⟨hs.distinct, fun i => ⟨fun _ => hs.absent i, fun h => ?_⟩⟩
  obtain ⟨fd, tied, hnew⟩ := hs.new i
  rw [hnew] at h
  cases h

variable [DecidableEq ι]

theorem step_cases (h : s.step (i, f, r) = some s') : ∃ table,
    (s.epoll (s.eventLoop i)).ctl ((s.channels i).requestCtl f) (s.channels i).clientFd
        (i, ((s.channels i).request f r.isOk).listeningEvents) r = some table ∧
      s' = { s with
        channels := Function.update s.channels i ((s.channels i).request f r.isOk)
        epoll := Function.update s.epoll (s.eventLoop i) table } := by
  obtain ⟨table, hctl, h⟩ := Option.bind_eq_some_iff.mp h
  rw [Channel.clientFd_request] at hctl
  exact ⟨table, hctl, (Option.some.inj h).symm⟩

theorem clientFd_step (h : s.step (i, f, r) = some s') (j : ι) :
    (s'.channels j).clientFd = (s.channels j).clientFd := by
  obtain ⟨table, -, rfl⟩ := step_cases h
  by_cases hj : j = i
  · subst hj
    simp
  · simp [Function.update_of_ne hj]

/-- **A call on one channel leaves the items of all others alone.** -/
theorem item_of_ne {j : ι} (hdistinct : (s.channels j).clientFd ≠ (s.channels i).clientFd)
    (h : s.step (i, f, r) = some s') : s'.item j = s.item j := by
  have hfd := clientFd_step h j
  obtain ⟨table, hctl, rfl⟩ := step_cases h
  rw [item, item, hfd]
  by_cases hloop : s.eventLoop j = s.eventLoop i
  · dsimp only
    rw [hloop, Function.update_self]
    rcases EpollTable.ctl_spec hctl with ⟨-, -, rfl⟩ | ⟨-, rfl, -⟩
    · rw [Function.update_of_ne hdistinct]
    · rfl
  · dsimp only
    rw [Function.update_of_ne hloop]

theorem Tracked.step (hs : s.Tracked) (h : s.step (i, f, r) = some s') :
    s'.Tracked ∧ (f ≠ .deleteChannel → r ≠ .eexist ∧ r ≠ .enoent) := by
  have hi := hs.tracks i
  obtain ⟨table, hctl, hs'⟩ := step_cases h
  have hitem : s'.item i = table (s.channels i).clientFd := by
    rw [item, clientFd_step h, hs']
    dsimp only
    rw [Function.update_self]
  have hchannel : s'.channels i = (s.channels i).request f r.isOk := by
    rw [hs']
    exact Function.update_self ..
  have hown : (s'.channels i).Tracks i (s'.item i) ∧ (f ≠ .deleteChannel → r ≠ .eexist ∧ r ≠ .enoent) := by
    rw [hitem, hchannel]
    by_cases hf : f = .deleteChannel
    · subst hf
      exact ⟨.delete hctl, fun h => absurd rfl h⟩
    · obtain ⟨htracks, hexpected⟩ := hi.register hf hctl
      exact ⟨htracks, fun _ => hexpected⟩
  refine ⟨⟨fun j k hfd => ?_, fun j => ?_⟩, hown.2⟩
  · rw [clientFd_step h, clientFd_step h] at hfd
    exact hs.distinct j k hfd
  · by_cases hj : j = i
    · exact hj ▸ hown.1
    · have hkept : s'.channels j = s.channels j := by
        rw [hs']
        exact Function.update_of_ne hj ..
      rw [item_of_ne (fun hfd => hj (hs.distinct j i hfd)) h, hkept]
      exact hs.tracks j

theorem tracked_of_reachable {ok : Epollers ι → ι × Channel.Request × CtlResult → Prop}
    (hs : Machine.Reachable step ok Fresh s) : s.Tracked :=
  hs.invariant (fun _ hs => hs.tracked) fun _ _ _ _ hinv _ h => (hinv.step h).1

/-- **A channel's view of epoll is the kernel's.** Whatever was called on the channels and whatever failed,
`in_epoll` says whether the channel's descriptor is registered for it, and the registered events are
`listening_events` unless a call on the channel failed. The next call finds what it expects, and changes no
other channel's item. -/
theorem view_exact (hs : Machine.Reachable step (fun _ _ => True) Fresh s) :
    (∀ i, (s.channels i).inEpoll = true ↔
        ∃ events, s.epoll (s.eventLoop i) (s.channels i).clientFd = some (i, events)) ∧
      (∀ i, (s.channels i).inEpoll = true → (s.channels i).failed = false →
        s.epoll (s.eventLoop i) (s.channels i).clientFd = some (i, (s.channels i).listeningEvents)) ∧
      ∀ i f r s', s.step (i, f, r) = some s' →
        (f ≠ .deleteChannel → r ≠ .eexist ∧ r ≠ .enoent) ∧
          ∀ j, j ≠ i → s'.channels j = s.channels j ∧
            s'.epoll (s.eventLoop j) (s.channels j).clientFd
              = s.epoll (s.eventLoop j) (s.channels j).clientFd := by
  have htracked := tracked_of_reachable hs
  refine ⟨fun i => ⟨fun hin => ?_, fun ⟨events, hitem⟩ => ?_⟩, fun i hin hfailed => ?_,
    fun i f r s' h => ⟨(htracked.step h).2, fun j hj => ?_⟩⟩
  · obtain ⟨events, hitem, -⟩ := (htracked.tracks i).present hin
    exact ⟨events, hitem⟩
  · by_contra hout
    have habsent := (htracked.tracks i).absent (Bool.eq_false_iff.mpr hout)
    rw [item, hitem] at habsent
    cases habsent
  · obtain ⟨events, hitem, hevents⟩ := (htracked.tracks i).present hin
    exact hevents hfailed ▸ hitem
  · have hkept := item_of_ne (fun hfd => hj (htracked.distinct j i hfd)) h
    rw [item, clientFd_step h] at hkept
    obtain ⟨table, -, rfl⟩ := step_cases h
    exact ⟨Function.update_of_ne hj .., hkept⟩

/-- The first registration of one channel fails, and the next one is an `ADD` again. -/
theorem view_exact_retry : ∃ s, Machine.run step (fun _ _ => True)
      ⟨fun i => .new (i + 3) false, fun _ => 0, fun _ _ => none⟩
      [(0, .enableET, .exhausted), (1, .enableET, .ok), (0, .enableRead, .ok), (0, .deleteChannel, .ok),
        (0, .deleteChannel, .enoent), (1, .enableWrite, .ok), (0, .enableWrite, .ok)] = some s ∧
    s.epoll 0 4 = some (1, ⟨false, false, true, false, false, false, true⟩) := by
  have hfresh : Fresh (⟨fun i => .new (i + 3) false, fun _ => 0, fun _ _ => none⟩ : Epollers Nat) :=
    ⟨fun i => ⟨i + 3, false, rfl⟩, fun i j hfd => Nat.add_right_cancel hfd, fun _ => rfl⟩
  obtain ⟨s, hrun, hin, hfailed, hloop, hchannel⟩ : ∃ s, Machine.run step (fun _ _ => True)
        ⟨fun i => .new (i + 3) false, fun _ => 0, fun _ _ => none⟩
        [(0, .enableET, .exhausted), (1, .enableET, .ok), (0, .enableRead, .ok), (0, .deleteChannel, .ok),
          (0, .deleteChannel, .enoent), (1, .enableWrite, .ok), (0, .enableWrite, .ok)] = some s ∧
      (s.channels 1).inEpoll = true ∧ (s.channels 1).failed = false ∧ s.eventLoop 1 = 0 ∧
      s.channels 1 = ⟨4, ⟨false, false, true, false, false, false, true⟩, .none, true, false, false⟩ :=
    ⟨_, rfl, rfl, rfl, rfl, rfl⟩
  have hitem := (view_exact (.run (.init hfresh) hrun)).2.1 1 hin hfailed
  rw [hloop, hchannel] at hitem
  exact ⟨s, hrun, hitem⟩

end Epollers

end EpollServer
