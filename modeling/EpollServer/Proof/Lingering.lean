import EpollServer.Proof.Dispatch
import EpollServer.Proof.Stranding

/-!
# Connections that cannot be registered

`Epoller::UndateChannel` tells of a failed `epoll_ctl` by `SetFailed` only, and nothing asks `IsFailed`. The
constructor registers a connection without `EPOLLIN`, and `EnableRead` tries again, whatever the outcome of
the first attempt. So the second one alone decides: if it succeeds, the connection is watched until
`ConnectionDestructor`; if it fails, none of its handlers ever does anything, and the connection lingers.
-/

namespace EpollServer

namespace Slot

variable {n : Nat} {slot slot' : Slot}

theorem Change.listening (h : slot.Change n slot')
    (hlistening : Stage.enableRead.index < slot.stage.index →
      slot.session.conn.channel.listeningEvents.epollin = true)
    (hlate : Stage.enableRead.index < slot'.stage.index) :
    slot'.session.conn.channel.listeningEvents.epollin = true := by
  cases h with
  | construct => exact absurd hlate (by simp [new, Stage.index])
  | @establish ok =>
      unfold Slot.establish at hlate ⊢
      cases hstage : slot.stage with
      | enableRead =>
          simp [goOn, Connection.enableRead, Channel.enableRead, Channel.listen, EpollEvents.union]
      | onConnect | done => exact hlistening (by rw [hstage]; decide)
      | _ =>
          rw [hstage] at hlate
          exact absurd hlate (by simp [goOn, hstage, Stage.index])
  | session hstep =>
      have hbefore := hlistening hlate
      rcases Session.step_listening hstep with heq | heq <;> simp [heq, hbefore, EpollEvents.union]
  | finish heq =>
      rw [heq]
      exact hlistening hlate

/-- A connection whose handlers have not done anything. -/
structure Idle (slot : Slot) : Prop where
  stack : slot.session.stack = []
  closes : slot.session.history.closes = 0
  connected : Stage.tie.index ≤ slot.stage.index → slot.session.conn.state = .connected

theorem idle_new (loop : Nat) (fd : Fd) (state : ConnectionState) (tied ok : Bool) :
    (new (.new loop fd state tied ok)).Idle where
  stack := rfl
  closes := rfl
  connected h := absurd h (by simp [new, Stage.index])

theorem Idle.establish (hs : slot.Idle) (ok : Bool) : (slot.establish ok).Idle := by
  refine ⟨?_, ?_, ?_⟩
  · obtain ⟨stage, conn, heq⟩ := slot.establish_frame ok
    rw [heq]
    exact hs.stack
  · obtain ⟨stage, conn, heq⟩ := slot.establish_frame ok
    rw [heq]
    exact hs.closes
  · unfold Slot.establish
    cases hstage : slot.stage with
    | setConnected => exact fun _ => rfl
    | tie | enableRead | onConnect | done => exact fun _ => hs.connected (by simp [hstage, Stage.index])
    | _ => simp [goOn, hstage, Stage.index]

theorem Idle.handleEvent (hs : slot.Idle) {events : EpollEvents} {session : Session}
    (hstep : slot.session.step (.event events) = some session) (hread : events.isReadable = false)
    (hwrite : events.isWritable = false) : { slot with session := session }.Idle := by
  rw [Session.step, hs.stack] at hstep
  cases hstep
  exact ⟨Session.handleEvent_unhandled hread hwrite, hs.closes, hs.connected⟩

theorem Idle.setChannel (hs : slot.Idle) (hstage : slot'.stage = slot.stage) {channel : Channel}
    (hsession : slot'.session = { slot.session with
      conn := { slot.session.conn with channel := channel } }) : slot'.Idle := by
  refine ⟨?_, ?_, fun hlate => ?_⟩
  · rw [hsession]
    exact hs.stack
  · rw [hsession]
    exact hs.closes
  · rw [hsession]
    exact hs.connected (hstage ▸ hlate)

end Slot

namespace Server

variable {s s' : Server} {t c : Nat} {move : Move} {o : Outcome}

/-- The loop of connection `c` waits for its bytes. -/
def Watched (s : Server) (c : Nat) : Prop :=
  ∃ events, s.epoll (s.slots c).eventLoop (s.slots c).fd = some (c, events) ∧ events.epollin = true

/-- A connection that nobody is about to close and that no bytes can wake. -/
structure Lingers (s : Server) (c : Nat) : Prop where
  listed : s.connectionsMap (s.slots c).fd = some c
  connected : (s.slots c).session.conn.state = .connected
  unclosed : (s.slots c).session.history.closes = 0
  unwatched : ¬s.Watched c

/-- The connection whose `HandleNewConnection` a step goes on with, and the outcome of its `epoll_ctl`. -/
def establishes (s : Server) (action : Nat × Move) : Option (Nat × Bool) :=
  match s.threads action.1, action.2 with
  | ⟨.newConnection c _, []⟩, .next ok => some (c, ok)
  | _, _ => none

/-- The `epoll_ctl` of `EnableRead` has outcome `ok` for connection `c`. -/
def EnablesRead (c : Nat) (ok : Bool) (s : Server) (action : Nat × Move) : Prop :=
  ∀ step ∈ s.establishes action, step.1 = c → (s.slots c).stage = .enableRead → step.2 = ok

/-- Any other `epoll_ctl` may fail, unless it removes a descriptor that is registered. -/
def Registering (c : Nat) (ok : Bool) (s : Server) (action : Nat × Move) : Prop :=
  s.Deregisters action ∧ EnablesRead c ok s action

instance (c : Nat) (ok : Bool) (s : Server) (action : Nat × Move) :
    Decidable (Registering c ok s action) := by
  unfold Registering EnablesRead
  infer_instance

theorem undateChannel_isSome {ok : Bool} {l : Nat} {fd : Fd} (hentry : (s.epoll l fd).isSome) :
    ((s.undateChannel c ok).epoll l fd).isSome := by
  unfold undateChannel
  cases ok with
  | false => exact hentry
  | true =>
      by_cases hl : l = (s.slots c).eventLoop
      · subst hl
        by_cases hfd : fd = (s.slots c).fd
        · subst hfd
          simp
        · simpa [hfd] using hentry
      · simpa [hl] using hentry

/-- Only `ConnectionDestructor` and the destructor empty a place in an epoll set. -/
theorem epoll_apply_isSome (effect : Effect) {l : Nat} {fd : Fd} (hentry : (s.epoll l fd).isSome) :
    ((s.apply t effect).epoll l fd).isSome ∨
      (∃ l' c ok, effect = .connectionDestructor l' c ok ∧ fd = (s.slots c).fd) ∨
      ∃ c, effect = .close c ∧ fd = (s.slots c).fd := by
  cases effect with
  | construct c fd' state tied ok => exact .inl (undateChannel_isSome hentry)
  | establish c ok =>
      refine .inl ?_
      rw [apply, epoll_newConnection]
      split
      · exact undateChannel_isSome hentry
      · exact hentry
  | session c label session =>
      refine .inl ?_
      rw [apply, epoll_runSession]
      split
      · exact undateChannel_isSome hentry
      · exact hentry
  | handleCloseInLoop l' c =>
      refine .inl ?_
      cases h : s.connectionsMap (s.slots c).fd with
      | none =>
          rw [apply, handleCloseInLoop_of_none s t c h]
          exact hentry
      | some e =>
          rw [apply, handleCloseInLoop_of_some s t c h]
          exact hentry
  | connectionDestructor l' c ok =>
      by_cases hfd : fd = (s.slots c).fd
      · exact .inr (.inl ⟨l', c, ok, rfl, hfd⟩)
      · refine .inl ?_
        cases ok with
        | false => exact hentry
        | true =>
            change (Function.update s.epoll (s.slots c).eventLoop
              (Function.update (s.epoll (s.slots c).eventLoop) (s.slots c).fd none) l fd).isSome
            by_cases hl : l = (s.slots c).eventLoop
            · subst hl
              rwa [Function.update_self, Function.update_of_ne hfd]
            · rwa [Function.update_of_ne hl]
  | close c =>
      by_cases hfd : fd = (s.slots c).fd
      · exact .inr (.inr ⟨c, rfl, hfd⟩)
      · refine .inl ?_
        change (Function.update (s.epoll l) _ _ fd).isSome
        rwa [Function.update_of_ne hfd]
  | none | copy | drop | accept | expire => exact .inl hentry

section Step

variable (hs : s.Sound) (hw : s.Wired) (hh : s.Homed) (ht : t ≤ s.threadNums) (h : Goes s t move o)
include hw h

theorem Goes.enableRead {ok : Bool} (hok : EnablesRead c ok s (t, move))
    (hbefore : (s.slots c).stage.index ≤ Stage.enableRead.index)
    (hafter : Stage.enableRead.index < ((s.after t o).slots c).stage.index) :
    (s.slots c).stage = .enableRead ∧ (s.after t o).slots c = (s.slots c).establish ok ∧
      (s.after t o).epoll = ((s.setSlot c ((s.slots c).establish ok)).undateChannel c ok).epoll := by
  have hsetsUp : o.effect.SetsUp c := by
    by_contra heffect
    rw [show ((s.after t o).slots c).stage = _ from stage_apply heffect] at hafter
    omega
  cases h with
  | construct =>
      obtain rfl := hsetsUp
      change _ < (Function.update s.slots _ _ _).stage.index at hafter
      rw [Function.update_self] at hafter
      exact absurd hafter (by simp [Slot.new, Stage.index])
  | @insert c' rest ok' hthread | @onConnect c' rest ok' hthread | @establish c' rest ok' hthread =>
      obtain rfl : c' = c := hsetsUp
      have hslot : (s.newConnection t c' ok').slots c' = (s.slots c').establish ok' := by
        rw [slots_newConnection, Function.update_self]
      obtain ⟨hconstructed, hdone⟩ := hw.establishing t _ _ (by rw [hthread])
      have hstage : (s.slots c').stage = .enableRead := by
        change _ < ((s.newConnection t c' ok').slots c').stage.index at hafter
        rw [hslot, Slot.index_establish_of hconstructed hdone] at hafter
        exact Stage.index_injective (by omega)
      obtain rfl : ok' = ok := hok (c', ok') (by rw [establishes, hthread]; rfl) rfl hstage
      refine ⟨hstage, hslot, ?_⟩
      change (s.newConnection t c' ok').epoll = _
      rw [epoll_newConnection, if_pos hstage]
  | _ => exact hsetsUp.elim

include hs hh ht

/-- A connection that is not deregistered keeps its place in the epoll set. -/
theorem Sound.epoll_isSome (hafter : (s.after t o).Sound) (hconstructed : (s.slots c).stage ≠ .construct)
    (hregistered : ((s.after t o).slots c).unregistered = 0) {l : Nat}
    (hentry : (s.epoll l (s.slots c).fd).isSome) :
    ((s.after t o).epoll l (s.slots c).fd).isSome := by
  have hcount := (hs.counts hw ht h c).unregistered
  rcases epoll_apply_isSome (t := t) o.effect hentry with hkept | ⟨l', c', ok, heffect, hfd⟩ |
    ⟨c', heffect, hfd⟩
  · exact hkept
  · -- who is deregistered with the descriptor of `c` is `c` itself
    have hcount' := (hs.counts hw ht h c').unregistered
    have hle := hafter.chain c'
    have htouched : (s.slots c').stage ≠ .construct := by
      rcases hs.touched hw hh ht h (c := c') (by rw [heffect]; rfl) with hc | ⟨_, _, _, _, heq⟩
      · exact hc
      · rw [heffect] at heq
        cases heq
    rw [heffect] at hcount hcount'
    simp only [Effect.called, List.count_singleton_self] at hcount'
    obtain rfl := hs.fd_injective hh hconstructed htouched (by omega) (by omega) hfd
    simp only [Effect.called, List.count_singleton_self] at hcount
    omega
  · -- and whose descriptor is closed, too
    have hfile := (hs.present hh hconstructed (by omega)).2.2
    rw [hfd, (hs.open_of_close ht h heffect).2] at hfile
    obtain rfl := Option.some.inj hfile
    have hclosed := (hs.counts hw ht h c').closed
    rw [heffect] at hclosed
    simp only [Effect.closes, List.count_singleton_self] at hclosed
    have hpresent := (hafter.present (hh.after hw h) (h.constructed hw hconstructed) hregistered).2.1
    omega

end Step

/-- Reading is enabled on connection `c`, and its loop knows. -/
structure Registered (s : Server) (c : Nat) : Prop where
  listening : Stage.enableRead.index < (s.slots c).stage.index →
    (s.slots c).session.conn.channel.listeningEvents.epollin = true
  watched : Stage.enableRead.index < (s.slots c).stage.index → (s.slots c).unregistered = 0 → s.Watched c

/-- Nothing was registered of connection `c` that its handlers react to. -/
structure Muted (s : Server) (c : Nat) : Prop where
  idle : (s.slots c).Idle
  epoll : ∀ l fd registered, s.epoll l fd = some (c, registered) → registered = .et
  ready : ∀ t fd events, .conn fd c events ∈ (s.threads t).pc.ready →
    events.isReadable = false ∧ events.isWritable = false

theorem Fresh.registered (hs : s.Fresh) (c : Nat) : s.Registered c := by
  have hstage : (s.slots c).stage = .construct := by
    rw [hs.slots]
    rfl
  constructor <;> exact fun hlate => absurd hlate (by rw [hstage]; decide)

theorem Fresh.muted (hs : s.Fresh) (c : Nat) : s.Muted c where
  idle := by
    rw [hs.slots]
    exact { Slot.idle_new 0 0 .invalid false false with connected := fun h => absurd h (by decide) }
  epoll l fd registered h := by
    rw [hs.epoll] at h
    cases h
  ready t fd events h := by
    rw [hs.threads] at h
    cases h

section Step

variable (hw : s.Wired) (h : Goes s t move o)
include hw h

theorem Registered.after (hs : s.Sound) (hh : s.Homed) (ht : t ≤ s.threadNums)
    (hafter : (s.after t o).Sound) (hok : EnablesRead c true s (t, move))
    (hc : s.Registered c) : (s.after t o).Registered c := by
  have hlistening (hlate : Stage.enableRead.index < ((s.after t o).slots c).stage.index) :
      ((s.after t o).slots c).session.conn.channel.listeningEvents.epollin = true := by
    rcases h.slots hw c with heq | hchange
    · rw [heq] at hlate ⊢
      exact hc.listening hlate
    · exact hchange.listening hc.listening hlate
  refine ⟨hlistening, fun hlate hregistered => ?_⟩
  by_cases hbefore : Stage.enableRead.index < (s.slots c).stage.index
  · -- the place in the epoll set is kept, and no other connection has the descriptor
    have hconstructed : (s.slots c).stage ≠ .construct := fun hstage =>
      absurd hbefore (by rw [hstage]; decide)
    have hcount := (hs.counts hw ht h c).unregistered
    obtain ⟨events, hentry, hepollin⟩ := hc.watched hbefore (by omega)
    obtain ⟨hfd, hloop⟩ := h.fixed hw hconstructed
    have hkept := hs.epoll_isSome hw hh ht h hafter hconstructed hregistered
      (l := (s.slots c).eventLoop) (by rw [hentry]; rfl)
    obtain ⟨⟨c', registered⟩, hentry'⟩ := Option.isSome_iff_exists.mp hkept
    obtain ⟨hbelongs, hfd', -⟩ := (hw.after h).epoll _ _ _ _ hentry'
    obtain rfl := hafter.fd_injective (hh.after hw h) (h.constructed hw hconstructed)
      hbelongs.constructed hregistered (hafter.registered _ _ _ _ hentry') (hfd.trans hfd'.symm)
    refine ⟨registered, by rw [hloop, hfd]; exact hentry', ?_⟩
    rcases h.epoll hw hentry' with hold | ⟨-, -, -, rfl⟩
    · rw [hentry] at hold
      cases hold
      exact hepollin
    · exact hlistening hlate
  · obtain ⟨hstage, hslot, hepoll⟩ := h.enableRead hw hok (Nat.le_of_not_lt hbefore) hlate
    refine ⟨((s.after t o).slots c).session.conn.channel.listeningEvents, ?_, hlistening hlate⟩
    rw [hepoll, hslot]
    simp [undateChannel, setSlot]

omit hw in
theorem Muted.idle_after (hc : s.Muted c) : ((s.after t o).slots c).Idle := by
  rcases s.slots_apply_cases t c o.effect with heq | ⟨slot, htouched, heq⟩
  · rw [show (s.after t o).slots c = s.slots c from heq]
    exact hc.idle
  · rw [show (s.after t o).slots c = slot from heq]
    rcases s.touched_cases c htouched with hsetsUp | ⟨label, session, heffect, rfl⟩ |
      ⟨hstage, channel, hsession⟩
    · cases heffect : o.effect with
      | construct =>
          rw [heffect] at htouched
          cases htouched
          exact Slot.idle_new _ _ _ _ _
      | establish c' ok =>
          rw [heffect] at htouched
          cases htouched
          exact hc.idle.establish ok
      | _ =>
          rw [heffect] at hsetsUp
          exact hsetsUp.elim
    · obtain ⟨hstep, ⟨fd, events, rfl, hitem⟩ | ⟨hbusy, -⟩⟩ := h.session heffect
      · obtain ⟨hread, hwrite⟩ := hc.ready t fd events hitem
        exact hc.idle.handleEvent hstep hread hwrite
      · exact absurd hc.idle.stack hbusy
    · exact hc.idle.setChannel hstage hsession

theorem Muted.after (hok : EnablesRead c false s (t, move)) (hc : s.Muted c) : (s.after t o).Muted c where
  idle := hc.idle_after h
  epoll l fd registered hentry := by
    have hlate := ((hw.after h).epoll l fd c registered hentry).2.2
    by_cases hstage : ((s.after t o).slots c).stage.index ≤ Stage.enableRead.index
    · exact hlate hstage
    · by_cases hbefore : (s.slots c).stage.index ≤ Stage.enableRead.index
      · rw [(h.enableRead hw hok hbefore (Nat.lt_of_not_le hstage)).2.2] at hentry
        exact hc.epoll l fd registered hentry
      · rcases h.epoll hw hentry with hold | ⟨⟨-, hearly⟩ | ⟨hbusy, -⟩, -⟩
        · exact hc.epoll l fd registered hold
        · exact absurd hearly hbefore
        · exact absurd hc.idle.stack hbusy
  ready t' fd events hitem := by
    by_cases hne : t' = t
    · subst hne
      rw [threads_after_self] at hitem
      rcases h.ready hitem with hold | hreports
      · exact hc.ready t' fd events hold
      · obtain ⟨registered, hentry, hevents⟩ := entry_of_reports hreports
        rw [← hevents, hc.epoll t' fd registered hentry]
        exact EpollEvents.unhandled_of_et events
    · rw [threads_after_of_ne hne] at hitem
      exact hc.ready t' fd events hitem

end Step

theorem registered_of_reachable
    (hs : Machine.Reachable Server.step (Registering c true) Fresh s) : s.Registered c := by
  induction hs with
  | init h => exact h.registered c
  | step hs hok hstep ih =>
      obtain ⟨hw, hh, hsound⟩ := sound_of_reachable (fun _ _ => And.left) hs
      obtain ⟨ht, o, hgoes, rfl⟩ := step_cases hstep
      exact ih.after hw hgoes hsound hh ht (hsound.after hw hh ht hgoes hok.1) hok.2

theorem muted_of_reachable
    (hs : Machine.Reachable Server.step (Registering c false) Fresh s) : s.Muted c := by
  induction hs with
  | init h => exact h.muted c
  | step hs hok hstep ih =>
      obtain ⟨-, o, hgoes, rfl⟩ := step_cases hstep
      exact ih.after (wired_of_reachable hs) hgoes hok.2

/-- If `EnableRead` fails, the connection stays in `connectionsMap` with its descriptor open, and none of
its handlers runs. -/
theorem kept_of_refused (hs : Machine.Reachable Server.step (Registering c false) Fresh s)
    (hdone : (s.slots c).stage = .done) : s.connectionsMap (s.slots c).fd = some c ∧
      s.files (s.slots c).fd = some c ∧ (s.slots c).session.stack = [] := by
  obtain ⟨-, hh, hsound⟩ := sound_of_reachable (fun _ _ => And.left) hs
  have hmuted := muted_of_reachable hs
  have hcloses := hmuted.idle.closes
  have hchain := hsound.chain c
  refine ⟨(hsound.map _ c).mpr ⟨rfl, by rw [hdone]; decide, by omega⟩, ?_, hmuted.idle.stack⟩
  exact (hsound.present hh (by rw [hdone]; nofun) (by omega)).2.2

/-- **`EnableRead` alone decides.** When `HandleNewConnection` has returned, a connection lingers exactly if
the `epoll_ctl` of its `EnableRead` failed, and then for good. -/
theorem lingers_iff {ok : Bool} (hs : Machine.Reachable Server.step (Registering c ok) Fresh s)
    (hdone : (s.slots c).stage = .done) : s.Lingers c ↔ ok = false := by
  obtain ⟨hw, hh, hsound⟩ := sound_of_reachable (fun _ _ => And.left) hs
  cases ok with
  | true =>
      refine iff_of_false (fun hlingers => ?_) nofun
      have hlisted := (hsound.map _ c).mp hlingers.listed
      have hregistered : (s.slots c).unregistered = 0 := by
        have hchain := hsound.chain c
        have herased := hlisted.erased
        omega
      exact hlingers.unwatched
        ((registered_of_reachable hs).watched (by rw [hdone]; decide) hregistered)
  | false =>
      have hmuted := muted_of_reachable hs
      refine iff_of_true ⟨(kept_of_refused hs hdone).1, hmuted.idle.connected (by rw [hdone]; decide),
        hmuted.idle.closes, ?_⟩ rfl
      rintro ⟨events, hentry, hepollin⟩
      rw [hmuted.epoll _ _ _ hentry] at hepollin
      cases hepollin

/-- The constructor's attempt fails, and `EnableRead` makes good for it. -/
theorem lingers_iff_retried : ∃ s : Server, Machine.Reachable Server.step (Registering 0 true) Fresh s ∧
    (s.slots 0).stage = .done ∧ (s.slots 0).session.conn.channel.failed = true ∧ ¬s.Lingers 0 := by
  obtain ⟨s, hrun, hdone, hfailed⟩ : ∃ s, Machine.run Server.step (Registering 0 true) (start 1 id id)
      [(0, .epollWait [.accept]), (0, .accept (some 7)), (0, .construct .invalid false false),
        (0, .next true), (0, .next true), (0, .next true), (0, .next true), (0, .next true),
        (0, .next true), (0, .next true)] = some s ∧
      (s.slots 0).stage = .done ∧ (s.slots 0).session.conn.channel.failed = true := ⟨_, rfl, rfl, rfl⟩
  have hs : Machine.Reachable Server.step (Registering 0 true) Fresh s :=
    .run (.init (fresh_start 1 id id)) hrun
  have hiff := lingers_iff hs hdone
  exact ⟨s, hs, hdone, hfailed, mt hiff.mp (by decide)⟩

/-- Both attempts fail. -/
theorem lingers_unregistered : ¬∀ (s : Server) (c : Nat),
    Machine.Reachable Server.step (fun _ _ => True) Fresh s → (s.slots c).stage = .done → ¬s.Lingers c := by
  intro h
  obtain ⟨s, hrun, hdone, hlisted, hconnected, hcloses, hentry⟩ : ∃ s,
      Machine.run Server.step (fun _ _ => True) (start 1 id id)
        [(0, .epollWait [.accept]), (0, .accept (some 7)), (0, .construct .invalid false false),
          (0, .next true), (0, .next true), (0, .next true), (0, .next true), (0, .next false),
          (0, .next true), (0, .next true)] = some s ∧
      (s.slots 0).stage = .done ∧ s.connectionsMap (s.slots 0).fd = some 0 ∧
      (s.slots 0).session.conn.state = .connected ∧ (s.slots 0).session.history.closes = 0 ∧
      s.epoll (s.slots 0).eventLoop (s.slots 0).fd = none := ⟨_, rfl, rfl, rfl, rfl, rfl, rfl⟩
  refine h s 0 (.run (.init (fresh_start 1 id id)) hrun) hdone ⟨hlisted, hconnected, hcloses, ?_⟩
  rintro ⟨events, hwatched, -⟩
  rw [hentry] at hwatched
  cases hwatched

end Server

end EpollServer
