import EpollServer.Buffer
import EpollServer.Lib.Machine

/-!
# The send buffer as a queue

Over a sequence of calls a `Buffer` is a FIFO queue of bytes, as long as its `int` expressions have values.
That is not a condition on the backlog alone: the indices return to zero only when the queue runs empty, so
what has to be representable is the number of bytes that went in since then.
-/

namespace EpollServer

namespace Buffer

variable {b b' : Buffer}

/-- A buffer of some capacity that holds nothing; what is in its storage does not matter. -/
structure Cleared (b : Buffer) : Prop where
  readIndex : b.readIndex = 0
  writeIndex : b.writeIndex = 0
  length_le : (b.buffer.length : Int) ≤ CInt.max

theorem cleared_new : new.Cleared := ⟨rfl, rfl, ok_new.length_le⟩

theorem Cleared.ok (hb : b.Cleared) : b.Ok where
  readIndex_nonneg := Int.le_of_eq hb.readIndex.symm
  readIndex_le := Int.le_of_eq (hb.readIndex.trans hb.writeIndex.symm)
  writeIndex_le := hb.writeIndex ▸ Int.natCast_nonneg _
  length_le := hb.length_le
  reset := fun _ => hb.writeIndex

theorem Cleared.readable (hb : b.Cleared) : b.readable = [] := by
  rw [Buffer.readable, hb.readIndex, hb.writeIndex]
  exact Slice.window_self _ _

/-- The arguments of the call make sense, and none of its `int` expressions exceeds `INT_MAX`. -/
def Admissible (b : Buffer) : Operation → Prop
  | .append message len => 0 ≤ len ∧ len ≤ message.length ∧ b.writeIndex + len ≤ CInt.max
  | .retrieve len => 0 ≤ len ∧ len + b.readIndex ≤ CInt.max
  | .retrieveAll => True
  | .ensureWritableBytes len => b.writeIndex + len ≤ CInt.max

instance (b : Buffer) (op : Operation) : Decidable (b.Admissible op) := by
  unfold Admissible
  split <;> infer_instance

/-- What the calls mean for a queue of bytes. -/
def Operation.apply (queue : List UInt8) : Operation → List UInt8
  | .append message len => queue ++ message.take len.toNat
  | .retrieve len => queue.drop (min len.toNat queue.length)
  | .retrieveAll => []
  | .ensureWritableBytes _ => queue

theorem Ok.step_spec (hb : b.Ok) {op : Operation} (hop : b.Admissible op) :
    ∃ b', b.step op = some b' ∧ b'.Ok ∧ b'.readable = op.apply b.readable := by
  cases op with
  | append message len =>
      obtain ⟨h0, hlen, hmax⟩ := hop
      obtain ⟨b', happend, hok, hread, -⟩ := hb.append_spec message len h0 hlen hmax
      exact ⟨b', happend, hok, hread⟩
  | retrieve len =>
      obtain ⟨h0, hmax⟩ := hop
      obtain ⟨b', hretrieve, hok, hread, -⟩ := hb.retrieve_spec h0 hmax
      refine ⟨b', hretrieve, hok, hread.trans ?_⟩
      rcases Nat.le_total len.toNat b.readable.length with hle | hge
      · rw [Operation.apply, Nat.min_eq_left hle]
      · rw [Operation.apply, Nat.min_eq_right hge, List.drop_length, List.drop_eq_nil_of_le hge]
  | retrieveAll => exact ⟨_, rfl, hb.retrieveAll, b.readable_retrieveAll⟩
  | ensureWritableBytes len =>
      obtain ⟨b', hensure, hok, hread, -⟩ := hb.ensureWritableBytes_spec hop
      exact ⟨b', hensure, hok, hread⟩

theorem Ok.of_step (hb : b.Ok) {op : Operation} (hop : b.Admissible op) (h : b.step op = some b') :
    b'.Ok ∧ b'.readable = op.apply b.readable := by
  obtain ⟨b'', h', hspec⟩ := hb.step_spec hop
  rw [h] at h'
  cases h'
  exact hspec

/-- **A buffer is a FIFO queue of bytes**, from any capacity and through any calls: its indices are in
order and inside the storage, its readable bytes are those of the queue, and the next call is defined, with
a copy inside the storage. -/
theorem fifo {ops : List Operation} (hb : b.Cleared)
    (hrun : Machine.run step Admissible b ops = some b') :
    (0 ≤ b'.readIndex ∧ b'.readIndex ≤ b'.writeIndex ∧ b'.writeIndex ≤ b'.buffer.length) ∧
      b'.readable = ops.foldl Operation.apply [] ∧
      (∀ op, b'.Admissible op → (b'.step op).isSome) ∧
      ∀ message len, b'.Admissible (.append message len) → ∃ g, b'.ensureWritableBytes len = some g ∧
        g.writeIndex = b'.writeIndex ∧ g.writeIndex + len ≤ g.buffer.length := by
  obtain ⟨hok, hread⟩ : b'.Ok ∧ b'.readable = ops.foldl Operation.apply [] := by
    refine Machine.run_refines (R := fun b queue => b.Ok ∧ b.readable = queue) ?_ ⟨hb.ok, hb.readable⟩ hrun
    rintro b _ op b' ⟨hok, rfl⟩ hop h
    exact hok.of_step hop h
  refine ⟨⟨hok.readIndex_nonneg, hok.readIndex_le, hok.writeIndex_le⟩, hread, fun op hop => ?_,
    fun message len hop => ?_⟩
  · obtain ⟨b'', h, -⟩ := hok.step_spec hop
    rw [h]
    rfl
  · obtain ⟨g, hensure, -, -, -, hwrite, hroom⟩ := hok.ensureWritableBytes_spec hop.2.2
    exact ⟨g, hensure, hwrite, hwrite ▸ hroom⟩

/-- Stale bytes lie in front of the queue and behind it when it grows. -/
theorem fifo_reset : ∃ b, Machine.run step Admissible ⟨[9, 9], 0, 0⟩
    [.append [1, 2, 3] 3, .retrieve 2, .retrieve 9, .append [5, 6, 7] 2, .ensureWritableBytes 4] = some b ∧
      b.readIndex ≤ b.writeIndex ∧ b.readable = [5, 6] := by
  obtain ⟨b, hrun⟩ : ∃ b, Machine.run step Admissible ⟨[9, 9], 0, 0⟩
      [.append [1, 2, 3] 3, .retrieve 2, .retrieve 9, .append [5, 6, 7] 2, .ensureWritableBytes 4]
        = some b := ⟨_, rfl⟩
  obtain ⟨⟨-, hindices, -⟩, hread, -⟩ := fifo ⟨rfl, rfl, by decide⟩ hrun
  exact ⟨b, hrun, hindices, hread⟩

end Buffer

/-- The bytes in a queue, and how many bytes went in since it was last empty. -/
structure Backlog where
  queued : Nat
  traffic : Nat
  deriving DecidableEq, Repr

namespace Backlog

open Buffer (Operation)

def empty : Backlog := ⟨0, 0⟩

def next (q : Backlog) : Operation → Backlog
  | .append _ len => ⟨q.queued + len.toNat, q.traffic + len.toNat⟩
  | .retrieve len => if len.toNat < q.queued then ⟨q.queued - len.toNat, q.traffic⟩ else empty
  | .retrieveAll => empty
  | .ensureWritableBytes _ => q

/-- The calls keep the backlog representable. -/
def Moderate (q : Backlog) : Operation → Prop
  | .append message len => 0 ≤ len ∧ len ≤ message.length ∧ q.queued + len ≤ CInt.max
  | .retrieve len => 0 ≤ len ∧ len ≤ q.queued
  | .retrieveAll => True
  | .ensureWritableBytes len => q.queued + len ≤ CInt.max

/-- The traffic since the queue was last empty stays representable. -/
def Fits (q : Backlog) : Operation → Prop
  | .append _ len | .ensureWritableBytes len => q.traffic + len ≤ CInt.max
  | .retrieve _ | .retrieveAll => True

end Backlog

namespace Buffer

variable {b b' : Buffer} {q : Backlog} {op : Operation}

/-- The buffer holds the backlog, and its write index counts the traffic. -/
structure Holds (b : Buffer) (q : Backlog) : Prop where
  ok : b.Ok
  queued : b.readable.length = q.queued
  traffic : b.writeIndex = q.traffic

theorem Cleared.holds (hb : b.Cleared) : b.Holds .empty :=
  ⟨hb.ok, by rw [hb.readable]; rfl, hb.writeIndex⟩

theorem Holds.admissible_iff (hb : b.Holds q) (hop : q.Moderate op) : b.Admissible op ↔ q.Fits op := by
  cases op with
  | append message len =>
      rw [Admissible, Backlog.Fits, hb.traffic]
      exact ⟨fun h => h.2.2, fun h => ⟨hop.1, hop.2.1, h⟩⟩
  | retrieve len =>
      have hlength := hb.ok.length_readable
      have hwrite := hb.ok.writeIndex_le
      have hstorage := hb.ok.length_le
      rw [readableBytes, hb.queued] at hlength
      exact iff_of_true ⟨hop.1, by have := hop.2; omega⟩ trivial
  | retrieveAll => exact Iff.rfl
  | ensureWritableBytes len => rw [Admissible, Backlog.Fits, hb.traffic]

theorem Ok.admissible_of_step (hb : b.Ok) (hop : ∀ len, op = .retrieve len → 0 ≤ len)
    (h : b.step op = some b') : b.Admissible op := by
  cases op with
  | append message len => exact range_of_append h
  | retrieve len =>
      obtain ⟨readIndex, hcheck, -⟩ := Option.bind_eq_some_iff.mp h
      exact ⟨hop len rfl, (CInt.check_eq_some_iff.mp hcheck).1.2⟩
  | retrieveAll => trivial
  | ensureWritableBytes len => exact hb.room_of_ensureWritableBytes h

theorem Holds.isSome_step_iff (hb : b.Holds q) (hop : q.Moderate op) :
    (b.step op).isSome ↔ q.Fits op := by
  rw [← hb.admissible_iff hop, Option.isSome_iff_exists]
  refine ⟨fun ⟨b', h⟩ => hb.ok.admissible_of_step ?_ h, fun h => ?_⟩
  · rintro len rfl
    exact hop.1
  · obtain ⟨b', h', -⟩ := hb.ok.step_spec h
    exact ⟨b', h'⟩

/-- The write index goes back to zero exactly when the queue runs empty. -/
theorem Holds.step (hb : b.Holds q) (hop : q.Moderate op) (h : b.step op = some b') :
    b'.Holds (q.next op) := by
  have hadmissible : b.Admissible op :=
    (hb.admissible_iff hop).mpr ((hb.isSome_step_iff hop).mp (h ▸ rfl))
  have hqueued := hb.queued
  have htraffic := hb.traffic
  cases op with
  | append message len =>
      obtain ⟨hok, hread, hwrite⟩ := hb.ok.of_append h
      have h0 := hop.1
      have hlen := hop.2.1
      refine ⟨hok, ?_, ?_⟩
      · rw [hread, List.length_append, List.length_take, Backlog.next]
        dsimp only
        omega
      · rw [hwrite, Backlog.next]
        dsimp only
        omega
  | retrieve len =>
      obtain ⟨b'', h', hok, hread, -, hkept⟩ := hb.ok.retrieve_spec hadmissible.1 hadmissible.2
      obtain rfl : b'' = b' := Option.some.inj (h'.symm.trans h)
      have hlength : b''.readable.length = q.queued - len.toNat := by
        rw [hread, List.length_drop, hqueued]
      rw [Backlog.next]
      split
      · refine ⟨hok, hlength, (hkept fun hnil => ?_).trans htraffic⟩
        rw [hnil, List.length_nil] at hlength
        omega
      · have hnil : b''.readable.length = 0 := by omega
        refine ⟨hok, hnil, ?_⟩
        have hindices := hok.length_readable
        rw [hnil, readableBytes] at hindices
        exact hok.reset (by omega)
  | retrieveAll =>
      cases h
      exact ⟨hb.ok.retrieveAll, by rw [readable_retrieveAll]; rfl, rfl⟩
  | ensureWritableBytes len =>
      obtain ⟨b'', h', hok, hread, -, hwrite, -⟩ := hb.ok.ensureWritableBytes_spec hadmissible
      obtain rfl : b'' = b' := Option.some.inj (h'.symm.trans h)
      exact ⟨hok, by rw [hread]; exact hqueued, hwrite.trans htraffic⟩

theorem Cleared.isSome_run_iff (hb : b.Cleared) {ops : List Operation}
    (hmoderate : Machine.Along Backlog.next Backlog.Moderate .empty ops) :
    (Machine.run step (fun _ _ => True) b ops).isSome ↔
      Machine.Along Backlog.next Backlog.Fits .empty ops :=
  Machine.run_isSome_iff (fun _ _ _ hb hop => hb.isSome_step_iff hop)
    (fun _ _ _ _ hb hop h => hb.step hop h) hb.holds hmoderate

theorem Holds.run {b₀ : Buffer} {ops : List Operation} (hb : b₀.Holds q)
    (hmoderate : Machine.Along Backlog.next Backlog.Moderate q ops)
    (hrun : Machine.run Buffer.step (fun _ _ => True) b₀ ops = some b) :
    b.Holds (ops.foldl Backlog.next q) := by
  induction ops generalizing b₀ q with
  | nil =>
      cases hrun
      exact hb
  | cons op ops ih =>
      obtain ⟨-, b₁, h₁, hrun⟩ := Machine.run_cons.mp hrun
      exact ih (hb.step hmoderate.1 h₁) hmoderate.2 hrun

/-- **When a buffer with a bounded backlog keeps working.** Where the unread bytes are always
representable, a sequence of calls is defined and leaves indices that are not negative exactly if the bytes
that went in since the buffer was last empty are always representable, too. -/
theorem bounded_backlog {ops : List Operation} (hb : b.Cleared)
    (hmoderate : Machine.Along Backlog.next Backlog.Moderate .empty ops) :
    (∃ b', Machine.run step (fun _ _ => True) b ops = some b' ∧ 0 ≤ b'.readIndex ∧ 0 ≤ b'.writeIndex) ↔
      Machine.Along Backlog.next Backlog.Fits .empty ops := by
  rw [← hb.isSome_run_iff hmoderate, Option.isSome_iff_exists]
  refine ⟨fun ⟨b', hrun, _⟩ => ⟨b', hrun⟩, fun ⟨b', hrun⟩ => ⟨b', hrun, ?_⟩⟩
  have hok := (hb.holds.run hmoderate hrun).ok
  exact ⟨hok.readIndex_nonneg, Int.le_trans hok.readIndex_nonneg hok.readIndex_le⟩

theorem bounded_backlog_short : ∃ b',
    Machine.run step (fun _ _ => True) new [.append [1, 2, 3] 3, .retrieve 2, .append [4] 1] = some b' ∧
      0 ≤ b'.readIndex ∧ 0 ≤ b'.writeIndex := by
  refine (bounded_backlog cleared_new ?_).mpr ?_ <;>
    simp [Machine.Along, Backlog.next, Backlog.Moderate, Backlog.Fits, Backlog.empty, CInt.max]

/-- A gibibyte goes in and all but one of its bytes go out; then the next gibibyte does not fit. -/
theorem unbounded_traffic :
    ¬∀ b ops, Cleared b → Machine.Along Backlog.next Backlog.Moderate .empty ops →
      ∃ b', Machine.run step (fun _ _ => True) b ops = some b' ∧ 0 ≤ b'.readIndex ∧
        0 ≤ b'.writeIndex := by
  intro hdefined
  obtain ⟨message, hlength⟩ : ∃ message : List UInt8, message.length = 1073741824 :=
    ⟨List.replicate _ 0, List.length_replicate⟩
  have hmoderate : Machine.Along Backlog.next Backlog.Moderate .empty
      [.append message 1073741824, .retrieve 1073741823, .append message 1073741824] := by
    simp [Machine.Along, Backlog.next, Backlog.Moderate, Backlog.empty, CInt.max, hlength]
  obtain ⟨b', hrun, -⟩ := hdefined new _ cleared_new hmoderate
  have hfits := (cleared_new.isSome_run_iff hmoderate).mp (hrun ▸ rfl)
  simp [Machine.Along, Backlog.next, Backlog.Fits, Backlog.empty, CInt.max] at hfits

end Buffer

end EpollServer
