import EpollServer.Client

/-!
# What the clients' packet builder fills

The loop of `generateRandomPackage` advances its variable twice in a pass, so it assigns every second byte
of the body: those at even offsets if the left side of the assignment is evaluated first, those at odd
offsets otherwise, and then a body of odd length makes it write behind the packet.
-/

namespace EpollServer

namespace Client

variable {order : Order} {length passes : Nat} {s t : Filling}

theorem increment_eq_some_iff {i j : Nat} :
    increment i = some j ↔ j = i + 1 ∧ ((i + 1 : Nat) : Int) ≤ CInt.max := by
  rw [increment, Option.map_eq_some_iff]
  constructor
  · rintro ⟨x, hx, rfl⟩
    obtain ⟨⟨-, hmax⟩, rfl⟩ := CInt.check_eq_some_iff.mp hx
    exact ⟨by omega, by omega⟩
  · rintro ⟨rfl, hmax⟩
    exact ⟨_, CInt.check_of_le (by omega) (by omega), by omega⟩

theorem character_mem (i : Nat) : character i ∈ alphanum := List.get_mem _ _

theorem zero_notMem_alphanum : (0 : UInt8) ∉ alphanum := by decide

theorem newPacket_eq (length : Nat) :
    newPacket length = (stringHeader length).wire ++ List.replicate length 0 := by
  simp [newPacket, Slice.overwrite]

/-- The offset in the body that a pass assigns, from the value that the loop variable has before it. -/
def Order.offset : Order → Nat
  | .leftFirst => 0
  | .rightFirst => 1

theorem Order.offset_le (order : Order) : order.offset ≤ 1 := by cases order <;> decide

theorem Order.left_succ (order : Order) (i : Nat) : order.left i (i + 1) = i + order.offset := by
  cases order <;> rfl

/-- **What a pass does.** -/
theorem Filling.pass_eq_some_iff : s.pass order = some t ↔
    ((s.i + 2 : Nat) : Int) ≤ CInt.max ∧ tlvHeaderLength + (s.i + order.offset) < s.packet.length ∧
      t = ⟨s.i + 2, s.packet.set (tlvHeaderLength + (s.i + order.offset)) (character s.i)⟩ := by
  constructor
  · intro h
    simp only [pass, Option.bind_eq_bind, Option.bind_eq_some_iff] at h
    obtain ⟨next, hnext, u, hwrite, i, hi, h⟩ := h
    obtain ⟨rfl, -⟩ := increment_eq_some_iff.mp hnext
    rw [Order.left_succ] at hwrite
    obtain ⟨hlt, hu⟩ := Option.ite_none_right_eq_some.mp hwrite
    obtain rfl := Option.some.inj hu
    obtain ⟨rfl, hmax⟩ := increment_eq_some_iff.mp hi
    refine ⟨?_, hlt, (Option.some.inj h).symm⟩
    change ((s.i + 1 + 1 : Nat) : Int) ≤ CInt.max at hmax
    omega
  · rintro ⟨hmax, hlt, rfl⟩
    have hnext : increment s.i = some (s.i + 1) := increment_eq_some_iff.mpr ⟨rfl, by omega⟩
    have hi : increment (s.i + 1) = some (s.i + 2) := increment_eq_some_iff.mpr ⟨rfl, by omega⟩
    simp only [pass, Option.bind_eq_bind, Option.bind_eq_some_iff]
    refine ⟨s.i + 1, hnext, ⟨s.i + 1, _⟩, ?_, s.i + 2, hi, rfl⟩
    rw [Order.left_succ, write, if_pos hlt]

/-- The byte at an offset of the body when the loop variable is `i`. -/
def bodyByte (order : Order) (i k : Nat) : UInt8 :=
  if k % 2 = order.offset ∧ k < i then character (k - order.offset) else 0

/-- The packet when the loop variable is `i`. -/
def filledPacket (order : Order) (length i : Nat) : List UInt8 :=
  (stringHeader length).wire ++ (List.range length).map (bodyByte order i)

theorem length_filledPacket (order : Order) (length i : Nat) :
    (filledPacket order length i).length = tlvHeaderLength + length := by
  simp [filledPacket]

theorem filledPacket_zero (order : Order) (length : Nat) :
    filledPacket order length 0 = newPacket length := by
  rw [filledPacket, newPacket_eq]
  congr 1
  apply List.ext_getElem <;> simp [bodyByte]

theorem bodyByte_of_ne {i k : Nat} (heven : i % 2 = 0) (hne : k ≠ i + order.offset) :
    bodyByte order (i + 2) k = bodyByte order i k := by
  have hoffset := order.offset_le
  have hiff : (k % 2 = order.offset ∧ k < i + 2) ↔ k % 2 = order.offset ∧ k < i := by omega
  simp only [bodyByte, hiff]

theorem bodyByte_self {i : Nat} (heven : i % 2 = 0) :
    bodyByte order (i + 2) (i + order.offset) = character i := by
  have hoffset := order.offset_le
  rw [bodyByte, if_pos (by omega), Nat.add_sub_cancel]

/-- A pass assigns one more byte. -/
theorem set_filledPacket {i : Nat} (heven : i % 2 = 0) :
    (filledPacket order length i).set (tlvHeaderLength + (i + order.offset)) (character i)
      = filledPacket order length (i + 2) := by
  rw [filledPacket, List.set_append_right _ _ (by simp), TLVHeader.length_wire, Nat.add_sub_cancel_left,
    filledPacket]
  congr 1
  apply List.ext_getElem
  · simp
  · intro k hk hk'
    rw [List.getElem_set, List.getElem_map, List.getElem_map, List.getElem_range]
    split
    · rename_i heq
      rw [← heq, bodyByte_self heven]
    · rename_i hne
      exact (bodyByte_of_ne heven (Ne.symm hne)).symm

/-- The loop at its head: the passes so far were defined and have assigned every second byte. -/
structure Filling.Filled (order : Order) (length : Nat) (s : Filling) : Prop where
  even : s.i % 2 = 0
  representable : (s.i : Int) ≤ CInt.max
  inside : s.i + order.offset ≤ length + 1
  packet : s.packet = filledPacket order length s.i

theorem Filling.filled_zero (order : Order) (length : Nat) :
    (⟨0, newPacket length⟩ : Filling).Filled order length where
  even := rfl
  representable := by
    change (0 : Int) ≤ CInt.max
    decide
  inside := by
    have hoffset := order.offset_le
    change 0 + order.offset ≤ length + 1
    omega
  packet := (filledPacket_zero order length).symm

theorem Filling.Filled.pass (hs : s.Filled order length) (h : s.pass order = some t) :
    t.Filled order length ∧ t.i = s.i + 2 := by
  obtain ⟨hmax, hlt, rfl⟩ := Filling.pass_eq_some_iff.mp h
  rw [hs.packet, length_filledPacket] at hlt
  refine ⟨⟨?_, hmax, ?_, ?_⟩, rfl⟩
  · have heven := hs.even
    change (s.i + 2) % 2 = 0
    omega
  · change s.i + 2 + order.offset ≤ length + 1
    omega
  · change s.packet.set _ _ = _
    rw [hs.packet, set_filledPacket hs.even]

/-- **The loop keeps its invariant**, and ends unless it runs out of passes. -/
theorem Filling.Filled.run (hs : s.Filled order length) (h : Filling.run order length passes s = some t) :
    t.Filled order length ∧ (length ≤ t.i ∨ t.i = s.i + 2 * passes) := by
  induction passes generalizing s with
  | zero =>
      obtain rfl : s = t := Option.some.inj h
      exact ⟨hs, .inr rfl⟩
  | succ passes ih =>
      rw [Filling.run] at h
      split at h
      · obtain ⟨u, hpass, hrun⟩ := Option.bind_eq_some_iff.mp h
        obtain ⟨hu, hi⟩ := hs.pass hpass
        obtain ⟨ht, hend⟩ := ih hu hrun
        exact ⟨ht, hend.imp_right fun heq => by omega⟩
      · rename_i hdone
        obtain rfl : s = t := Option.some.inj h
        exact ⟨hs, .inl (Nat.le_of_not_lt hdone)⟩

/-- The lengths and orders for which no write and no increment is undefined. -/
def Defined (order : Order) (length : Nat) : Prop :=
  (length : Int) < CInt.max ∧ (order = .leftFirst ∨ length % 2 = 0)

theorem Filling.Filled.defined (hs : s.Filled order length) (hend : length ≤ s.i) :
    Defined order length := by
  have heven := hs.even
  have hmax := hs.representable
  have hinside := hs.inside
  refine ⟨?_, ?_⟩
  · rw [CInt.max] at hmax ⊢
    omega
  · cases order with
    | leftFirst => exact .inl rfl
    | rightFirst =>
        rw [Order.offset] at hinside
        exact .inr (by omega)

/-- A pass that the loop makes is defined. -/
theorem Filling.Filled.isSome_pass (hs : s.Filled order length) (hdefined : Defined order length)
    (hlt : s.i < length) : (s.pass order).isSome := by
  have heven := hs.even
  obtain ⟨hmax, horder⟩ := hdefined
  refine Option.isSome_iff_exists.mpr ⟨_, Filling.pass_eq_some_iff.mpr ⟨?_, ?_, rfl⟩⟩
  · rw [CInt.max] at hmax ⊢
    omega
  · rw [hs.packet, length_filledPacket]
    cases order with
    | leftFirst =>
        rw [Order.offset]
        omega
    | rightFirst =>
        have hlength := horder.resolve_left (by decide)
        rw [Order.offset]
        omega

theorem Filling.Filled.isSome_run (hs : s.Filled order length) (hdefined : Defined order length)
    (passes : Nat) : (Filling.run order length passes s).isSome := by
  induction passes generalizing s with
  | zero => rfl
  | succ passes ih =>
      rw [Filling.run]
      split
      · rename_i hlt
        obtain ⟨t, hpass⟩ := Option.isSome_iff_exists.mp (hs.isSome_pass hdefined hlt)
        rw [hpass]
        exact ih (hs.pass hpass).1
      · rfl

/-- The loop ends, within the passes it is given. -/
theorem run_ends (h : Filling.run order length length ⟨0, newPacket length⟩ = some s) :
    s.Filled order length ∧ length ≤ s.i := by
  obtain ⟨hs, hend⟩ := (Filling.filled_zero order length).run h
  refine ⟨hs, ?_⟩
  rcases hend with hend | hend
  · exact hend
  · change s.i = 0 + 2 * length at hend
    omega

/-- **What `generateRandomPackage` returns**: the header, and a body in which every second byte is
assigned. -/
theorem generateRandomPackage_eq_some_iff {packet : List UInt8} :
    generateRandomPackage order length = some packet ↔ Defined order length ∧
      packet = (stringHeader length).wire ++ (List.range length).map fun k =>
        if k % 2 = order.offset then character (k - order.offset) else 0 := by
  have hfilled {i : Nat} (hi : length ≤ i) : filledPacket order length i
      = (stringHeader length).wire ++ (List.range length).map fun k =>
        if k % 2 = order.offset then character (k - order.offset) else 0 := by
    rw [filledPacket]
    congr 1
    apply List.map_congr_left
    intro k hk
    have hlt : k < i := (List.mem_range.mp hk).trans_le hi
    simp only [bodyByte, hlt, and_true]
  rw [generateRandomPackage, Option.map_eq_some_iff]
  constructor
  · rintro ⟨s, hrun, rfl⟩
    obtain ⟨hs, hend⟩ := run_ends hrun
    exact ⟨hs.defined hend, hs.packet.trans (hfilled hend)⟩
  · rintro ⟨hdefined, rfl⟩
    obtain ⟨s, hrun⟩ := Option.isSome_iff_exists.mp
      ((Filling.filled_zero order length).isSome_run hdefined length)
    obtain ⟨hs, hend⟩ := run_ends hrun
    exact ⟨s, hrun, hs.packet.trans (hfilled hend)⟩

/-- The builder is defined, its loop ends, and it returns a header that announces `length` bytes and as many
characters. -/
def Fills (order : Order) (length : Nat) : Prop :=
  ∃ s, Filling.run order length length ⟨0, newPacket length⟩ = some s ∧ length ≤ s.i ∧
    ∃ body, generateRandomPackage order length = some ((stringHeader length).wire ++ body) ∧
      body.length = length ∧ ∀ b ∈ body, b ∈ alphanum

/-- **The builder fills the body** only if the body has no byte, or a single one that the left side of the
assignment refers to. -/
theorem fills_iff (order : Order) (length : Nat) :
    Fills order length ↔ length = 0 ∨ length = 1 ∧ order = .leftFirst := by
  constructor
  · rintro ⟨s, -, -, body, hpacket, hlength, hmem⟩
    obtain ⟨⟨-, horder⟩, heq⟩ := generateRandomPackage_eq_some_iff.mp hpacket
    have hbody := List.append_cancel_left heq
    -- the first byte that no pass assigns
    have hunassigned : length ≤ 1 - order.offset := by
      by_contra hlt
      have hoffset := order.offset_le
      refine zero_notMem_alphanum (hmem 0 ?_)
      rw [hbody, List.mem_map]
      exact ⟨1 - order.offset, List.mem_range.mpr (by omega), if_neg (by omega)⟩
    cases order with
    | leftFirst =>
        have hlength : length = 0 ∨ length = 1 := Nat.le_one_iff_eq_zero_or_eq_one.mp hunassigned
        exact hlength.imp_right fun hone => ⟨hone, rfl⟩
    | rightFirst => exact .inl (Nat.le_zero.mp hunassigned)
  · intro h
    have hdefined : Defined order length := by
      rcases h with rfl | ⟨rfl, rfl⟩
      · exact ⟨by decide, .inr rfl⟩
      · exact ⟨by decide, .inl rfl⟩
    obtain ⟨s, hrun⟩ := Option.isSome_iff_exists.mp
      ((Filling.filled_zero order length).isSome_run hdefined length)
    refine ⟨s, hrun, (run_ends hrun).2, _, generateRandomPackage_eq_some_iff.mpr ⟨hdefined, rfl⟩, ?_, ?_⟩
    · rw [List.length_map, List.length_range]
    · rintro b hb
      obtain ⟨k, hk, rfl⟩ := List.mem_map.mp hb
      have hlt := List.mem_range.mp hk
      rcases h with rfl | ⟨rfl, rfl⟩
      · omega
      · rw [if_pos (by rw [Order.offset]; omega)]
        exact character_mem _

/-- With three bytes, the second one stays zero, or the last write is behind the packet. -/
theorem unfilled_body : ¬Fills .leftFirst 3 ∧ ¬Fills .rightFirst 3 := by
  constructor
  · rintro ⟨-, -, -, body, hpacket, -, hmem⟩
    have heq : generateRandomPackage .leftFirst 3
        = some ((stringHeader 3).wire ++ [48, 0, 50]) := by decide
    obtain rfl := List.append_cancel_left (Option.some.inj (heq.symm.trans hpacket))
    exact zero_notMem_alphanum (hmem 0 (by decide))
  · rintro ⟨-, -, -, body, hpacket, -⟩
    have heq : generateRandomPackage .rightFirst 3 = none := by decide
    exact absurd (heq.symm.trans hpacket) nofun

end Client

end EpollServer
