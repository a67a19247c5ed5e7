import Mathlib.Data.List.Basic

/-!
# Length-prefixed frames

A frame is a header of fixed length followed by as many symbols as the header announces, and a format
bounds what a header may announce. A stream is cut from the left: `split` takes whole frames off it
for as long as it starts with one, and what stays starts with an incomplete frame or with a header
that announces too much. The cut is unique (`split_eq`), which is what makes a decoder's result
independent of how the stream arrived.
-/

namespace Framing

/-- A frame format over symbols `α`. -/
structure Format (α : Type*) where
  headerLength : Nat
  bodyLength : List α → Nat
  limit : Nat
  headerLength_pos : 0 < headerLength

/-- A whole frame: the body is as long as the header announces, and that is within the limit. -/
@[ext]
structure Frame {α : Type*} (F : Format α) where
  header : List α
  body : List α
  length_header : header.length = F.headerLength
  length_body : body.length = F.bodyLength header
  length_body_le : F.bodyLength header ≤ F.limit

variable {α : Type*} {F : Format α}

/-- A frame as it is transmitted. -/
def Frame.symbols (f : Frame F) : List α := f.header ++ f.body

/-- A list of frames as it is transmitted. -/
def encode (fs : List (Frame F)) : List α := fs.flatMap Frame.symbols

@[simp]
theorem encode_nil : encode ([] : List (Frame F)) = [] := rfl

@[simp]
theorem encode_cons (f : Frame F) (fs : List (Frame F)) :
    encode (f :: fs) = f.symbols ++ encode fs := rfl

@[simp]
theorem encode_append (fs gs : List (Frame F)) : encode (fs ++ gs) = encode fs ++ encode gs := by
  simp [encode]

/-- The stream ends inside a frame, or before one. -/
def Incomplete (F : Format α) (r : List α) : Prop :=
  r.length < F.headerLength ∨ F.bodyLength (r.take F.headerLength) ≤ F.limit ∧
    r.length < F.headerLength + F.bodyLength (r.take F.headerLength)

/-- The stream starts with a header that announces more than the limit. -/
def Oversized (F : Format α) (r : List α) : Prop :=
  F.headerLength ≤ r.length ∧ F.limit < F.bodyLength (r.take F.headerLength)

/-- The stream starts with a whole frame. -/
def Complete (F : Format α) (s : List α) : Prop :=
  F.headerLength ≤ s.length ∧ F.bodyLength (s.take F.headerLength) ≤ F.limit ∧
    F.headerLength + F.bodyLength (s.take F.headerLength) ≤ s.length

instance (s : List α) : Decidable (Complete F s) := by unfold Complete; infer_instance

theorem not_complete_iff {s : List α} : ¬Complete F s ↔ Incomplete F s ∨ Oversized F s := by
  simp only [Complete, Incomplete, Oversized]
  omega

/-- The frame a stream starts with. -/
def firstFrame (s : List α) (h : Complete F s) : Frame F where
  header := s.take F.headerLength
  body := (s.drop F.headerLength).take (F.bodyLength (s.take F.headerLength))
  length_header := by
    rw [List.length_take, Nat.min_eq_left h.1]
  length_body := by
    have := h.2.2
    simp only [List.length_take, List.length_drop]
    omega
  length_body_le := h.2.1

theorem Frame.length_symbols (f : Frame F) :
    f.symbols.length = F.headerLength + F.bodyLength f.header := by
  simp [symbols, f.length_header, f.length_body]

theorem Frame.take_symbols_append (f : Frame F) (t : List α) :
    (f.symbols ++ t).take F.headerLength = f.header := by
  rw [symbols, List.append_assoc, ← f.length_header, List.take_left']
  rfl

theorem Frame.complete_symbols_append (f : Frame F) (t : List α) : Complete F (f.symbols ++ t) := by
  have hlen := f.length_symbols
  refine ⟨?_, ?_, ?_⟩
  · rw [List.length_append]
    omega
  · rw [f.take_symbols_append]
    exact f.length_body_le
  · rw [f.take_symbols_append, List.length_append]
    omega

theorem firstFrame_symbols_append (f : Frame F) (t : List α)
    (h : Complete F (f.symbols ++ t)) : firstFrame (f.symbols ++ t) h = f := by
  have htake := f.take_symbols_append t
  have hdrop : (f.symbols ++ t).drop F.headerLength = f.body ++ t := by
    rw [Frame.symbols, List.append_assoc, ← f.length_header, List.drop_left']
    rfl
  ext1
  · exact htake
  · change ((f.symbols ++ t).drop F.headerLength).take
      (F.bodyLength ((f.symbols ++ t).take F.headerLength)) = f.body
    rw [htake, hdrop, ← f.length_body, List.take_left']
    rfl

theorem firstFrame_append_drop (s : List α) (h : Complete F s) :
    (firstFrame s h).symbols ++ s.drop (firstFrame s h).symbols.length = s := by
  have hsymbols : (firstFrame s h).symbols
      = s.take (F.headerLength + F.bodyLength (s.take F.headerLength)) := by
    rw [Frame.symbols, List.take_add]
    rfl
  have hlen : (firstFrame s h).symbols.length
      = F.headerLength + F.bodyLength (s.take F.headerLength) := (firstFrame s h).length_symbols
  rw [hlen, hsymbols, List.take_append_drop]

/-- Take frames off a stream, at most `fuel` of them. -/
def splitFuel (F : Format α) : Nat → List α → List (Frame F) × List α
  | 0, s => ([], s)
  | fuel + 1, s =>
      if h : Complete F s then
        let f := firstFrame s h
        let rest := splitFuel F fuel (s.drop f.symbols.length)
        (f :: rest.1, rest.2)
      else ([], s)

/-- The whole frames a stream starts with, and what follows them. -/
def split (F : Format α) (s : List α) : List (Frame F) × List α := splitFuel F s.length s

/-- The bodies of the whole frames a stream starts with. -/
def bodies (F : Format α) (s : List α) : List (List α) := (split F s).1.map Frame.body

theorem splitFuel_spec : ∀ (fuel : Nat) (s : List α), s.length ≤ fuel →
    encode (splitFuel F fuel s).1 ++ (splitFuel F fuel s).2 = s ∧
      ¬Complete F (splitFuel F fuel s).2
  | 0, s, hfuel => by
      have hpos := F.headerLength_pos
      refine ⟨rfl, fun h => ?_⟩
      have hlen : F.headerLength ≤ s.length := h.1
      omega
  | fuel + 1, s, hfuel => by
      by_cases h : Complete F s
      · have hlen := (firstFrame s h).length_symbols
        have hpos := F.headerLength_pos
        have hrest : (s.drop (firstFrame s h).symbols.length).length ≤ fuel := by
          rw [List.length_drop]
          omega
        obtain ⟨hencode, hcut⟩ := splitFuel_spec fuel _ hrest
        simp only [splitFuel, h, ↓reduceDIte, encode_cons, List.append_assoc]
        exact ⟨by rw [hencode, firstFrame_append_drop], hcut⟩
      · simp [splitFuel, h]

theorem splitFuel_eq : ∀ (fs : List (Frame F)) (fuel : Nat) (r : List α),
    (encode fs ++ r).length ≤ fuel → ¬Complete F r → splitFuel F fuel (encode fs ++ r) = (fs, r)
  | [], fuel, r, _, hr => by
      cases fuel with
      | zero => rfl
      | succ fuel => simp [splitFuel, hr]
  | f :: fs, fuel, r, hfuel, hr => by
      have hpos := F.headerLength_pos
      have hlen := f.length_symbols
      rw [encode_cons, List.append_assoc] at hfuel ⊢
      rw [List.length_append] at hfuel
      obtain ⟨fuel, rfl⟩ : ∃ n, fuel = n + 1 := ⟨fuel - 1, by omega⟩
      have hcomplete := f.complete_symbols_append (encode fs ++ r)
      have hfirst := firstFrame_symbols_append f (encode fs ++ r) hcomplete
      simp only [splitFuel, hcomplete, ↓reduceDIte, hfirst, List.drop_left']
      rw [splitFuel_eq fs fuel r (by omega) hr]

theorem encode_split (s : List α) : encode (split F s).1 ++ (split F s).2 = s :=
  (splitFuel_spec s.length s (Nat.le_refl _)).1

theorem not_complete_split (s : List α) : ¬Complete F (split F s).2 :=
  (splitFuel_spec s.length s (Nat.le_refl _)).2

/-- **The cut of a stream is unique.** -/
theorem split_eq {s : List α} {fs : List (Frame F)} {r : List α} (hs : s = encode fs ++ r)
    (hr : ¬Complete F r) : split F s = (fs, r) := by
  subst hs
  exact splitFuel_eq fs _ r (Nat.le_refl _) hr

theorem split_encode_append (fs : List (Frame F)) (r : List α) :
    split F (encode fs ++ r) = (fs ++ (split F r).1, (split F r).2) := by
  apply split_eq
  · rw [encode_append, List.append_assoc, encode_split]
  · exact not_complete_split r

/-- Every frame has a header. -/
theorem length_le_length_encode (fs : List (Frame F)) : fs.length ≤ (encode fs).length := by
  have hpos := F.headerLength_pos
  induction fs with
  | nil => exact Nat.le_refl 0
  | cons f fs ih =>
      have hlen := f.length_symbols
      rw [encode_cons, List.length_append, List.length_cons]
      omega

theorem split_encode (fs : List (Frame F)) : split F (encode fs) = (fs, []) := by
  have hcut : ¬Complete F ([] : List α) := fun h => absurd h.1 (Nat.not_le.mpr F.headerLength_pos)
  exact split_eq (List.append_nil _).symm hcut

/-- A stream that frames continue starts with some of these frames. -/
theorem split_of_prefix {s : List α} {fs : List (Frame F)} (h : s <+: encode fs) : (split F s).1 <+: fs := by
  obtain ⟨t, ht⟩ := h
  have hsplit := split_encode_append (split F s).1 ((split F s).2 ++ t)
  rw [← List.append_assoc, encode_split, ht, split_encode] at hsplit
  exact ⟨_, (congrArg Prod.fst hsplit).symm⟩

theorem Oversized.append {r : List α} (h : Oversized F r) (t : List α) : Oversized F (r ++ t) := by
  have htake : (r ++ t).take F.headerLength = r.take F.headerLength := List.take_append_of_le_length h.1
  refine ⟨?_, ?_⟩
  · rw [List.length_append]
    exact Nat.le_trans h.1 (Nat.le_add_right _ _)
  · rw [htake]
    exact h.2

theorem bodies_encode_append (fs : List (Frame F)) (r : List α) :
    bodies F (encode fs ++ r) = fs.map Frame.body ++ bodies F r := by
  simp [bodies, split_encode_append]

end Framing
