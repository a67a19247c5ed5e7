import Mathlib.Data.UInt
import Mathlib.Tactic.Ring

/-!
# 32-bit words as four bytes

The memory image of a `uint32_t` on a little-endian host, its big-endian image on the wire, and the
byte swap that turns one into the other.
-/

namespace Word32

/-- The bytes of a word, least significant first. -/
def toLE (x : UInt32) : List UInt8 :=
  [UInt8.ofNat x.toNat, UInt8.ofNat (x.toNat / 2 ^ 8), UInt8.ofNat (x.toNat / 2 ^ 16),
    UInt8.ofNat (x.toNat / 2 ^ 24)]

/-- The word stored in four bytes, least significant first. -/
def ofLE : List UInt8 → UInt32
  | [a, b, c, d] =>
      UInt32.ofNat (a.toNat + 2 ^ 8 * b.toNat + 2 ^ 16 * c.toNat + 2 ^ 24 * d.toNat)
  | _ => 0

/-- The bytes of a word, most significant first. -/
def toBE (x : UInt32) : List UInt8 := (toLE x).reverse

/-- The word stored in four bytes, most significant first. -/
def ofBE (bytes : List UInt8) : UInt32 := ofLE bytes.reverse

/-- Reverse the order of the four bytes. -/
def swap (x : UInt32) : UInt32 := ofLE (toLE x).reverse

@[simp]
theorem length_toLE (x : UInt32) : (toLE x).length = 4 := rfl

@[simp]
theorem length_toBE (x : UInt32) : (toBE x).length = 4 := rfl

@[simp]
theorem ofLE_toLE (x : UInt32) : ofLE (toLE x) = x := by
  apply UInt32.toNat_inj.mp
  have hx := x.toNat_lt
  simp only [toLE, ofLE, UInt8.toNat_ofNat', UInt32.toNat_ofNat']
  omega

theorem toLE_ofLE {bytes : List UInt8} (h : bytes.length = 4) : toLE (ofLE bytes) = bytes := by
  match bytes, h with
  | [a, b, c, d], _ =>
      have ha := a.toNat_lt
      have hb := b.toNat_lt
      have hc := c.toNat_lt
      have hd := d.toNat_lt
      simp only [toLE, ofLE, UInt32.toNat_ofNat', List.cons.injEq, and_true]
      refine ⟨?_, ?_, ?_, ?_⟩ <;> apply UInt8.toNat_inj.mp <;>
        simp only [UInt8.toNat_ofNat'] <;> omega

@[simp]
theorem ofBE_toBE (x : UInt32) : ofBE (toBE x) = x := by simp [ofBE, toBE]

theorem toBE_ofBE {bytes : List UInt8} (h : bytes.length = 4) : toBE (ofBE bytes) = bytes := by
  simp [toBE, ofBE, toLE_ofLE, h]

@[simp]
theorem toLE_swap (x : UInt32) : toLE (swap x) = toBE x := by
  simp [swap, toBE, toLE_ofLE]

@[simp]
theorem toBE_swap (x : UInt32) : toBE (swap x) = toLE x := by
  rw [toBE, toLE_swap, toBE, List.reverse_reverse]

end Word32
