/-
Bytes and words.

The processor moves bytes and computes addresses in sixteen bits.  Both are the
fixed-width integers of the core library, whose arithmetic wraps, so `UInt16`
addition is address arithmetic as the machine does it.  What this file adds is the
passage between the two: a word is a high and a low byte, and `Word.ofBytes` with
`Word.high` and `Word.low` are inverse to each other in both directions.

The conversions are written with division and remainder rather than with shifts, so
that a statement about them becomes linear arithmetic once `toNat` has been taken.
-/

namespace Z80

namespace Word

/-- The word with `high` in bits 15 to 8 and `low` in bits 7 to 0. -/
def ofBytes (high low : UInt8) : UInt16 := UInt16.ofNat (high.toNat * 256 + low.toNat)

/-- Bits 15 to 8 of a word. -/
def high (w : UInt16) : UInt8 := UInt8.ofNat (w.toNat / 256)

/-- Bits 7 to 0 of a word. -/
def low (w : UInt16) : UInt8 := UInt8.ofNat w.toNat

@[simp] theorem toNat_ofBytes (h l : UInt8) : (ofBytes h l).toNat = h.toNat * 256 + l.toNat := by
  have := h.toNat_lt
  have := l.toNat_lt
  simp only [ofBytes, UInt16.toNat_ofNat']
  omega

@[simp] theorem toNat_high (w : UInt16) : (high w).toNat = w.toNat / 256 := by
  have := w.toNat_lt
  simp only [high, UInt8.toNat_ofNat']
  omega

@[simp] theorem toNat_low (w : UInt16) : (low w).toNat = w.toNat % 256 := by
  simp only [low, UInt8.toNat_ofNat']

@[simp] theorem high_ofBytes (h l : UInt8) : high (ofBytes h l) = h := by
  have := l.toNat_lt
  apply UInt8.toNat_inj.mp
  simp only [toNat_high, toNat_ofBytes]
  omega

@[simp] theorem low_ofBytes (h l : UInt8) : low (ofBytes h l) = l := by
  have := l.toNat_lt
  apply UInt8.toNat_inj.mp
  simp only [toNat_low, toNat_ofBytes]
  omega

@[simp] theorem ofBytes_high_low (w : UInt16) : ofBytes (high w) (low w) = w := by
  apply UInt16.toNat_inj.mp
  simp only [toNat_ofBytes, toNat_high, toNat_low]
  omega

theorem high_and (v w : UInt16) : high (v &&& w) = high v &&& high w := by
  apply UInt8.toNat_inj.mp
  rw [UInt8.toNat_and, toNat_high, toNat_high, toNat_high, UInt16.toNat_and]
  exact Nat.and_div_two_pow (n := 8)

theorem high_xor (v w : UInt16) : high (v ^^^ w) = high v ^^^ high w := by
  apply UInt8.toNat_inj.mp
  rw [UInt8.toNat_xor, toNat_high, toNat_high, toNat_high, UInt16.toNat_xor]
  exact Nat.xor_div_two_pow (n := 8)

/-- The address `offset` bytes away from `base`; the address space is a circle. -/
def displace (base : UInt16) (offset : Int8) : UInt16 := base + offset.toInt16.toUInt16

end Word

/-- The number of a port: the upper address byte above the lower one. -/
def portAddress (high low : UInt8) : UInt16 := Word.ofBytes high low

end Z80
