/-
The flags.

The flag register F is a byte, and instructions that move AF about treat it as one.  The
instructions that compute flags think of it as eight named bits, which is what `Flags`
is.  `Flags.toByte` and `Flags.ofByte` pass between the two and are inverse to each other,
so nothing is lost on the way.

Bits 5 and 3 have no official name; they mostly copy those bits of a result.
-/

namespace Z80

/-- The eight bits of F, from bit 7 down. -/
structure Flags where
  sign : Bool
  zero : Bool
  /-- Bit 5. -/
  y : Bool
  /-- Carry out of bit 3, or of bit 11. -/
  half : Bool
  /-- Bit 3. -/
  x : Bool
  /-- Even parity, or signed overflow, as the instruction has it. -/
  parity : Bool
  /-- The last arithmetic was a subtraction. -/
  subtract : Bool
  carry : Bool
deriving DecidableEq, Repr, Inhabited

/-- Is a bit of a byte set? -/
def bit (b : UInt8) (n : Nat) : Bool := b.toNat.testBit n

theorem bit_and (a b : UInt8) (n : Nat) : bit (a &&& b) n = (bit a n && bit b n) := by
  rw [bit, UInt8.toNat_and, Nat.testBit_and]
  rfl

theorem bit_xor (a b : UInt8) (n : Nat) : bit (a ^^^ b) n = (bit a n ^^ bit b n) := by
  rw [bit, UInt8.toNat_xor, Nat.testBit_xor]
  rfl

namespace Flags

/-- The byte with the given bits. -/
def toByte (f : Flags) : UInt8 :=
  UInt8.ofNat (f.sign.toNat * 128 + f.zero.toNat * 64 + f.y.toNat * 32 + f.half.toNat * 16 +
    f.x.toNat * 8 + f.parity.toNat * 4 + f.subtract.toNat * 2 + f.carry.toNat)

/-- The bits of a byte. -/
def ofByte (b : UInt8) : Flags :=
  ⟨bit b 7, bit b 6, bit b 5, bit b 4, bit b 3, bit b 2, bit b 1, bit b 0⟩

@[simp] theorem ofByte_toByte (f : Flags) : ofByte f.toByte = f := by
  obtain ⟨s, z, y, h, x, p, n, c⟩ := f
  cases s <;> cases z <;> cases y <;> cases h <;> cases x <;> cases p <;> cases n <;> cases c <;> rfl

@[simp] theorem toByte_ofByte (b : UInt8) : (ofByte b).toByte = b := by
  have all : ∀ n : Fin 256, (ofByte (UInt8.ofNat n)).toByte = UInt8.ofNat n := by decide +kernel
  have := all ⟨b.toNat, b.toNat_lt⟩
  simpa using this

/-- No flag set. -/
def clear : Flags := ⟨false, false, false, false, false, false, false, false⟩

/-- Sign, zero and the two copied bits of a result, and no other flag. -/
def ofResult (value : UInt8) : Flags :=
  { clear with sign := bit value 7, zero := value == 0, y := bit value 5, x := bit value 3 }

/-- Does a byte have an even number of bits set? -/
def evenParity (b : UInt8) : Bool :=
  !(bit b 0 ^^ bit b 1 ^^ bit b 2 ^^ bit b 3 ^^ bit b 4 ^^ bit b 5 ^^ bit b 6 ^^ bit b 7)

/-- Sign, zero, the two copied bits and the parity of a result, and no other flag. -/
def ofLogic (value : UInt8) : Flags := { ofResult value with parity := evenParity value }

/-- The flags with the two copied bits taken from a byte. -/
def withCopied (f : Flags) (source : UInt8) : Flags :=
  { f with y := bit source 5, x := bit source 3 }

end Flags

/-- What a conditional jump, call or return depends on. -/
inductive Condition where
  | nz | z | nc | c | po | pe | p | m
deriving DecidableEq, Repr

namespace Condition

/-- The condition with a three-bit code. -/
def ofCode (code : Nat) : Condition :=
  match code % 8 with
  | 0 => nz
  | 1 => z
  | 2 => nc
  | 3 => c
  | 4 => po
  | 5 => pe
  | 6 => p
  | _ => m

/-- Do the flags meet the condition? -/
def holds : Condition → Flags → Bool
  | nz, f => !f.zero
  | z, f => f.zero
  | nc, f => !f.carry
  | c, f => f.carry
  | po, f => !f.parity
  | pe, f => f.parity
  | p, f => !f.sign
  | m, f => f.sign

end Condition

end Z80
