/-
Arithmetic and logic.

Every operation is a function from operands and flags to a result and flags.  Carries are
stated as inequalities in `Nat`: adding carries out of a digit exactly when the sum of the
digits does not fit, and subtracting borrows exactly when the digit is too small.  The
half carry is the same statement about the low nibble, or about the low twelve bits of a
word.  Overflow compares signs: it happens when operands of one sign give a result of the
other.

Hardware reads the same flags off the bits of operands and result, and the last section
shows for each sum and each difference that it may.
-/
import Z80.Flags
import Z80.Word

namespace Z80

/-- A byte and the flags that go with it. -/
structure Result where
  value : UInt8
  flags : Flags
deriving DecidableEq, Repr

/-- A word and the flags that go with it. -/
structure Result16 where
  value : UInt16
  flags : Flags
deriving DecidableEq, Repr

/-- The sign bit of a word. -/
def negative (w : UInt16) : Bool := bit (Word.high w) 7

namespace Alu

/-! ### Eight bits -/

/-- Adds two bytes and a carry. -/
def add (a b : UInt8) (carry : Bool) : Result :=
  let sum := a.toNat + b.toNat + carry.toNat
  let value := UInt8.ofNat sum
  { value
    flags :=
      { Flags.ofResult value with
        half := decide (16 ≤ a.toNat % 16 + b.toNat % 16 + carry.toNat)
        parity := bit a 7 == bit b 7 && bit value 7 != bit a 7
        carry := decide (256 ≤ sum) } }

/-- Takes a byte and a borrow from a byte. -/
def sub (a b : UInt8) (borrow : Bool) : Result :=
  let value := UInt8.ofNat (512 + a.toNat - b.toNat - borrow.toNat)
  { value
    flags :=
      { Flags.ofResult value with
        half := decide (a.toNat % 16 < b.toNat % 16 + borrow.toNat)
        parity := bit a 7 != bit b 7 && bit value 7 != bit a 7
        subtract := true
        carry := decide (a.toNat < b.toNat + borrow.toNat) } }

/-- Compares two bytes: the flags of the difference, with the copied bits of the subtrahend. -/
def compare (a b : UInt8) : Result := ⟨a, (sub a b false).flags.withCopied b⟩

/-- The eight operations on the accumulator. -/
inductive Op where
  | add | adc | sub | sbc | and | xor | or | cp
deriving DecidableEq, Repr

namespace Op

/-- The operation with a three-bit code. -/
def ofCode (code : Nat) : Op :=
  match code % 8 with
  | 0 => add
  | 1 => adc
  | 2 => sub
  | 3 => sbc
  | 4 => and
  | 5 => xor
  | 6 => or
  | _ => cp

/-- The accumulator and the flags after an operation. -/
def apply (op : Op) (a operand : UInt8) (f : Flags) : Result :=
  match op with
  | add => Alu.add a operand false
  | adc => Alu.add a operand f.carry
  | sub => Alu.sub a operand false
  | sbc => Alu.sub a operand f.carry
  | and => ⟨a &&& operand, { Flags.ofLogic (a &&& operand) with half := true }⟩
  | xor => ⟨a ^^^ operand, Flags.ofLogic (a ^^^ operand)⟩
  | or => ⟨a ||| operand, Flags.ofLogic (a ||| operand)⟩
  | cp => Alu.compare a operand

end Op

/-- One more, with carry kept. -/
def increment (a : UInt8) (f : Flags) : Result :=
  ⟨a + 1,
    { Flags.ofResult (a + 1) with
      half := a.toNat % 16 == 15, parity := a == 0x7F, carry := f.carry }⟩

/-- One less, with carry kept. -/
def decrement (a : UInt8) (f : Flags) : Result :=
  ⟨a - 1,
    { Flags.ofResult (a - 1) with
      half := a.toNat % 16 == 0, parity := a == 0x80, subtract := true, carry := f.carry }⟩

/-- The decimal adjustment of the accumulator after an addition or a subtraction. -/
def decimalAdjust (a : UInt8) (f : Flags) : Result :=
  let digit := a.toNat % 16
  let carry := f.carry || decide (0x99 < a.toNat)
  let correction : UInt8 := (if f.half || decide (9 < digit) then 0x06 else 0) + if carry then 0x60 else 0
  let value := if f.subtract then a - correction else a + correction
  { value
    flags :=
      { Flags.ofLogic value with
        half := if f.subtract then f.half && decide (digit < 6) else decide (9 < digit)
        subtract := f.subtract
        carry } }

/-- CPL: all bits of the accumulator turned over. -/
def complement (a : UInt8) (f : Flags) : Result :=
  ⟨~~~a, { f.withCopied (~~~a) with half := true, subtract := true }⟩

/-- SCF: carry set.  The copied bits come from `source`. -/
def setCarry (f : Flags) (source : UInt8) : Flags :=
  { f.withCopied source with half := false, subtract := false, carry := true }

/-- CCF: carry turned over, and its old value put into the half carry. -/
def flipCarry (f : Flags) (source : UInt8) : Flags :=
  { f.withCopied source with half := f.carry, subtract := false, carry := !f.carry }

/-! ### Shifts and rotations -/

/-- The eight shifts and rotations. -/
inductive Shift where
  | rlc | rrc | rl | rr | sla | sra | sll | srl
deriving DecidableEq, Repr

namespace Shift

/-- The shift with a three-bit code. -/
def ofCode (code : Nat) : Shift :=
  match code % 8 with
  | 0 => rlc
  | 1 => rrc
  | 2 => rl
  | 3 => rr
  | 4 => sla
  | 5 => sra
  | 6 => sll
  | _ => srl

/-- Does a shift move bits toward bit 7? -/
def isLeft : Shift → Bool
  | rlc | rl | sla | sll => true
  | rrc | rr | sra | srl => false

/-- The bit that a shift brings in at the end it moves bits away from. -/
def bitIn (shift : Shift) (value : UInt8) (carry : Bool) : Bool :=
  match shift with
  | rlc => bit value 7
  | rrc => bit value 0
  | rl | rr => carry
  | sla | srl => false
  | sra => bit value 7
  | sll => true

/-- The shifted byte, with the bit that fell out as carry. -/
def apply (shift : Shift) (value : UInt8) (carry : Bool) : Result :=
  let fresh := (shift.bitIn value carry).toNat
  if shift.isLeft then
    let result := UInt8.ofNat (value.toNat * 2 + fresh)
    ⟨result, { Flags.ofLogic result with carry := bit value 7 }⟩
  else
    let result := UInt8.ofNat (value.toNat / 2 + fresh * 128)
    ⟨result, { Flags.ofLogic result with carry := bit value 0 }⟩

end Shift

/-- A rotation of the accumulator, which keeps sign, zero and parity. -/
def rotateAccumulator (shift : Shift) (a : UInt8) (f : Flags) : Result :=
  let shifted := shift.apply a f.carry
  ⟨shifted.value,
    { f.withCopied shifted.value with
      half := false, subtract := false, carry := shifted.flags.carry }⟩

/-! ### Single bits -/

/-- The flags of BIT n; the copied bits come from `source`. -/
def test (n : Nat) (value source : UInt8) (f : Flags) : Flags :=
  { Flags.clear.withCopied source with
    sign := n == 7 && bit value n
    zero := !bit value n
    half := true
    parity := !bit value n
    carry := f.carry }

/-- The byte with only bit `n` set. -/
def mask (n : Nat) : UInt8 := UInt8.ofNat (1 <<< n)

/-! ### Sixteen bits -/

/-- ADD HL: adds two words; sign, zero and parity are kept. -/
def add16 (a b : UInt16) (f : Flags) : Result16 :=
  let value := a + b
  { value
    flags :=
      { f.withCopied (Word.high value) with
        half := decide (0x1000 ≤ a.toNat % 0x1000 + b.toNat % 0x1000)
        subtract := false
        carry := decide (0x10000 ≤ a.toNat + b.toNat) } }

/-- ADC HL: adds two words and a carry. -/
def adc16 (a b : UInt16) (carry : Bool) : Result16 :=
  let sum := a.toNat + b.toNat + carry.toNat
  let value := UInt16.ofNat sum
  { value
    flags :=
      { Flags.ofResult (Word.high value) with
        zero := value == 0
        half := decide (0x1000 ≤ a.toNat % 0x1000 + b.toNat % 0x1000 + carry.toNat)
        parity := negative a == negative b && negative value != negative a
        carry := decide (0x10000 ≤ sum) } }

/-- SBC HL: takes a word and a borrow from a word. -/
def sbc16 (a b : UInt16) (borrow : Bool) : Result16 :=
  let value := UInt16.ofNat (0x20000 + a.toNat - b.toNat - borrow.toNat)
  { value
    flags :=
      { Flags.ofResult (Word.high value) with
        zero := value == 0
        half := decide (a.toNat % 0x1000 < b.toNat % 0x1000 + borrow.toNat)
        parity := negative a != negative b && negative value != negative a
        subtract := true
        carry := decide (a.toNat < b.toNat + borrow.toNat) } }

/-! ### Flags of moves -/

/-- Flags after a byte has come in through port C, or has been rotated into the accumulator. -/
def moved (value : UInt8) (f : Flags) : Flags := { Flags.ofLogic value with carry := f.carry }

/-- Flags after `i` or `r` has been loaded into the accumulator. -/
def loadedSpecial (value : UInt8) (iff2 : Bool) (f : Flags) : Flags :=
  { Flags.ofResult value with parity := iff2, carry := f.carry }

/-- Flags after one byte of a block transfer: bits 3 and 1 of its sum with the accumulator show. -/
def blockLoaded (f : Flags) (a value : UInt8) (more : Bool) : Flags :=
  { f with
    y := bit (value + a) 1, half := false, x := bit (value + a) 3, parity := more, subtract := false }

/-- Flags after one comparison of a block search. -/
def blockCompared (f : Flags) (a value : UInt8) (more : Bool) : Flags :=
  let half := decide (a.toNat % 16 < value.toNat % 16)
  let shown := a - value - UInt8.ofNat half.toNat
  { Flags.ofResult (a - value) with
    y := bit shown 1, half, x := bit shown 3, parity := more, subtract := true, carry := f.carry }

/--
Flags after one byte of a block input or output.  `sum` is the byte added to C as it will
be addressed next, or to the new L, and `b` is the count that is left.
-/
def blockPorted (value : UInt8) (sum : Nat) (b : UInt8) : Flags :=
  { Flags.ofResult b with
    half := decide (256 ≤ sum)
    parity := Flags.evenParity (UInt8.ofNat (sum % 8) ^^^ b)
    subtract := bit value 7
    carry := decide (256 ≤ sum) }

/-! ### Flags as patterns of bits

A carry into a bit shows in the exclusive or of that bit in the two operands and in the sum.  So does a
borrow, with the difference, because taking away is undone by adding.  Overflow shows in the sign bits.
What leaves the top shows in twice the width: there a sum may be too large for a byte or a word, and a
difference that would be below zero wraps around and is too.
-/

/-- A carry into a bit can be told from that bit, even if the sum has lost what leaves its top. -/
theorem carry_eq_xor {width i : Nat} (hi : i < width) {a b sum : BitVec width} {carry : Bool}
    (hsum : sum.toNat = (a.toNat + b.toNat + carry.toNat) % 1 <<< width) :
    BitVec.carry i a b carry = (a.getLsbD i ^^ b.getLsbD i ^^ sum.getLsbD i) := by
  have hadd : sum = a + b + BitVec.setWidth width (BitVec.ofBool carry) := by
    apply BitVec.eq_of_toNat_eq
    rw [hsum, Nat.one_shiftLeft, BitVec.toNat_add, BitVec.toNat_add, BitVec.toNat_setWidth,
      BitVec.toNat_ofBool, Nat.mod_add_mod, Nat.add_mod_mod]
  rw [hadd, BitVec.getLsbD_add_add_bool hi]
  cases a.getLsbD i <;> cases b.getLsbD i <;> simp

/-- A sum overflows where its sign is that of neither operand. -/
theorem sum_overflow (a b value : Bool) : (a == b && value != a) = ((a ^^ value) && (b ^^ value)) := by
  cases a <;> cases b <;> cases value <;> rfl

/-- A difference overflows where the second operand and the result have not the sign of the first. -/
theorem difference_overflow (a b value : Bool) :
    (a != b && value != a) = ((a ^^ b) && (a ^^ value)) := by
  cases a <;> cases b <;> cases value <;> rfl

section Bytes

variable (a b : UInt8) (carry : Bool)

theorem half_sum {value : UInt8}
    (hvalue : value.toNat = (a.toNat + b.toNat + carry.toNat) % 256) :
    decide (16 ≤ a.toNat % 16 + b.toNat % 16 + carry.toNat) = bit (a ^^^ b ^^^ value) 4 := by
  rw [bit_xor, bit_xor]
  exact carry_eq_xor (by decide : 4 < 8) hvalue

theorem half_difference {value : UInt8}
    (hvalue : value.toNat = (512 + a.toNat - b.toNat - carry.toNat) % 256) :
    decide (a.toNat % 16 < b.toNat % 16 + carry.toNat) = bit (a ^^^ b ^^^ value) 4 := by
  have ha := a.toNat_lt
  have hb := b.toNat_lt
  have hc := carry.toNat_le
  have hback : a.toNat = (value.toNat + b.toNat + carry.toNat) % 256 := by omega
  have hborrows : a.toNat % 16 < b.toNat % 16 + carry.toNat ↔
      16 ≤ value.toNat % 16 + b.toNat % 16 + carry.toNat := by omega
  rw [decide_eq_decide.mpr hborrows, half_sum _ _ _ hback, UInt8.xor_comm (value ^^^ b),
    UInt8.xor_comm value, UInt8.xor_assoc]

theorem toNat_widened_sum :
    (a.toUInt16 + b.toUInt16 + carry.toUInt16).toNat = a.toNat + b.toNat + carry.toNat := by
  have := a.toNat_lt
  have := b.toNat_lt
  cases carry <;> simp [Bool.toUInt16] <;> omega

theorem toNat_widened_difference :
    (a.toUInt16 - b.toUInt16 - carry.toUInt16).toNat =
      (0x10000 + a.toNat - b.toNat - carry.toNat) % 0x10000 := by
  have := a.toNat_lt
  have := b.toNat_lt
  cases carry <;> simp [Bool.toUInt16, UInt16.toNat_sub] <;> omega

/-- Bytes added bit by bit, and in sixteen bits for the carry. -/
theorem add_bitwise :
    add a b carry =
      let sum := a.toUInt16 + b.toUInt16 + carry.toUInt16
      let value := sum.toUInt8
      { value
        flags :=
          { Flags.ofResult value with
            half := bit (a ^^^ b ^^^ value) 4
            parity := bit ((a ^^^ value) &&& (b ^^^ value)) 7
            carry := decide (0xFF < sum) } } := by
  have hsum := toNat_widened_sum a b carry
  have hvalue : (a.toUInt16 + b.toUInt16 + carry.toUInt16).toUInt8 =
      UInt8.ofNat (a.toNat + b.toNat + carry.toNat) := by
    rw [← hsum]
    rfl
  have hhalf := half_sum a b carry UInt8.toNat_ofNat'
  have hcarry : 256 ≤ a.toNat + b.toNat + carry.toNat ↔
      0xFF < a.toUInt16 + b.toUInt16 + carry.toUInt16 := by
    rw [UInt16.lt_iff_toNat_lt, hsum]
    rfl
  simp only [add, hvalue, hhalf, hcarry, sum_overflow, bit_and, bit_xor]

/-- Bytes subtracted bit by bit, and in sixteen bits for the borrow. -/
theorem sub_bitwise :
    sub a b carry =
      let difference := a.toUInt16 - b.toUInt16 - carry.toUInt16
      let value := difference.toUInt8
      { value
        flags :=
          { Flags.ofResult value with
            half := bit (a ^^^ b ^^^ value) 4
            parity := bit ((a ^^^ b) &&& (a ^^^ value)) 7
            subtract := true
            carry := decide (0xFF < difference) } } := by
  have hdifference := toNat_widened_difference a b carry
  have ha := a.toNat_lt
  have hb := b.toNat_lt
  have hc := carry.toNat_le
  have hvalue : (a.toUInt16 - b.toUInt16 - carry.toUInt16).toUInt8 =
      UInt8.ofNat (512 + a.toNat - b.toNat - carry.toNat) := by
    apply UInt8.toNat_inj.mp
    rw [UInt16.toNat_toUInt8, hdifference, UInt8.toNat_ofNat']
    omega
  have hhalf := half_difference a b carry UInt8.toNat_ofNat'
  have hborrow : a.toNat < b.toNat + carry.toNat ↔
      0xFF < a.toUInt16 - b.toUInt16 - carry.toUInt16 := by
    rw [UInt16.lt_iff_toNat_lt, hdifference]
    show _ ↔ 0xFF < _
    omega
  simp only [sub, hvalue, hhalf, hborrow, difference_overflow, bit_and, bit_xor]

end Bytes

section Words

variable (a b : UInt16) (carry : Bool)

theorem half_sum16 {value : UInt16}
    (hvalue : value.toNat = (a.toNat + b.toNat + carry.toNat) % 0x10000) :
    decide (0x1000 ≤ a.toNat % 0x1000 + b.toNat % 0x1000 + carry.toNat) =
      bit (Word.high (a ^^^ b ^^^ value)) 4 := by
  have hbit : bit (Word.high (a ^^^ b ^^^ value)) 4 = (a ^^^ b ^^^ value).toNat.testBit 12 := by
    rw [bit, Word.toNat_high]
    exact Nat.testBit_div_two_pow (n := 8) _ 4
  rw [hbit, UInt16.toNat_xor, UInt16.toNat_xor, Nat.testBit_xor, Nat.testBit_xor]
  exact carry_eq_xor (by decide : 12 < 16) hvalue

theorem half_difference16 {value : UInt16}
    (hvalue : value.toNat = (0x20000 + a.toNat - b.toNat - carry.toNat) % 0x10000) :
    decide (a.toNat % 0x1000 < b.toNat % 0x1000 + carry.toNat) =
      bit (Word.high (a ^^^ b ^^^ value)) 4 := by
  have ha := a.toNat_lt
  have hb := b.toNat_lt
  have hc := carry.toNat_le
  have hback : a.toNat = (value.toNat + b.toNat + carry.toNat) % 0x10000 := by omega
  have hborrows : a.toNat % 0x1000 < b.toNat % 0x1000 + carry.toNat ↔
      0x1000 ≤ value.toNat % 0x1000 + b.toNat % 0x1000 + carry.toNat := by omega
  rw [decide_eq_decide.mpr hborrows, half_sum16 _ _ _ hback, UInt16.xor_comm (value ^^^ b),
    UInt16.xor_comm value, UInt16.xor_assoc]

theorem toNat_widened_sum16 :
    (a.toUInt32 + b.toUInt32 + carry.toUInt32).toNat = a.toNat + b.toNat + carry.toNat := by
  have := a.toNat_lt
  have := b.toNat_lt
  cases carry <;> simp [Bool.toUInt32] <;> omega

theorem toNat_widened_difference16 :
    (a.toUInt32 - b.toUInt32 - carry.toUInt32).toNat =
      (0x100000000 + a.toNat - b.toNat - carry.toNat) % 0x100000000 := by
  have := a.toNat_lt
  have := b.toNat_lt
  cases carry <;> simp [Bool.toUInt32, UInt32.toNat_sub] <;> omega

/-- Words added bit by bit, and in thirty-two bits for the carry. -/
theorem adc16_bitwise :
    adc16 a b carry =
      let sum := a.toUInt32 + b.toUInt32 + carry.toUInt32
      let value := sum.toUInt16
      { value
        flags :=
          { Flags.ofResult (Word.high value) with
            zero := value == 0
            half := bit (Word.high (a ^^^ b ^^^ value)) 4
            parity := negative ((a ^^^ value) &&& (b ^^^ value))
            carry := decide (0xFFFF < sum) } } := by
  have hsum := toNat_widened_sum16 a b carry
  have hvalue : (a.toUInt32 + b.toUInt32 + carry.toUInt32).toUInt16 =
      UInt16.ofNat (a.toNat + b.toNat + carry.toNat) := by
    rw [← hsum]
    rfl
  have hhalf := half_sum16 a b carry UInt16.toNat_ofNat'
  have hcarry : 0x10000 ≤ a.toNat + b.toNat + carry.toNat ↔
      0xFFFF < a.toUInt32 + b.toUInt32 + carry.toUInt32 := by
    rw [UInt32.lt_iff_toNat_lt, hsum]
    rfl
  simp only [adc16, hvalue, hhalf, hcarry, sum_overflow, negative, Word.high_and, Word.high_xor,
    bit_and, bit_xor]

/-- Words subtracted bit by bit, and in thirty-two bits for the borrow. -/
theorem sbc16_bitwise :
    sbc16 a b carry =
      let difference := a.toUInt32 - b.toUInt32 - carry.toUInt32
      let value := difference.toUInt16
      { value
        flags :=
          { Flags.ofResult (Word.high value) with
            zero := value == 0
            half := bit (Word.high (a ^^^ b ^^^ value)) 4
            parity := negative ((a ^^^ b) &&& (a ^^^ value))
            subtract := true
            carry := decide (0xFFFF < difference) } } := by
  have hdifference := toNat_widened_difference16 a b carry
  have ha := a.toNat_lt
  have hb := b.toNat_lt
  have hc := carry.toNat_le
  have hvalue : (a.toUInt32 - b.toUInt32 - carry.toUInt32).toUInt16 =
      UInt16.ofNat (0x20000 + a.toNat - b.toNat - carry.toNat) := by
    apply UInt16.toNat_inj.mp
    rw [UInt32.toNat_toUInt16, hdifference, UInt16.toNat_ofNat']
    omega
  have hhalf := half_difference16 a b carry UInt16.toNat_ofNat'
  have hborrow : a.toNat < b.toNat + carry.toNat ↔
      0xFFFF < a.toUInt32 - b.toUInt32 - carry.toUInt32 := by
    rw [UInt32.lt_iff_toNat_lt, hdifference]
    show _ ↔ 0xFFFF < _
    omega
  simp only [sbc16, hvalue, hhalf, hborrow, difference_overflow, negative, Word.high_and,
    Word.high_xor, bit_and, bit_xor]

/-- But for the flags that it keeps, adding two words is adding them without a carry. -/
theorem add16_eq_adc16 (f : Flags) :
    add16 a b f =
      let sum := adc16 a b false
      ⟨sum.value,
        { f.withCopied (Word.high sum.value) with
          half := sum.flags.half, subtract := false, carry := sum.flags.carry }⟩ := by
  have hvalue : a + b = UInt16.ofNat (a.toNat + b.toNat) := by
    rw [UInt16.ofNat_add, UInt16.ofNat_toNat, UInt16.ofNat_toNat]
  simp only [add16, adc16, hvalue, Bool.toNat_false, Nat.add_zero]

theorem add16_bitwise (f : Flags) :
    add16 a b f =
      let sum := a.toUInt32 + b.toUInt32
      let value := sum.toUInt16
      { value
        flags :=
          { f.withCopied (Word.high value) with
            half := bit (Word.high (a ^^^ b ^^^ value)) 4
            subtract := false
            carry := decide (0xFFFF < sum) } } := by
  have hzero : a.toUInt32 + b.toUInt32 + Bool.toUInt32 false = a.toUInt32 + b.toUInt32 :=
    UInt32.add_zero _
  rw [add16_eq_adc16, adc16_bitwise]
  simp only [hzero]

end Words

/-! Counting by one and the comparison in a block search have the half carry of their sum or difference. -/

section Counting

variable (f : Flags) (a value : UInt8)

theorem blockCompared_half (more : Bool) :
    (blockCompared f a value more).half = bit (a ^^^ value ^^^ (a - value)) 4 := by
  have hvalue : (a - value).toNat = (512 + a.toNat - value.toNat - false.toNat) % 256 := by
    have := a.toNat_lt
    have := value.toNat_lt
    rw [UInt8.toNat_sub, Bool.toNat_false]
    omega
  exact half_difference a value false hvalue

theorem bit_xor_one : bit (a ^^^ 1 ^^^ value) 4 = bit (a ^^^ value) 4 := by
  rw [bit_xor, bit_xor, bit_xor, show bit 1 4 = false from rfl, Bool.xor_false]

theorem increment_half : (increment a f).flags.half = bit (a ^^^ (a + 1)) 4 := by
  have hhalf := half_sum a 1 false (UInt8.toNat_add a 1)
  have hone : a.toNat % 16 = 15 ↔ 16 ≤ a.toNat % 16 + (1 : UInt8).toNat % 16 + false.toNat := by
    show _ ↔ 16 ≤ a.toNat % 16 + 1 + 0
    omega
  rw [← bit_xor_one, ← hhalf]
  exact decide_eq_decide.mpr hone

theorem decrement_half : (decrement a f).flags.half = bit (a ^^^ (a - 1)) 4 := by
  have hhalf := blockCompared_half f a 1 false
  have hone : a.toNat % 16 = 0 ↔ a.toNat % 16 < (1 : UInt8).toNat % 16 := by
    show _ ↔ a.toNat % 16 < 1
    omega
  rw [← bit_xor_one, ← hhalf]
  exact decide_eq_decide.mpr hone

end Counting

end Alu

end Z80
