/-
Hexadecimal text.

Addresses, opcodes and register contents are written in upper-case hexadecimal with
leading zeros, so that every byte has two digits and every word four.  `Hex.digits`
writes a number in a fixed count of digits, most significant first; the count is what
makes the text of a byte or a word readable back.
-/

namespace Z80

namespace Hex

/-- The digit that stands for a number below sixteen. -/
def digit (n : Nat) : Char :=
  if n < 10 then Char.ofNat (48 + n) else Char.ofNat (55 + n)

/-- The last `count` hexadecimal digits of a number, most significant first. -/
def digits : (count : Nat) → Nat → List Char
  | 0, _ => []
  | count + 1, n => digits count (n / 16) ++ [digit (n % 16)]

@[simp] theorem length_digits (count n : Nat) : (digits count n).length = count := by
  induction count generalizing n with
  | zero => rfl
  | succ count ih => simp [digits, ih]

/-- Two digits for a byte. -/
def byte (b : UInt8) : String := String.ofList (digits 2 b.toNat)

/-- Four digits for a word. -/
def word (w : UInt16) : String := String.ofList (digits 4 w.toNat)

/-- Eight digits for a 32-bit number. -/
def long (n : UInt32) : String := String.ofList (digits 8 n.toNat)

/-- Two digits for each byte, nothing between them. -/
def bytes (bs : List UInt8) : String := String.join (bs.map byte)

/-- The value of a digit of either case. -/
def value? (c : Char) : Option Nat :=
  if '0' ≤ c ∧ c ≤ '9' then some (c.toNat - 48)
  else if 'A' ≤ c ∧ c ≤ 'F' then some (c.toNat - 55)
  else if 'a' ≤ c ∧ c ≤ 'f' then some (c.toNat - 87)
  else none

/-- Reads pairs of digits; anything else, or a digit left over, makes the text no byte list. -/
def readBytes? : List Char → Option (List UInt8)
  | [] => some []
  | [_] => none
  | a :: b :: rest => do
      let high ← value? a
      let low ← value? b
      return UInt8.ofNat (high * 16 + low) :: (← readBytes? rest)

end Hex

end Z80
