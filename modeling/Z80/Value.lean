/-
Values that know how wide they are.

What a debugger is shown, and what a record on file holds, is a truth value or a number
of one of four widths.  The width decides how a value is written and which numbers fit.
-/
import Z80.Hex

namespace Z80

/-- A truth value or a number of known width. -/
inductive Value where
  | bool (b : Bool)
  | byte (n : UInt8)
  | word (n : UInt16)
  | long (n : UInt32)
  | quad (n : UInt64)
deriving DecidableEq, Repr

namespace Value

/-- The value as a number; truth is one. -/
def toUInt64 : Value → UInt64
  | bool b => if b then 1 else 0
  | byte n => n.toUInt64
  | word n => n.toUInt64
  | long n => n.toUInt64
  | quad n => n

/-- Bytes and words are written in hexadecimal, wider numbers in decimal. -/
def render : Value → String
  | bool b => if b then "true" else "false"
  | byte n => "0x" ++ Hex.byte n
  | word n => "0x" ++ Hex.word n
  | long n => toString n.toNat
  | quad n => toString n.toNat

end Value

/-- The width of a value. -/
inductive Width where
  | bool | byte | word | long | quad
deriving DecidableEq, Repr

namespace Width

/-- Numbers of a width lie below this. -/
def bound : Width → Nat
  | bool => 2
  | byte => UInt8.size
  | word => UInt16.size
  | long => UInt32.size
  | quad => UInt64.size

/-- A number as a value of a width, if it fits; it is no truth value. -/
def ofNat? (width : Width) (n : Nat) : Option Value :=
  if n < width.bound then
    match width with
    | bool => none
    | byte => some (.byte (.ofNat n))
    | word => some (.word (.ofNat n))
    | long => some (.long (.ofNat n))
    | quad => some (.quad (.ofNat n))
  else none

end Width

end Z80
