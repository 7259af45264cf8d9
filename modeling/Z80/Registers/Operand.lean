/-
Names of registers.

Instructions name registers in two ways.  `Reg8` and `Pair` name a register outright,
halves of the index registers included.  In opcodes there are only the codes 0 to 7 for
bytes and 0 to 3 for pairs, and a DD or FD prefix makes the codes of H, L and HL mean the
index register instead: that is `Reg8.indexed` and `Pair.indexed`, applied once when an
instruction is decoded.  After that no instruction has to know about prefixes.

Code 6 is no register but the memory operand.
-/
import Z80.Registers

namespace Z80

/-- The registers that a prefix puts in the place of HL. -/
inductive Index where
  | ix
  | iy
deriving DecidableEq, Repr

/-- The registers of one byte. -/
inductive Reg8 where
  | a | b | c | d | e | h | l
  | ixh | ixl | iyh | iyl
deriving DecidableEq, Repr

/-- The registers of one word. -/
inductive Pair where
  | bc | de | hl | sp | af
  | ix | iy
deriving DecidableEq, Repr

namespace Index

/-- An index register as a pair. -/
def pair : Index → Pair
  | .ix => .ix
  | .iy => .iy

end Index

namespace Reg8

/-- The register with a three-bit code; code 6 is the memory operand. -/
def ofCode? (code : Nat) : Option Reg8 :=
  match code % 8 with
  | 0 => some b
  | 1 => some c
  | 2 => some d
  | 3 => some e
  | 4 => some h
  | 5 => some l
  | 7 => some a
  | _ => none

/-- What a register code means behind a prefix. -/
def indexed : Option Index → Reg8 → Reg8
  | some .ix, h => ixh
  | some .ix, l => ixl
  | some .iy, h => iyh
  | some .iy, l => iyl
  | _, r => r

end Reg8

namespace Pair

/-- The pair with a two-bit code, as most instructions read it. -/
def ofCode (code : Nat) : Pair :=
  match code % 4 with
  | 0 => bc
  | 1 => de
  | 2 => hl
  | _ => sp

/-- The pair with a two-bit code, as PUSH and POP read it: AF in the place of SP. -/
def stackOfCode (code : Nat) : Pair :=
  match code % 4 with
  | 0 => bc
  | 1 => de
  | 2 => hl
  | _ => af

/-- What a pair code means behind a prefix. -/
def indexed : Option Index → Pair → Pair
  | some i, hl => i.pair
  | _, p => p

end Pair

namespace Registers

/-- The byte in a register. -/
def get8 (r : Registers) : Reg8 → UInt8
  | .a => r.main.a
  | .b => r.main.b
  | .c => r.main.c
  | .d => r.main.d
  | .e => r.main.e
  | .h => r.main.h
  | .l => r.main.l
  | .ixh => Word.high r.ix
  | .ixl => Word.low r.ix
  | .iyh => Word.high r.iy
  | .iyl => Word.low r.iy

/-- Puts a byte into a register. -/
def set8 (r : Registers) (target : Reg8) (v : UInt8) : Registers :=
  match target with
  | .a => { r with main := { r.main with a := v } }
  | .b => { r with main := { r.main with b := v } }
  | .c => { r with main := { r.main with c := v } }
  | .d => { r with main := { r.main with d := v } }
  | .e => { r with main := { r.main with e := v } }
  | .h => { r with main := { r.main with h := v } }
  | .l => { r with main := { r.main with l := v } }
  | .ixh => { r with ix := Word.ofBytes v (Word.low r.ix) }
  | .ixl => { r with ix := Word.ofBytes (Word.high r.ix) v }
  | .iyh => { r with iy := Word.ofBytes v (Word.low r.iy) }
  | .iyl => { r with iy := Word.ofBytes (Word.high r.iy) v }

/-- The word in a pair. -/
def get16 (r : Registers) : Pair → UInt16
  | .bc => r.main.bc
  | .de => r.main.de
  | .hl => r.main.hl
  | .af => r.main.af
  | .sp => r.sp
  | .ix => r.ix
  | .iy => r.iy

/-- Puts a word into a pair. -/
def set16 (r : Registers) (target : Pair) (w : UInt16) : Registers :=
  match target with
  | .bc => { r with main := r.main.setBC w }
  | .de => { r with main := r.main.setDE w }
  | .hl => { r with main := r.main.setHL w }
  | .af => { r with main := r.main.setAF w }
  | .sp => { r with sp := w }
  | .ix => { r with ix := w }
  | .iy => { r with iy := w }

end Registers

end Z80
