/-
The register file.

The eight main registers form a `RegisterSet`, of which there are two: the one programs
compute with and the alternate one that the exchange instructions swap it with.  Beside
them stand the index registers, the stack pointer, the program counter, the interrupt
base `i`, the refresh counter `r`, the internal address register `wz`, and the interrupt
flip-flops, mode and halt state.

Pairs are stored as their two bytes, high byte first, so a pair and its halves can never
disagree.  The index registers are stored as words, and their halves are cut out of them.
-/
import Z80.Word

namespace Z80

/-- Accumulator, flags and the six registers that pair up. -/
structure RegisterSet where
  a : UInt8
  f : UInt8
  b : UInt8
  c : UInt8
  d : UInt8
  e : UInt8
  h : UInt8
  l : UInt8
deriving DecidableEq, Repr, Inhabited

namespace RegisterSet

def af (s : RegisterSet) : UInt16 := Word.ofBytes s.a s.f
def bc (s : RegisterSet) : UInt16 := Word.ofBytes s.b s.c
def de (s : RegisterSet) : UInt16 := Word.ofBytes s.d s.e
def hl (s : RegisterSet) : UInt16 := Word.ofBytes s.h s.l

def setAF (s : RegisterSet) (w : UInt16) : RegisterSet := { s with a := Word.high w, f := Word.low w }
def setBC (s : RegisterSet) (w : UInt16) : RegisterSet := { s with b := Word.high w, c := Word.low w }
def setDE (s : RegisterSet) (w : UInt16) : RegisterSet := { s with d := Word.high w, e := Word.low w }
def setHL (s : RegisterSet) (w : UInt16) : RegisterSet := { s with h := Word.high w, l := Word.low w }

/-- The set with zero in every register. -/
def zero : RegisterSet := ⟨0, 0, 0, 0, 0, 0, 0, 0⟩

end RegisterSet

/-- Everything the processor keeps in registers. -/
structure Registers where
  main : RegisterSet
  /-- The set that EX AF,AF' and EXX exchange the main one with. -/
  alternate : RegisterSet
  ix : UInt16
  iy : UInt16
  sp : UInt16
  pc : UInt16
  /-- The internal address register; it shows in two flags of BIT n,(HL). -/
  wz : UInt16
  /-- Upper byte of the vector address in interrupt mode 2. -/
  i : UInt8
  /-- Counts opcode fetches in its low seven bits. -/
  r : UInt8
  /-- Interrupts are accepted. -/
  iff1 : Bool
  /-- What `iff1` is restored to on return from a non-maskable interrupt. -/
  iff2 : Bool
  /-- Interrupt mode; anything but 1 and 2 acts as mode 0. -/
  im : UInt8
  halted : Bool
deriving DecidableEq, Repr, Inhabited

namespace Registers

/-- Registers that hold zero. -/
def zero : Registers := ⟨.zero, .zero, 0, 0, 0, 0, 0, 0, 0, false, false, 0, false⟩

/-- EX AF,AF': swaps the accumulators and the flags of the two sets. -/
def exchangeAF (r : Registers) : Registers :=
  { r with
    main := { r.main with a := r.alternate.a, f := r.alternate.f }
    alternate := { r.alternate with a := r.main.a, f := r.main.f } }

/-- EXX: swaps everything but the accumulators and the flags. -/
def exchangeAll (r : Registers) : Registers :=
  { r with
    main := { r.alternate with a := r.main.a, f := r.main.f }
    alternate := { r.main with a := r.alternate.a, f := r.alternate.f } }

/-- EX DE,HL. -/
def exchangeDEHL (r : Registers) : Registers :=
  { r with main := { r.main with d := r.main.h, e := r.main.l, h := r.main.d, l := r.main.e } }

/-- Counts `n` opcode fetches: the low seven bits of `r` advance, bit 7 stays. -/
def refresh (r : Registers) (n : Nat) : Registers :=
  { r with r := UInt8.ofNat (r.r.toNat / 128 * 128 + (r.r.toNat + n) % 128) }

end Registers

end Z80
