/-
Instructions.

An `Instruction` is what an opcode with its prefixes, displacement and operand bytes
comes to: the registers it names are the real ones, and the bytes and words it carries
are part of it.  Two byte sequences that behave alike give the same instruction, so
`Instruction` is where decoding ends and execution begins.

Memory operands are `Pointer`s.  A prefix turns the pointer HL into an index register
with a displacement; what it does to H and L as register operands has been settled by the
time an instruction exists.
-/
import Z80.Alu
import Z80.Registers.Operand

namespace Z80

/-- Where a memory operand is. -/
inductive Pointer where
  /-- (HL). -/
  | hl
  /-- (IX+d) or (IY+d). -/
  | indexed (base : Index) (displacement : Int8)
deriving DecidableEq, Repr

/-- Where the second operand of an accumulator operation comes from. -/
inductive Operand where
  | register (r : Reg8)
  | immediate (n : UInt8)
  | memory (p : Pointer)
deriving DecidableEq, Repr

/-- Operations that read a byte, change it and put it back. -/
inductive BitOp where
  | shift (s : Alu.Shift)
  | reset (n : Nat)
  | set (n : Nat)
deriving DecidableEq, Repr

/-- What a block instruction does with each byte. -/
inductive BlockOp where
  /-- Moves it from (HL) to (DE). -/
  | load
  /-- Compares it with the accumulator. -/
  | compare
  /-- Moves it from port C to (HL). -/
  | input
  /-- Moves it from (HL) to port C. -/
  | output
deriving DecidableEq, Repr

/-- Which way a block instruction walks through memory. -/
inductive Direction where
  | up
  | down
deriving DecidableEq, Repr

/-- The address next to an address. -/
def Direction.next : Direction → UInt16 → UInt16
  | .up, w => w + 1
  | .down, w => w - 1

/-- What the processor can be told to do. -/
inductive Instruction where
  | nop
  /-- An unassigned code of the ED table, which does nothing. -/
  | reserved (code : UInt8)
  | halt
  | di
  | ei
  | im (mode : UInt8)
  /-- LD r,r'. -/
  | load (target source : Reg8)
  /-- LD r,n. -/
  | loadImmediate (target : Reg8) (n : UInt8)
  /-- LD r,(HL). -/
  | loadFrom (target : Reg8) (source : Pointer)
  /-- LD (HL),r. -/
  | storeTo (target : Pointer) (source : Reg8)
  /-- LD (HL),n. -/
  | storeImmediate (target : Pointer) (n : UInt8)
  /-- LD A,(BC) and LD A,(DE). -/
  | loadAIndirect (source : Pair)
  /-- LD (BC),A and LD (DE),A. -/
  | storeAIndirect (target : Pair)
  /-- LD A,(nn). -/
  | loadADirect (source : UInt16)
  /-- LD (nn),A. -/
  | storeADirect (target : UInt16)
  /-- LD I,A. -/
  | loadIA
  /-- LD R,A. -/
  | loadRA
  /-- LD A,I. -/
  | loadAI
  /-- LD A,R. -/
  | loadAR
  /-- LD rr,nn. -/
  | loadPair (target : Pair) (nn : UInt16)
  /-- LD rr,(nn). -/
  | loadPairDirect (target : Pair) (source : UInt16)
  /-- LD (nn),rr. -/
  | storePairDirect (target : UInt16) (source : Pair)
  /-- LD SP,HL. -/
  | loadSP (source : Pair)
  | push (source : Pair)
  | pop (target : Pair)
  /-- EX AF,AF'. -/
  | exchangeAF
  /-- EXX. -/
  | exchangeAll
  /-- EX DE,HL. -/
  | exchangeDEHL
  /-- EX (SP),HL. -/
  | exchangeTop (target : Pair)
  /-- ADD, ADC, SUB, SBC, AND, XOR, OR and CP on the accumulator. -/
  | accumulate (op : Alu.Op) (operand : Operand)
  | increment (target : Reg8)
  | incrementAt (target : Pointer)
  | decrement (target : Reg8)
  | decrementAt (target : Pointer)
  | incrementPair (target : Pair)
  | decrementPair (target : Pair)
  /-- ADD HL,rr. -/
  | addPair (target source : Pair)
  /-- ADC HL,rr. -/
  | adcPair (source : Pair)
  /-- SBC HL,rr. -/
  | sbcPair (source : Pair)
  /-- RLCA, RRCA, RLA and RRA. -/
  | rotateA (shift : Alu.Shift)
  | daa
  | cpl
  | scf
  | ccf
  | neg
  | rrd
  | rld
  /-- A shift, RES or SET of a register. -/
  | modify (op : BitOp) (target : Reg8)
  /-- A shift, RES or SET in memory, with the result also copied to a register or not. -/
  | modifyAt (op : BitOp) (target : Pointer) (copy : Option Reg8)
  /-- BIT n,r. -/
  | test (n : Nat) (source : Reg8)
  /-- BIT n,(HL). -/
  | testAt (n : Nat) (source : Pointer)
  | jump (target : UInt16)
  | jumpIf (condition : Condition) (target : UInt16)
  /-- JP (HL), which jumps to HL itself. -/
  | jumpPair (target : Pair)
  | jumpRelative (d : Int8)
  | jumpRelativeIf (condition : Condition) (d : Int8)
  | djnz (d : Int8)
  | call (target : UInt16)
  | callIf (condition : Condition) (target : UInt16)
  | ret
  | retIf (condition : Condition)
  | retn
  | reti
  /-- A call of one of the eight fixed addresses, eight bytes apart. -/
  | rst (vector : UInt8)
  /-- IN A,(n). -/
  | inputA (low : UInt8)
  /-- OUT (n),A. -/
  | outputA (low : UInt8)
  /-- IN r,(C); without a register only the flags tell what came in. -/
  | inputC (target : Option Reg8)
  /-- OUT (C),r; without a register zero goes out. -/
  | outputC (source : Option Reg8)
  /-- One of the sixteen block instructions. -/
  | block (op : BlockOp) (direction : Direction) (repeats : Bool)
deriving DecidableEq, Repr

end Z80
