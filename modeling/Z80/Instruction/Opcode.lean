/-
The opcode tables.

An opcode has three fields: bits 7 and 6 choose a quarter of the table, `y` is bits 5 to
3 and `z` is bits 2 to 0.  Registers, conditions and operations sit in these fields, so a
table is a few lines for each quarter rather than 256 entries.

DD and FD in front of an opcode choose an index register.  In a run of them only the last
one counts.  CB leads to the table of bit operations, and behind an index register to the
table of indexed bit operations, in which the displacement comes before the code.  ED
leads to the extended table, where an index register has no meaning.

A chain of DD and FD bytes has no end that the processor knows of, so reading a whole
instruction takes a bound on the length of the chain; with the bound reached there is no
instruction.
-/
import Z80.Instruction
import Z80.Instruction.Encoding

namespace Z80

/-- The index register that a byte chooses as a prefix. -/
def Index.ofByte? (b : UInt8) : Option Index :=
  if b = 0xDD then some .ix
  else if b = 0xFD then some .iy
  else none

namespace Opcode

/-- Bits 5 to 3 of an opcode. -/
def y (op : UInt8) : Nat := op.toNat / 8 % 8

/-- Bits 2 to 0 of an opcode. -/
def z (op : UInt8) : Nat := op.toNat % 8

theorem y_lt (op : UInt8) : y op < 8 := Nat.mod_lt _ (by decide)

theorem z_lt (op : UInt8) : z op < 8 := Nat.mod_lt _ (by decide)

/-- The memory operand: (HL), or an index register and a displacement that follows. -/
def pointer : Option Index → Encoding Pointer
  | none => pure .hl
  | some base => return .indexed base (← Encoding.displacement)

/-! ### The main table -/

/-- Opcodes 00 to 3F. -/
def firstQuarter (index : Option Index) (y z : Nat) : Encoding Instruction :=
  let base := Pair.indexed index .hl
  let pair := Pair.indexed index (.ofCode (y / 2))
  match z with
  | 0 =>
      match y with
      | 0 => pure .nop
      | 1 => pure .exchangeAF
      | 2 => .pause 1 do return .djnz (← .displacement)
      | 3 => return .jumpRelative (← .displacement)
      | _ => return .jumpRelativeIf (.ofCode (y - 4)) (← .displacement)
  | 1 =>
      if y % 2 = 0 then return .loadPair pair (← .word)
      else pure (.addPair base pair)
  | 2 =>
      match y with
      | 0 => pure (.storeAIndirect .bc)
      | 1 => pure (.loadAIndirect .bc)
      | 2 => pure (.storeAIndirect .de)
      | 3 => pure (.loadAIndirect .de)
      | 4 => return .storePairDirect (← .word) base
      | 5 => return .loadPairDirect base (← .word)
      | 6 => return .storeADirect (← .word)
      | _ => return .loadADirect (← .word)
  | 3 => pure (if y % 2 = 0 then .incrementPair pair else .decrementPair pair)
  | 4 =>
      match Reg8.ofCode? y with
      | some r => pure (.increment (r.indexed index))
      | none => return .incrementAt (← pointer index)
  | 5 =>
      match Reg8.ofCode? y with
      | some r => pure (.decrement (r.indexed index))
      | none => return .decrementAt (← pointer index)
  | 6 =>
      match Reg8.ofCode? y with
      | some r => return .loadImmediate (r.indexed index) (← .byte)
      | none => do
          let target ← pointer index
          return .storeImmediate target (← .byte)
  | _ =>
      match y with
      | 4 => pure .daa
      | 5 => pure .cpl
      | 6 => pure .scf
      | 7 => pure .ccf
      | _ => pure (.rotateA (.ofCode y))

/-- Opcodes 40 to 7F: a register beside a memory operand is never an index half. -/
def secondQuarter (index : Option Index) (y z : Nat) : Encoding Instruction :=
  match Reg8.ofCode? y, Reg8.ofCode? z with
  | some target, some source => pure (.load (target.indexed index) (source.indexed index))
  | some target, none => return .loadFrom target (← pointer index)
  | none, some source => return .storeTo (← pointer index) source
  | none, none => pure .halt

/-- Opcodes 80 to BF. -/
def thirdQuarter (index : Option Index) (y z : Nat) : Encoding Instruction :=
  match Reg8.ofCode? z with
  | some r => pure (.accumulate (.ofCode y) (.register (r.indexed index)))
  | none => return .accumulate (.ofCode y) (.memory (← pointer index))

/-- Opcodes C0 to FF.  The prefix bytes among them are read before any table is. -/
def fourthQuarter (index : Option Index) (y z : Nat) : Encoding Instruction :=
  let base := Pair.indexed index .hl
  let pair := Pair.indexed index (.stackOfCode (y / 2))
  match z with
  | 0 => pure (.retIf (.ofCode y))
  | 1 =>
      match y with
      | 1 => pure .ret
      | 3 => pure .exchangeAll
      | 5 => pure (.jumpPair base)
      | 7 => pure (.loadSP base)
      | _ => pure (.pop pair)
  | 2 => return .jumpIf (.ofCode y) (← .word)
  | 3 =>
      match y with
      | 0 => return .jump (← .word)
      | 2 => return .outputA (← .byte)
      | 3 => return .inputA (← .byte)
      | 4 => pure (.exchangeTop base)
      | 5 => pure .exchangeDEHL
      | 6 => pure .di
      | 7 => pure .ei
      | _ => pure .nop
  | 4 => return .callIf (.ofCode y) (← .word)
  | 5 =>
      if y % 2 = 0 then pure (.push pair)
      else if y = 1 then return .call (← .word)
      else pure .nop
  | 6 => return .accumulate (.ofCode y) (.immediate (← .byte))
  | _ => pure (.rst (.ofNat (y * 8)))

/-- The instruction that an opcode of the main table begins. -/
def main (index : Option Index) (op : UInt8) : Encoding Instruction :=
  match op.toNat / 64 with
  | 0 => firstQuarter index (y op) (z op)
  | 1 => secondQuarter index (y op) (z op)
  | 2 => thirdQuarter index (y op) (z op)
  | _ => fourthQuarter index (y op) (z op)

/-! ### Bit operations -/

/-- The operation on bits that a code stands for, if it is not a test. -/
def bitOp? (op : UInt8) : Option BitOp :=
  match op.toNat / 64 with
  | 0 => some (.shift (.ofCode (y op)))
  | 1 => none
  | 2 => some (.reset (y op))
  | _ => some (.set (y op))

/-- The instruction of a code behind CB. -/
def bit (op : UInt8) : Instruction :=
  match bitOp? op, Reg8.ofCode? (z op) with
  | some b, some r => .modify b r
  | some b, none => .modifyAt b .hl none
  | none, some r => .test (y op) r
  | none, none => .testAt (y op) .hl

/-- The code behind CB. -/
def bits : Encoding Instruction := .opcode fun op => pure (bit op)

/-- The instruction of a displacement and a code behind DD CB or FD CB. -/
def indexedBit (base : Index) (d : Int8) (op : UInt8) : Instruction :=
  match bitOp? op with
  | some b => .modifyAt b (.indexed base d) (Reg8.ofCode? (z op))
  | none => .testAt (y op) (.indexed base d)

/-- The displacement and the code behind DD CB and FD CB. -/
def indexedBits (base : Index) : Encoding Instruction := do
  let d ← .displacement
  return indexedBit base d (← .byte)

/-! ### The extended table -/

/-- Codes 40 to 7F behind ED. -/
def extendedQuarter (op : UInt8) : Encoding Instruction :=
  let y := y op
  let pair := Pair.ofCode (y / 2)
  match z op with
  | 0 => pure (.inputC (Reg8.ofCode? y))
  | 1 => pure (.outputC (Reg8.ofCode? y))
  | 2 => pure (if y % 2 = 0 then .sbcPair pair else .adcPair pair)
  | 3 =>
      if y % 2 = 0 then return .storePairDirect (← .word) pair
      else return .loadPairDirect pair (← .word)
  | 4 => pure .neg
  | 5 => pure (if y = 1 then .reti else .retn)
  | 6 =>
      match y % 4 with
      | 2 => pure (.im 1)
      | 3 => pure (.im 2)
      | _ => pure (.im 0)
  | _ =>
      match y with
      | 0 => pure .loadIA
      | 1 => pure .loadRA
      | 2 => pure .loadAI
      | 3 => pure .loadAR
      | 4 => pure .rrd
      | 5 => pure .rld
      | _ => pure (.reserved op)

/-- What a block instruction does, by bits 1 and 0 of its code. -/
def blockOp : Nat → BlockOp
  | 0 => .load
  | 1 => .compare
  | 2 => .input
  | _ => .output

/-- The code behind ED. -/
def extended : Encoding Instruction := .opcode fun op =>
  if op.toNat / 64 = 1 then extendedQuarter op
  else if op.toNat / 64 = 2 ∧ 4 ≤ y op ∧ z op < 4 then
    pure (.block (blockOp (z op)) (if y op % 2 = 0 then .up else .down) (decide (6 ≤ y op)))
  else pure (.reserved op)

/-! ### Whole instructions -/

/-- The instruction that a byte begins which is neither DD nor FD. -/
def unprefixed (index : Option Index) (op : UInt8) : Encoding Instruction :=
  if op = 0xCB then
    match index with
    | none => bits
    | some base => indexedBits base
  else if op = 0xED then extended
  else main index op

/-- A whole instruction with all its prefixes, of which there may be fewer than `bound`. -/
def instruction : (bound : Nat) → Option Index → Encoding (Option Instruction)
  | 0, _ => .done none
  | bound + 1, index => .opcode fun op =>
      match Index.ofByte? op with
      | some i => instruction bound (some i)
      | none => some <$> unprefixed index op

end Opcode

end Z80
