/-
How instructions are written.

A disassembler knows nothing of what instructions do.  It takes an opcode apart into its
fields, looks the names that they stand for up in tables of its own, and puts the text
together, reading operand bytes where it needs them.  Numbers are hexadecimal with their full
width, displacements decimal with their sign, and relative jumps are written with the address
they lead to.

`Disassembly.instructionAt` reads one instruction from a memory view and says how it is written
and how long it is.  A DD or FD byte with another one behind it chooses nothing and is written
as a NOP of its own; the byte behind it is looked at and not counted.
-/
import Z80.Hex
import Z80.Memory
import Z80.Instruction.Opcode

namespace Z80

namespace Written

/-- A byte operand. -/
def byte (n : UInt8) : String := "0x" ++ Hex.byte n

/-- A word operand. -/
def word (n : UInt16) : String := "0x" ++ Hex.word n

/-- A displacement with its sign. -/
def displacement (d : Int8) : String :=
  if 0 ≤ d.toInt then "+" ++ toString d.toInt.natAbs else "-" ++ toString d.toInt.natAbs

end Written

/-! ### Names -/

/-- The name of a register; opcodes have codes for registers, and tables of names below. -/
def Reg8.written : Reg8 → String
  | a => "A"
  | b => "B"
  | c => "C"
  | d => "D"
  | e => "E"
  | h => "H"
  | l => "L"
  | ixh => "IXH"
  | ixl => "IXL"
  | iyh => "IYH"
  | iyl => "IYL"

/-- The name of a pair. -/
def Pair.written : Pair → String
  | bc => "BC"
  | de => "DE"
  | hl => "HL"
  | sp => "SP"
  | af => "AF"
  | ix => "IX"
  | iy => "IY"

namespace Written

/-- The name that stands at a place in a table. -/
def name (names : List String) (n : Nat) : String := names.getD n ""

def conditions : List String := ["NZ", "Z", "NC", "C", "PO", "PE", "P", "M"]

/-- Operations on the accumulator, up to the place of their operand. -/
def operations : List String := ["ADD A,", "ADC A,", "SUB ", "SBC A,", "AND ", "XOR ", "OR ", "CP "]

def shifts : List String := ["RLC", "RRC", "RL", "RR", "SLA", "SRA", "SLL", "SRL"]

def accumulator : List String := ["RLCA", "RRCA", "RLA", "RRA", "DAA", "CPL", "SCF", "CCF"]

/-- Block instructions, four for each way of going through memory. -/
def blocks : List String :=
  ["LDI", "CPI", "INI", "OUTI",
   "LDD", "CPD", "IND", "OUTD",
   "LDIR", "CPIR", "INIR", "OTIR",
   "LDDR", "CPDR", "INDR", "OTDR"]

/-- HL, or the index register in its place. -/
def base : Option Index → String
  | none => "HL"
  | some .ix => "IX"
  | some .iy => "IY"

/-- The register with a three-bit code other than 6. -/
def register (index : Option Index) (code : Nat) : String :=
  match code, index with
  | 0, _ => "B"
  | 1, _ => "C"
  | 2, _ => "D"
  | 3, _ => "E"
  | 4, none => "H"
  | 5, none => "L"
  | 4, some .ix => "IXH"
  | 5, some .ix => "IXL"
  | 4, some .iy => "IYH"
  | 5, some .iy => "IYL"
  | _, _ => "A"

/-- The pair with a two-bit code. -/
def pair (index : Option Index) (code : Nat) : String :=
  match code with
  | 0 => "BC"
  | 1 => "DE"
  | 2 => base index
  | _ => "SP"

/-- The pair with a two-bit code, as PUSH and POP read it. -/
def stackPair (index : Option Index) (code : Nat) : String :=
  if code = 3 then "AF" else pair index code

/-- A memory operand beside an index register. -/
def indexed (i : Index) (d : Int8) : String := "(" ++ base (some i) ++ displacement d ++ ")"

/-- A bit operation on an operand, by its code. -/
def bitOperation (op : UInt8) (operand : String) : String :=
  match op.toNat / 64 with
  | 0 => name shifts (Opcode.y op) ++ " " ++ operand
  | 1 => "BIT " ++ toString (Opcode.y op) ++ "," ++ operand
  | 2 => "RES " ++ toString (Opcode.y op) ++ "," ++ operand
  | _ => "SET " ++ toString (Opcode.y op) ++ "," ++ operand

end Written

/-! ### Reading code -/

/-- How far code has been read. -/
structure Cursor (μ : Type) where
  memory : μ
  /-- Where the instruction begins. -/
  address : UInt16
  /-- How many bytes of it have been read. -/
  length : Nat

namespace Cursor

variable {μ : Type}

/-- The address of the byte that comes next. -/
def next (c : Cursor μ) : UInt16 := c.address + .ofNat c.length

def move (c : Cursor μ) (n : Nat) : Cursor μ := { c with length := c.length + n }

variable [View μ]

/-- The byte that comes next, without reading it. -/
def ahead : StateM (Cursor μ) UInt8 := fun c => (peek c.memory c.next, c)

def byte : StateM (Cursor μ) UInt8 := fun c => (peek c.memory c.next, c.move 1)

def word : StateM (Cursor μ) UInt16 := do
  let low ← byte
  let high ← byte
  return Word.ofBytes high low

def displacement : StateM (Cursor μ) Int8 := return (← byte).toInt8

/-- The address that a relative jump leads to whose displacement comes next. -/
def relative : StateM (Cursor μ) UInt16 := do
  let d ← displacement
  return Word.displace (← get).next d

end Cursor

/-- One line of a disassembly. -/
structure Disassembly where
  /-- How the instruction is written. -/
  text : String
  /-- How many bytes it takes, prefixes included. -/
  length : Nat
deriving DecidableEq, Repr

namespace Disassembly

open Written (name)

variable {μ : Type} [View μ]

/-- (HL), or an index register with the displacement that comes next. -/
def pointer : Option Index → StateM (Cursor μ) String
  | none => return "(HL)"
  | some i => return Written.indexed i (← Cursor.displacement)

/-- The operand with a three-bit code. -/
def operand (index : Option Index) (code : Nat) : StateM (Cursor μ) String :=
  if code = 6 then pointer index else return Written.register index code

/-! ### The main table -/

/-- Opcodes 00 to 3F. -/
def firstQuarter (index : Option Index) (y z : Nat) : StateM (Cursor μ) String :=
  let base := Written.base index
  let pair := Written.pair index (y / 2)
  match z with
  | 0 =>
      match y with
      | 0 => return "NOP"
      | 1 => return "EX AF,AF'"
      | 2 => return "DJNZ " ++ Written.word (← Cursor.relative)
      | 3 => return "JR " ++ Written.word (← Cursor.relative)
      | _ => return "JR " ++ name Written.conditions (y - 4) ++ "," ++ Written.word (← Cursor.relative)
  | 1 =>
      if y % 2 = 0 then return "LD " ++ pair ++ "," ++ Written.word (← Cursor.word)
      else return "ADD " ++ base ++ "," ++ pair
  | 2 =>
      match y with
      | 0 => return "LD (BC),A"
      | 1 => return "LD A,(BC)"
      | 2 => return "LD (DE),A"
      | 3 => return "LD A,(DE)"
      | 4 => return "LD (" ++ Written.word (← Cursor.word) ++ ")," ++ base
      | 5 => return "LD " ++ base ++ ",(" ++ Written.word (← Cursor.word) ++ ")"
      | 6 => return "LD (" ++ Written.word (← Cursor.word) ++ "),A"
      | _ => return "LD A,(" ++ Written.word (← Cursor.word) ++ ")"
  | 3 => return (if y % 2 = 0 then "INC " else "DEC ") ++ pair
  | 4 => return "INC " ++ (← operand index y)
  | 5 => return "DEC " ++ (← operand index y)
  | 6 => do
      let target ← operand index y
      return "LD " ++ target ++ "," ++ Written.byte (← Cursor.byte)
  | _ => return name Written.accumulator y

/-- Opcodes 40 to 7F: a register beside a memory operand is never an index half. -/
def secondQuarter (index : Option Index) (y z : Nat) : StateM (Cursor μ) String :=
  if y = 6 ∧ z = 6 then return "HALT"
  else if z = 6 then return "LD " ++ Written.register none y ++ "," ++ (← pointer index)
  else if y = 6 then return "LD " ++ (← pointer index) ++ "," ++ Written.register none z
  else return "LD " ++ Written.register index y ++ "," ++ Written.register index z

/-- Opcodes 80 to BF. -/
def thirdQuarter (index : Option Index) (y z : Nat) : StateM (Cursor μ) String :=
  return name Written.operations y ++ (← operand index z)

/-- Opcodes C0 to FF.  What the prefixes among them begin is not read here. -/
def fourthQuarter (index : Option Index) (y z : Nat) : StateM (Cursor μ) String :=
  let base := Written.base index
  match z with
  | 0 => return "RET " ++ name Written.conditions y
  | 1 =>
      match y with
      | 1 => return "RET"
      | 3 => return "EXX"
      | 5 => return "JP (" ++ base ++ ")"
      | 7 => return "LD SP," ++ base
      | _ => return "POP " ++ Written.stackPair index (y / 2)
  | 2 => return "JP " ++ name Written.conditions y ++ "," ++ Written.word (← Cursor.word)
  | 3 =>
      match y with
      | 0 => return "JP " ++ Written.word (← Cursor.word)
      | 2 => return "OUT (" ++ Written.byte (← Cursor.byte) ++ "),A"
      | 3 => return "IN A,(" ++ Written.byte (← Cursor.byte) ++ ")"
      | 4 => return "EX (SP)," ++ base
      | 5 => return "EX DE,HL"
      | 6 => return "DI"
      | 7 => return "EI"
      | _ => return "NOP"
  | 4 => return "CALL " ++ name Written.conditions y ++ "," ++ Written.word (← Cursor.word)
  | 5 =>
      if y % 2 = 0 then return "PUSH " ++ Written.stackPair index (y / 2)
      else if y = 1 then return "CALL " ++ Written.word (← Cursor.word)
      else return "NOP"
  | 6 => return name Written.operations y ++ Written.byte (← Cursor.byte)
  | _ => return "RST " ++ Hex.byte (.ofNat (y * 8)) ++ "h"

/-- An opcode of the main table and what belongs to it. -/
def main (index : Option Index) (op : UInt8) : StateM (Cursor μ) String :=
  match op.toNat / 64 with
  | 0 => firstQuarter index (Opcode.y op) (Opcode.z op)
  | 1 => secondQuarter index (Opcode.y op) (Opcode.z op)
  | 2 => thirdQuarter index (Opcode.y op) (Opcode.z op)
  | _ => fourthQuarter index (Opcode.y op) (Opcode.z op)

/-! ### The other tables -/

/-- What stands behind CB. -/
def bits : StateM (Cursor μ) String := do
  let op ← Cursor.byte
  return Written.bitOperation op (← operand none (Opcode.z op))

/-- What stands behind DD CB and FD CB; all but BIT also store to a register. -/
def indexedBits (i : Index) : StateM (Cursor μ) String := do
  let d ← Cursor.displacement
  let op ← Cursor.byte
  let text := Written.bitOperation op (Written.indexed i d)
  if op.toNat / 64 ≠ 1 ∧ Opcode.z op ≠ 6 then return text ++ "," ++ Written.register none (Opcode.z op)
  else return text

/-- Codes 40 to 7F behind ED. -/
def extendedQuarter (y z : Nat) : StateM (Cursor μ) String :=
  let pair := Written.pair none (y / 2)
  match z with
  | 0 => return if y = 6 then "IN F,(C)" else "IN " ++ Written.register none y ++ ",(C)"
  | 1 => return if y = 6 then "OUT (C),0" else "OUT (C)," ++ Written.register none y
  | 2 => return (if y % 2 = 0 then "SBC HL," else "ADC HL,") ++ pair
  | 3 =>
      if y % 2 = 0 then return "LD (" ++ Written.word (← Cursor.word) ++ ")," ++ pair
      else return "LD " ++ pair ++ ",(" ++ Written.word (← Cursor.word) ++ ")"
  | 4 => return "NEG"
  | 5 => return if y = 1 then "RETI" else "RETN"
  | 6 =>
      match y % 4 with
      | 2 => return "IM 1"
      | 3 => return "IM 2"
      | _ => return "IM 0"
  | _ =>
      match y with
      | 0 => return "LD I,A"
      | 1 => return "LD R,A"
      | 2 => return "LD A,I"
      | 3 => return "LD A,R"
      | 4 => return "RRD"
      | 5 => return "RLD"
      | _ => return "NOP"

/-- What stands behind ED. -/
def extended : StateM (Cursor μ) String := do
  let op ← Cursor.byte
  let y := Opcode.y op
  let z := Opcode.z op
  if op.toNat / 64 = 2 ∧ 4 ≤ y ∧ z ≤ 3 then return name Written.blocks ((y - 4) * 4 + z)
  else if op.toNat / 64 = 1 then extendedQuarter y z
  else return "NOP"

/-! ### Whole instructions -/

/-- What a byte begins that is neither DD nor FD. -/
def unprefixed (index : Option Index) (op : UInt8) : StateM (Cursor μ) String :=
  if op = 0xED then extended
  else if op = 0xCB then
    match index with
    | none => bits
    | some i => indexedBits i
  else main index op

/-- What stands behind DD or FD.  Another one of them is left to the next line. -/
def behindPrefix (i : Index) : StateM (Cursor μ) String := do
  let ahead ← Cursor.ahead
  if (Index.ofByte? ahead).isSome then return "NOP"
  else unprefixed (some i) (← Cursor.byte)

/-- What a first byte begins. -/
def begins (op : UInt8) : StateM (Cursor μ) String :=
  match Index.ofByte? op with
  | none => unprefixed none op
  | some i => behindPrefix i

/-- A whole line. -/
def line : StateM (Cursor μ) String := do begins (← Cursor.byte)

/-- The disassembly of the instruction at an address. -/
def instructionAt (m : μ) (address : UInt16) : Disassembly :=
  let (text, cursor) := (line.run ⟨m, address, 0⟩).run
  ⟨text, cursor.length⟩

/-- The disassembly of `count` instructions one behind the other, with their addresses. -/
def listing (m : μ) (address : UInt16) : (count : Nat) → List (UInt16 × Disassembly)
  | 0 => []
  | count + 1 =>
      let line := instructionAt m address
      (address, line) :: listing m (address + .ofNat line.length) count

end Disassembly

end Z80
