/-
Disassembling with guards.

The disassembler looks names up in tables by the fields of an opcode, and two of the look-ups go by a
field less four.  `Spelling` is the disassembler with look-ups, differences and memory that can fail.
`Spells` ties a part of it to the part of the disassembler that writes the same, and is closed under
`pure`, `bind` and looking up a name where there is one, so each function has one proof, which goes
along its cases.
-/
import Z80.Instruction.Written
import Z80.Proofs.Indexing

namespace Z80

namespace Guard

/-- Reading of code that may fault. -/
abbrev Spelling (ρ α : Type) := StateT (Cursor ρ) (Except Fault) α

namespace Spelling

variable {ρ : Type}

/-- The name that stands at a place in a table. -/
def name (names : List String) (n : Nat) : Spelling ρ String := StateT.lift (look names[n]?)

/-- Block instructions, a row of four for each way of going through memory. -/
def blocks : List (List String) :=
  [["LDI", "CPI", "INI", "OUTI"],
   ["LDD", "CPD", "IND", "OUTD"],
   ["LDIR", "CPIR", "INIR", "OTIR"],
   ["LDDR", "CPDR", "INDR", "OTDR"]]

/-- A bit operation on an operand, by its code. -/
def bitOperation (op : UInt8) (operand : String) : Spelling ρ String :=
  match op.toNat / 64 with
  | 0 => return (← name Written.shifts (Opcode.y op)) ++ " " ++ operand
  | 1 => return "BIT " ++ toString (Opcode.y op) ++ "," ++ operand
  | 2 => return "RES " ++ toString (Opcode.y op) ++ "," ++ operand
  | _ => return "SET " ++ toString (Opcode.y op) ++ "," ++ operand

variable [View ρ]

/-- The byte that comes next, without reading it. -/
def ahead : Spelling ρ UInt8 := fun c => return (← View.peek c.memory c.next, c)

def byte : Spelling ρ UInt8 := fun c => return (← View.peek c.memory c.next, c.move 1)

def word : Spelling ρ UInt16 := do
  let low ← byte
  let high ← byte
  return Word.ofBytes high low

def displacement : Spelling ρ Int8 := return (← byte).toInt8

/-- The address that a relative jump leads to whose displacement comes next. -/
def relative : Spelling ρ UInt16 := do
  let d ← displacement
  return Word.displace (← get).next d

/-- (HL), or an index register with the displacement that comes next. -/
def pointer : Option Index → Spelling ρ String
  | none => return "(HL)"
  | some i => return Written.indexed i (← displacement)

/-- The operand with a three-bit code. -/
def operand (index : Option Index) (code : Nat) : Spelling ρ String :=
  if code = 6 then pointer index else return Written.register index code

/-! ### The main table -/

/-- Opcodes 00 to 3F. -/
def firstQuarter (index : Option Index) (y z : Nat) : Spelling ρ String :=
  let base := Written.base index
  let pair := Written.pair index (y / 2)
  match z with
  | 0 =>
      match y with
      | 0 => return "NOP"
      | 1 => return "EX AF,AF'"
      | 2 => return "DJNZ " ++ Written.word (← relative)
      | 3 => return "JR " ++ Written.word (← relative)
      | _ => do
          let condition ← name Written.conditions (← StateT.lift (sub y 4))
          return "JR " ++ condition ++ "," ++ Written.word (← relative)
  | 1 =>
      if y % 2 = 0 then return "LD " ++ pair ++ "," ++ Written.word (← word)
      else return "ADD " ++ base ++ "," ++ pair
  | 2 =>
      match y with
      | 0 => return "LD (BC),A"
      | 1 => return "LD A,(BC)"
      | 2 => return "LD (DE),A"
      | 3 => return "LD A,(DE)"
      | 4 => return "LD (" ++ Written.word (← word) ++ ")," ++ base
      | 5 => return "LD " ++ base ++ ",(" ++ Written.word (← word) ++ ")"
      | 6 => return "LD (" ++ Written.word (← word) ++ "),A"
      | _ => return "LD A,(" ++ Written.word (← word) ++ ")"
  | 3 => return (if y % 2 = 0 then "INC " else "DEC ") ++ pair
  | 4 => return "INC " ++ (← operand index y)
  | 5 => return "DEC " ++ (← operand index y)
  | 6 => do
      let target ← operand index y
      return "LD " ++ target ++ "," ++ Written.byte (← byte)
  | _ => name Written.accumulator y

/-- Opcodes 40 to 7F. -/
def secondQuarter (index : Option Index) (y z : Nat) : Spelling ρ String :=
  if y = 6 ∧ z = 6 then return "HALT"
  else if z = 6 then return "LD " ++ Written.register none y ++ "," ++ (← pointer index)
  else if y = 6 then return "LD " ++ (← pointer index) ++ "," ++ Written.register none z
  else return "LD " ++ Written.register index y ++ "," ++ Written.register index z

/-- Opcodes 80 to BF. -/
def thirdQuarter (index : Option Index) (y z : Nat) : Spelling ρ String :=
  return (← name Written.operations y) ++ (← operand index z)

/-- Opcodes C0 to FF. -/
def fourthQuarter (index : Option Index) (y z : Nat) : Spelling ρ String :=
  let base := Written.base index
  match z with
  | 0 => return "RET " ++ (← name Written.conditions y)
  | 1 =>
      match y with
      | 1 => return "RET"
      | 3 => return "EXX"
      | 5 => return "JP (" ++ base ++ ")"
      | 7 => return "LD SP," ++ base
      | _ => return "POP " ++ Written.stackPair index (y / 2)
  | 2 => return "JP " ++ (← name Written.conditions y) ++ "," ++ Written.word (← word)
  | 3 =>
      match y with
      | 0 => return "JP " ++ Written.word (← word)
      | 2 => return "OUT (" ++ Written.byte (← byte) ++ "),A"
      | 3 => return "IN A,(" ++ Written.byte (← byte) ++ ")"
      | 4 => return "EX (SP)," ++ base
      | 5 => return "EX DE,HL"
      | 6 => return "DI"
      | 7 => return "EI"
      | _ => return "NOP"
  | 4 => return "CALL " ++ (← name Written.conditions y) ++ "," ++ Written.word (← word)
  | 5 =>
      if y % 2 = 0 then return "PUSH " ++ Written.stackPair index (y / 2)
      else if y = 1 then return "CALL " ++ Written.word (← word)
      else return "NOP"
  | 6 => return (← name Written.operations y) ++ Written.byte (← byte)
  | _ => return "RST " ++ Hex.byte (.ofNat (y * 8)) ++ "h"

/-- An opcode of the main table and what belongs to it. -/
def main (index : Option Index) (op : UInt8) : Spelling ρ String :=
  match op.toNat / 64 with
  | 0 => firstQuarter index (Opcode.y op) (Opcode.z op)
  | 1 => secondQuarter index (Opcode.y op) (Opcode.z op)
  | 2 => thirdQuarter index (Opcode.y op) (Opcode.z op)
  | _ => fourthQuarter index (Opcode.y op) (Opcode.z op)

/-! ### The other tables -/

/-- What stands behind CB. -/
def bits : Spelling ρ String := do
  let op ← byte
  bitOperation op (← operand none (Opcode.z op))

/-- What stands behind DD CB and FD CB. -/
def indexedBits (i : Index) : Spelling ρ String := do
  let d ← displacement
  let op ← byte
  let text ← bitOperation op (Written.indexed i d)
  if op.toNat / 64 ≠ 1 ∧ Opcode.z op ≠ 6 then return text ++ "," ++ Written.register none (Opcode.z op)
  else return text

/-- Codes 40 to 7F behind ED. -/
def extendedQuarter (y z : Nat) : Spelling ρ String :=
  let pair := Written.pair none (y / 2)
  match z with
  | 0 => return if y = 6 then "IN F,(C)" else "IN " ++ Written.register none y ++ ",(C)"
  | 1 => return if y = 6 then "OUT (C),0" else "OUT (C)," ++ Written.register none y
  | 2 => return (if y % 2 = 0 then "SBC HL," else "ADC HL,") ++ pair
  | 3 =>
      if y % 2 = 0 then return "LD (" ++ Written.word (← word) ++ ")," ++ pair
      else return "LD " ++ pair ++ ",(" ++ Written.word (← word) ++ ")"
  | 4 => return "NEG"
  | 5 => return if y = 1 then "RETI" else "RETN"
  | 6 =>
      match y % 4 with
      | 2 => return "IM 1"
      | 3 => return "IM 2"
      | _ => return "IM 0"
  | _ =>
      match y with
      | 0 => return "LD I,A"
      | 1 => return "LD R,A"
      | 2 => return "LD A,I"
      | 3 => return "LD A,R"
      | 4 => return "RRD"
      | 5 => return "RLD"
      | _ => return "NOP"

/-- What stands behind ED. -/
def extended : Spelling ρ String := do
  let op ← byte
  let y := Opcode.y op
  let z := Opcode.z op
  if op.toNat / 64 = 2 ∧ 4 ≤ y ∧ z ≤ 3 then
    let row ← StateT.lift (look blocks[← StateT.lift (sub y 4)]?)
    name row z
  else if op.toNat / 64 = 1 then extendedQuarter y z
  else return "NOP"

/-! ### Whole instructions -/

/-- What a byte begins that is neither DD nor FD. -/
def unprefixed (index : Option Index) (op : UInt8) : Spelling ρ String :=
  if op = 0xED then extended
  else if op = 0xCB then
    match index with
    | none => bits
    | some i => indexedBits i
  else main index op

/-- What stands behind DD or FD. -/
def behindPrefix (i : Index) : Spelling ρ String := do
  let ahead ← ahead
  if (Index.ofByte? ahead).isSome then return "NOP"
  else unprefixed (some i) (← byte)

/-- A whole line. -/
def line : Spelling ρ String := do
  let op ← byte
  match Index.ofByte? op with
  | none => unprefixed none op
  | some i => behindPrefix i

/-- The disassembly of the instruction at an address. -/
def instructionAt (m : ρ) (address : UInt16) : Except Fault Disassembly := do
  let (text, cursor) ← line.run ⟨m, address, 0⟩
  return ⟨text, cursor.length⟩

end Spelling

/-! ### No fault -/

/-- A cursor in other memory. -/
def Cursor.map {μ ρ : Type} (raw : μ → ρ) (c : Cursor μ) : Cursor ρ := ⟨raw c.memory, c.address, c.length⟩

/-- What may fault does not, and reads the same. -/
def Spells {μ ρ α : Type} (raw : μ → ρ) (g : Spelling ρ α) (s : StateM (Cursor μ) α) : Prop :=
  ∀ c, g.run (Cursor.map raw c) = .ok ((s.run c).1, Cursor.map raw (s.run c).2)

namespace Spells

variable {μ ρ α γ : Type} {raw : μ → ρ}

theorem pure (a : α) : Spells raw (Pure.pure a) (Pure.pure a) := fun _ => rfl

theorem bind {g : Spelling ρ α} {s : StateM (Cursor μ) α} {f : α → Spelling ρ γ}
    {f' : α → StateM (Cursor μ) γ} (h : Spells raw g s) (hf : ∀ a, Spells raw (f a) (f' a)) :
    Spells raw (g >>= f) (s >>= f') := by
  intro c
  show (g.run (Cursor.map raw c) >>= fun p => (f p.1).run p.2) = _
  rw [h c]
  exact hf _ _

/-- What is certain to be there need not be waited for. -/
theorem sure {e : Except Fault α} {a : α} (he : e = .ok a) {f : α → Spelling ρ γ}
    {s : StateM (Cursor μ) γ} (hf : Spells raw (f a) s) : Spells raw (StateT.lift e >>= f) s := by
  subst he
  exact hf

theorem look_name {names : List String} {n : Nat} (hn : n < names.length) :
    look names[n]? = .ok (Written.name names n) := by
  rw [Written.name, List.getD_eq_getElem?_getD, List.getElem?_eq_getElem hn]
  rfl

theorem name {names : List String} {n : Nat} (hn : n < names.length) :
    Spells raw (Spelling.name names n) (Pure.pure (Written.name names n)) := by
  rw [Spelling.name, look_name hn]
  exact pure _

theorem named {names : List String} {n : Nat} (hn : n < names.length) {f : String → Spelling ρ γ}
    {s : StateM (Cursor μ) γ} (hf : Spells raw (f (Written.name names n)) s) :
    Spells raw (Spelling.name names n >>= f) s :=
  sure (look_name hn) hf

/-- A bit operation has one of eight numbers. -/
theorem bitOperation (op : UInt8) (operand : String) :
    Spells raw (Spelling.bitOperation op operand) (Pure.pure (Written.bitOperation op operand)) := by
  have hy : Opcode.y op < Written.shifts.length := Opcode.y_lt op
  have hx : op.toNat / 64 < 4 := by have := op.toNat_lt; omega
  unfold Spelling.bitOperation Written.bitOperation
  generalize op.toNat / 64 = x at hx
  interval_cases x
  · exact named hy (pure _)
  · exact pure _
  · exact pure _
  · exact pure _

variable [Z80.View μ] [View ρ] (h : ∀ m address, View.peek (raw m) address = .ok (Z80.View.peek m address))

include h

theorem ahead : Spells raw Spelling.ahead Cursor.ahead := by
  intro c
  show (do return (← View.peek (raw c.memory) c.next, _)) = _
  rw [h]
  rfl

theorem byte : Spells raw Spelling.byte Cursor.byte := by
  intro c
  show (do return (← View.peek (raw c.memory) c.next, _)) = _
  rw [h]
  rfl

theorem word : Spells raw Spelling.word Cursor.word :=
  bind (byte h) fun _ => bind (byte h) fun _ => pure _

theorem displacement : Spells raw Spelling.displacement Cursor.displacement := bind (byte h) fun _ => pure _

theorem relative : Spells raw Spelling.relative Cursor.relative :=
  bind (displacement h) fun _ _ => rfl

theorem pointer (index : Option Index) : Spells raw (Spelling.pointer index) (Disassembly.pointer index) := by
  cases index with
  | none => exact pure _
  | some i => exact bind (displacement h) fun _ => pure _

theorem operand (index : Option Index) (code : Nat) :
    Spells raw (Spelling.operand index code) (Disassembly.operand index code) := by
  unfold Spelling.operand Disassembly.operand
  split
  · exact pointer h index
  · exact pure _

theorem firstQuarter (index : Option Index) {y z : Nat} (hy : y < 8) (hz : z < 8) :
    Spells raw (Spelling.firstQuarter index y z) (Disassembly.firstQuarter index y z) := by
  interval_cases z
  case «0» =>
    interval_cases y
    case «0» | «1» => exact pure _
    case «2» | «3» => exact bind (relative h) fun _ => pure _
    all_goals exact sure rfl (named (by decide) (bind (relative h) fun _ => pure _))
  case «1» =>
    interval_cases y
    case «0» | «2» | «4» | «6» => exact bind (word h) fun _ => pure _
    all_goals exact pure _
  case «2» =>
    interval_cases y
    case «0» | «1» | «2» | «3» => exact pure _
    all_goals exact bind (word h) fun _ => pure _
  case «3» => exact pure _
  case «4» => exact bind (operand h index y) fun _ => pure _
  case «5» => exact bind (operand h index y) fun _ => pure _
  case «6» => exact bind (operand h index y) fun _ => bind (byte h) fun _ => pure _
  case «7» => exact name hy

theorem secondQuarter (index : Option Index) (y z : Nat) :
    Spells raw (Spelling.secondQuarter index y z) (Disassembly.secondQuarter index y z) := by
  unfold Spelling.secondQuarter Disassembly.secondQuarter
  split
  · exact pure _
  · split
    · exact bind (pointer h index) fun _ => pure _
    · split
      · exact bind (pointer h index) fun _ => pure _
      · exact pure _

theorem thirdQuarter (index : Option Index) {y : Nat} (hy : y < 8) (z : Nat) :
    Spells raw (Spelling.thirdQuarter index y z) (Disassembly.thirdQuarter index y z) :=
  named hy (bind (operand h index z) fun _ => pure _)

theorem fourthQuarter (index : Option Index) {y z : Nat} (hy : y < 8) (hz : z < 8) :
    Spells raw (Spelling.fourthQuarter index y z) (Disassembly.fourthQuarter index y z) := by
  interval_cases z
  case «0» => exact named hy (pure _)
  case «1» => interval_cases y <;> exact pure _
  case «2» => exact named hy (bind (word h) fun _ => pure _)
  case «3» =>
    interval_cases y
    case «0» => exact bind (word h) fun _ => pure _
    case «2» | «3» => exact bind (byte h) fun _ => pure _
    all_goals exact pure _
  case «4» => exact named hy (bind (word h) fun _ => pure _)
  case «5» =>
    interval_cases y
    case «1» => exact bind (word h) fun _ => pure _
    all_goals exact pure _
  case «6» => exact named hy (bind (byte h) fun _ => pure _)
  case «7» => exact pure _

theorem main (index : Option Index) (op : UInt8) :
    Spells raw (Spelling.main index op) (Disassembly.main index op) := by
  have hy := Opcode.y_lt op
  have hz := Opcode.z_lt op
  have hx : op.toNat / 64 < 4 := by have := op.toNat_lt; omega
  unfold Spelling.main Disassembly.main
  generalize op.toNat / 64 = x at hx
  interval_cases x
  · exact firstQuarter h index hy hz
  · exact secondQuarter h index _ _
  · exact thirdQuarter h index hy _
  · exact fourthQuarter h index hy hz

theorem bits : Spells raw Spelling.bits Disassembly.bits :=
  bind (byte h) fun op => bind (operand h none _) fun text => bitOperation op text

theorem indexedBits (i : Index) : Spells raw (Spelling.indexedBits i) (Disassembly.indexedBits i) := by
  refine bind (displacement h) fun d => bind (byte h) fun op => ?_
  let copied (text : String) : StateM (Cursor μ) String :=
    if op.toNat / 64 ≠ 1 ∧ Opcode.z op ≠ 6 then return text ++ "," ++ Written.register none (Opcode.z op)
    else return text
  show Spells raw _ (Pure.pure (Written.bitOperation op (Written.indexed i d)) >>= copied)
  refine bind (bitOperation op _) fun text => ?_
  dsimp only [copied]
  split <;> exact pure _

theorem extendedQuarter {y z : Nat} (hy : y < 8) (hz : z < 8) :
    Spells raw (Spelling.extendedQuarter y z) (Disassembly.extendedQuarter y z) := by
  interval_cases z
  case «3» => interval_cases y <;> exact bind (word h) fun _ => pure _
  case «6» | «7» => interval_cases y <;> exact pure _
  all_goals exact pure _

theorem extended : Spells raw Spelling.extended Disassembly.extended := by
  refine bind (byte h) fun op => ?_
  have hy := Opcode.y_lt op
  have hz := Opcode.z_lt op
  dsimp only
  split
  · rename_i hblock
    obtain ⟨-, hfour, hthree⟩ := hblock
    refine sure (sub_of_le hfour) ?_
    generalize Opcode.y op = y at hy hfour
    generalize Opcode.z op = z at hthree
    -- the rows stand one behind the other in the table that is not cut into rows
    interval_cases y <;> refine sure rfl ?_ <;> interval_cases z <;> exact name (by decide)
  · split
    · exact extendedQuarter h hy hz
    · exact pure _

theorem unprefixed (index : Option Index) (op : UInt8) :
    Spells raw (Spelling.unprefixed index op) (Disassembly.unprefixed index op) := by
  unfold Spelling.unprefixed Disassembly.unprefixed
  split
  · exact extended h
  · split
    · cases index with
      | none => exact bits h
      | some i => exact indexedBits h i
    · exact main h index op

theorem behindPrefix (i : Index) : Spells raw (Spelling.behindPrefix i) (Disassembly.behindPrefix i) := by
  refine bind (ahead h) fun next => ?_
  split
  · exact pure _
  · exact bind (byte h) fun op => unprefixed h (some i) op

theorem line : Spells raw Spelling.line Disassembly.line := by
  refine bind (byte h) fun op => ?_
  unfold Disassembly.begins
  cases Index.ofByte? op with
  | none => exact unprefixed h none op
  | some i => exact behindPrefix h i

/-- **Disassembling does not fault**, where looking at memory does not: every name is looked up where there is one. -/
theorem instructionAt (m : μ) (address : UInt16) :
    Spelling.instructionAt (raw m) address = .ok (Disassembly.instructionAt m address) := by
  have hline := line h ⟨m, address, 0⟩
  unfold Spelling.instructionAt
  show (Spelling.line.run (Cursor.map raw ⟨m, address, 0⟩) >>= _) = _
  rw [hline]
  rfl

end Spells

end Guard
end Z80
