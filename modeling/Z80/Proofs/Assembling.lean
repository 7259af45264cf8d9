/-
Reading back what has been written.

The disassembler writes down instructions.  The assembler here goes the other way: it takes a text apart
into a mnemonic and its operands (`Statement.read`), finds out what each operand is (`Term.read`), and
puts an instruction together from that (`Statement.assemble`).  Names are looked up among the names that
there are, so that each of them is only spelled in one place.

A text does not tell everything about the code that it stands for, but it tells the instruction, as far
as instructions differ in what they do (`assemble_written`).  The one exception are codes of the extended
table that are not in use, which are written as the NOP that they amount to.
-/
import Z80.Proofs.Disassembly
import Z80.Proofs.Guarding

namespace Z80

/-! ### Statements -/

namespace Statement

/-- A text up to the first blank, and behind it what is between commas. -/
def read (text : String) : Statement where
  mnemonic := .ofList (text.toList.takeWhile (· ≠ ' '))
  operands :=
    match text.toList.dropWhile (· ≠ ' ') with
    | [] => []
    | _ :: operands => (operands.splitOn ',').map .ofList

/-- Nothing in a statement can be mistaken for what stands between its parts. -/
structure Plain (s : Statement) : Prop where
  mnemonic : ' ' ∉ s.mnemonic.toList
  operands : ∀ operand ∈ s.operands, ',' ∉ operand.toList

theorem toList_render (s : Statement) : s.render.toList = s.mnemonic.toList ++
    match s.operands with
    | [] => []
    | operands => ' ' :: [','].intercalate (operands.map String.toList) := by
  obtain ⟨mnemonic, operands⟩ := s
  cases operands with
  | nil => exact (List.append_nil _).symm
  | cons operand operands =>
      show (mnemonic ++ " " ++ ",".intercalate (operand :: operands)).toList = _
      rw [String.toList_append, String.toList_append, String.toList_intercalate, List.append_assoc]
      rfl

/-- **A statement is read back.** -/
theorem read_render {s : Statement} (h : s.Plain) : read s.render = s := by
  have hmnemonic : ∀ c ∈ s.mnemonic.toList, (decide (c ≠ ' ')) = true := by
    intro c hc
    exact decide_eq_true fun hblank => h.mnemonic (hblank ▸ hc)
  obtain ⟨mnemonic, operands⟩ := s
  unfold read
  rw [toList_render, List.takeWhile_append_of_pos hmnemonic, List.dropWhile_append_of_pos hmnemonic]
  cases operands with
  | nil => simp
  | cons operand operands =>
      have hsplit : ([','].intercalate ((operand :: operands).map String.toList)).splitOn ',' =
          (operand :: operands).map String.toList :=
        List.splitOn_intercalate ',' (by simpa using h.operands) (by simp)
      simp only [List.takeWhile_cons, List.dropWhile_cons, ne_eq, not_true_eq_false, decide_false,
        Bool.false_eq_true, if_false, List.append_nil, String.ofList_toList, hsplit, List.map_map]
      simp

end Statement

/-! ### Names -/

/-- What is called so, among those that there are. -/
def named? {α : Type} (all : List α) (written : α → String) (text : String) : Option α :=
  all.find? fun a => written a = text

def Reg8.all : List Reg8 := [a, b, c, d, e, h, l, ixh, ixl, iyh, iyl]

def Pair.all : List Pair := [bc, de, hl, sp, af, ix, iy]

def Condition.all : List Condition := [nz, z, nc, c, po, pe, p, m]

def Alu.Shift.all : List Alu.Shift := [rlc, rrc, rl, rr, sla, sra, sll, srl]

@[simp] theorem Reg8.named (r : Reg8) : named? all written r.written = some r := by
  cases r <;> decide

@[simp] theorem Pair.named (p : Pair) : named? all written p.written = some p := by
  cases p <;> decide

@[simp] theorem Condition.named (condition : Condition) :
    named? all written condition.written = some condition := by
  cases condition <;> decide

@[simp] theorem Alu.Shift.named (s : Alu.Shift) : named? all written s.written = some s := by
  cases s <;> decide

/-! ### Operands -/

/-- What an operand can be. -/
inductive Term where
  | register (r : Reg8)
  | pair (p : Pair)
  | byte (n : UInt8)
  | word (n : UInt16)
  /-- What is in memory at a pointer. -/
  | pointed (p : Pointer)
  /-- What is in memory where a pair points, other than HL. -/
  | through (p : Pair)
  /-- What is in memory at an address. -/
  | direct (address : UInt16)
  /-- What is in the port space at an address. -/
  | port (low : UInt8)
  /-- A name that is neither of a register nor of a pair. -/
  | name (text : String)
deriving DecidableEq

namespace Term

/-- Hexadecimal digits, of which there are two or four. -/
def number? (digits : List Char) (byte : UInt8 → Term) (word : UInt16 → Term) : Option Term :=
  match digits.length with
  | 2 => (Written.number? digits.reverse).map fun n => byte (.ofNat n)
  | 4 => (Written.number? digits.reverse).map fun n => word (.ofNat n)
  | _ => none

/-- The number that decimal digits stand for, the last digit first. -/
def decimal? : List Char → Option Nat
  | [] => some 0
  | c :: cs => do return (← decimal? cs) * 10 + (← Hex.value? c)

/-- A displacement with its sign. -/
def displacement? : List Char → Option Int8
  | '+' :: digits => (decimal? digits.reverse).map fun n : Nat => .ofInt n
  | '-' :: digits => (decimal? digits.reverse).map fun n : Nat => .ofInt (-n)
  | _ => none

/-- The index register with a letter behind the I. -/
def index? : Char → Option Index
  | 'X' => some .ix
  | 'Y' => some .iy
  | _ => none

/-- What stands between parentheses. -/
def inside (text : List Char) : Option Term :=
  match text with
  | '0' :: 'x' :: digits => number? digits port direct
  | 'I' :: letter :: sign :: digits => do
      return pointed (.indexed (← index? letter) (← displacement? (sign :: digits)))
  | _ => (named? Pair.all Pair.written (.ofList text)).map fun p =>
      if p = .hl then pointed .hl else through p

/-- What an operand is. -/
def read (text : String) : Option Term :=
  match text.toList with
  | '0' :: 'x' :: digits => number? digits byte word
  | '(' :: rest => inside rest.dropLast
  | _ =>
      match named? Reg8.all Reg8.written text, named? Pair.all Pair.written text with
      | some r, _ => some (register r)
      | none, some p => some (pair p)
      | none, none => some (name text)

@[simp] theorem read_register (r : Reg8) : read r.written = some (register r) := by
  cases r <;> decide

@[simp] theorem read_pair (p : Pair) : read p.written = some (pair p) := by
  cases p <;> decide

theorem number?_byte (n : UInt8) (byte : UInt8 → Term) (word : UInt16 → Term) :
    number? (Hex.digits 2 n.toNat) byte word = some (byte n) := by
  have hlt := n.toNat_lt
  unfold number?
  rw [Hex.length_digits, Written.number?_digits, Nat.mod_eq_of_lt (by omega)]
  simp

theorem number?_word (n : UInt16) (byte : UInt8 → Term) (word : UInt16 → Term) :
    number? (Hex.digits 4 n.toNat) byte word = some (word n) := by
  have hlt := n.toNat_lt
  unfold number?
  rw [Hex.length_digits, Written.number?_digits, Nat.mod_eq_of_lt (by omega)]
  simp

theorem toList_byte (n : UInt8) : (Written.byte n).toList = '0' :: 'x' :: Hex.digits 2 n.toNat := by
  simp [Written.byte, Hex.byte]

theorem toList_word (n : UInt16) : (Written.word n).toList = '0' :: 'x' :: Hex.digits 4 n.toNat := by
  simp [Written.word, Hex.word]

theorem read_indirect (text : String) : read (Written.indirect text) = inside text.toList := by
  have htext : (Written.indirect text).toList = '(' :: (text.toList ++ [')']) := by
    simp [Written.indirect]
  simp only [read, htext, List.dropLast_concat]

@[simp] theorem read_byte (n : UInt8) : read (Written.byte n) = some (byte n) := by
  simp only [read, toList_byte, number?_byte]

@[simp] theorem read_word (n : UInt16) : read (Written.word n) = some (word n) := by
  simp only [read, toList_word, number?_word]

@[simp] theorem read_port (n : UInt8) : read (Written.indirect (Written.byte n)) = some (port n) := by
  simp only [read_indirect, toList_byte, inside, number?_byte]

@[simp] theorem read_direct (n : UInt16) :
    read (Written.indirect (Written.word n)) = some (direct n) := by
  simp only [read_indirect, toList_word, inside, number?_word]

@[simp] theorem read_through (p : Pair) : read (Written.indirect p.written) =
    some (if p = .hl then pointed .hl else through p) := by
  cases p <;> decide

theorem decimal?_toString : ∀ n ≤ 128, decimal? (toString n).toList.reverse = some n := by decide

theorem displacement?_written (d : Int8) :
    displacement? (Written.displacement d).toList = some d := by
  have hlt := d.toInt_lt
  have hge := d.le_toInt
  have hdecimal := decimal?_toString d.toInt.natAbs (by omega)
  unfold Written.displacement
  by_cases hsign : 0 ≤ d.toInt
  · have htext : ("+" ++ toString d.toInt.natAbs).toList = '+' :: (toString d.toInt.natAbs).toList := by
      simp
    rw [if_pos hsign, htext, displacement?, hdecimal, Option.map_some, Int.natAbs_of_nonneg hsign,
      Int8.ofInt_toInt]
  · have htext : ("-" ++ toString d.toInt.natAbs).toList = '-' :: (toString d.toInt.natAbs).toList := by
      simp
    have hvalue : -(d.toInt.natAbs : Int) = d.toInt := by omega
    rw [if_neg hsign, htext, displacement?, hdecimal, Option.map_some, hvalue, Int8.ofInt_toInt]

@[simp] theorem read_pointer (p : Pointer) : read p.written = some (pointed p) := by
  cases p with
  | hl => decide
  | indexed base d =>
      have hd := displacement?_written d
      obtain ⟨sign, digits, hsign⟩ : ∃ sign digits, (Written.displacement d).toList = sign :: digits := by
        unfold Written.displacement
        split
        · exact ⟨'+', (toString d.toInt.natAbs).toList, by simp⟩
        · exact ⟨'-', (toString d.toInt.natAbs).toList, by simp⟩
      obtain ⟨letter, hname, hletter⟩ : ∃ letter, base.pair.written.toList = ['I', letter] ∧
          index? letter = some base := by
        cases base with
        | ix => exact ⟨'X', by decide, rfl⟩
        | iy => exact ⟨'Y', by decide, rfl⟩
      have htext : (base.pair.written ++ Written.displacement d).toList = 'I' :: letter :: sign :: digits := by
        simp [hname, hsign]
      rw [hsign] at hd
      show read (Written.indirect (base.pair.written ++ Written.displacement d)) = _
      rw [read_indirect, htext, inside, hletter, hd]
      rfl

@[simp] theorem read_A : read "A" = some (register .a) := read_register .a

@[simp] theorem read_I : read "I" = some (name "I") := by decide

@[simp] theorem read_R : read "R" = some (name "R") := by decide

@[simp] theorem read_AF : read "AF" = some (pair .af) := read_pair .af

@[simp] theorem read_AF' : read "AF'" = some (name "AF'") := by decide

@[simp] theorem read_DE : read "DE" = some (pair .de) := read_pair .de

@[simp] theorem read_HL : read "HL" = some (pair .hl) := read_pair .hl

@[simp] theorem read_SP : read "SP" = some (pair .sp) := read_pair .sp

@[simp] theorem read_top : read "(SP)" = some (through .sp) := by decide

@[simp] theorem read_port_C : read "(C)" = none := by decide

end Term

/-! ### Instructions -/

/-- The instructions that are a mnemonic and nothing else. -/
def Instruction.implied : List Instruction :=
  [nop, halt, di, ei, exchangeAll, daa, cpl, scf, ccf, neg, rrd, rld, ret, retn, reti] ++
    Alu.Shift.all.map rotateA ++
    ([BlockOp.load, .compare, .input, .output].flatMap fun op =>
      [block op .up false, block op .up true, block op .down false, block op .down true])

/-- The mnemonic of an instruction, wherever it stands. -/
def Instruction.mnemonic (i : Instruction) : String := (i.written 0).mnemonic

namespace Statement

open Instruction

/-- The bits of a byte, and the interrupt modes. -/
def digit? (text : String) : Option Nat := named? (List.range 8) toString text

/-- How far it is to an address. -/
def distance (next target : UInt16) : Int8 := (Word.low (target - next)).toInt8

/-- A relative jump to an operand. -/
def relative? (next : UInt16) (target : String) (jump : Int8 → Instruction) : Option Instruction :=
  match Term.read target with
  | some (.word target) => some (jump (distance next target))
  | _ => none

/-- An absolute jump to an operand. -/
def absolute? (target : String) (jump : UInt16 → Instruction) : Option Instruction :=
  match Term.read target with
  | some (.word target) => some (jump target)
  | _ => none

/-- An operation on the accumulator. -/
def accumulate? (op : Alu.Op) (operand : String) : Option Instruction :=
  match Term.read operand with
  | some (.register r) => some (accumulate op (.register r))
  | some (.byte n) => some (accumulate op (.immediate n))
  | some (.pointed p) => some (accumulate op (.memory p))
  | _ => none

/-- A bit operation on an operand, with a copy of the result or without. -/
def modify? (op : BitOp) (operand : String) (copy : Option String) : Option Instruction :=
  match Term.read operand, copy with
  | some (.register r), none => some (modify op r)
  | some (.pointed p), none => some (modifyAt op p none)
  | some (.pointed p), some copy =>
      (named? Reg8.all Reg8.written copy).map fun r => modifyAt op p (some r)
  | _, _ => none

/-- What there is with I and with R. -/
def special? (text : String) (i r : Instruction) : Option Instruction :=
  if text = "I" then some i else if text = "R" then some r else none

/-- LD. -/
def load? (target source : Term) : Option Instruction :=
  match target, source with
  | .register t, .register s => some (load t s)
  | .register t, .byte n => some (loadImmediate t n)
  | .register t, .pointed p => some (loadFrom t p)
  | .pointed p, .register s => some (storeTo p s)
  | .pointed p, .byte n => some (storeImmediate p n)
  | .register .a, .through p => some (loadAIndirect p)
  | .through p, .register .a => some (storeAIndirect p)
  | .register .a, .direct address => some (loadADirect address)
  | .direct address, .register .a => some (storeADirect address)
  | .name text, .register .a => special? text loadIA loadRA
  | .register .a, .name text => special? text loadAI loadAR
  | .pair t, .word n => some (loadPair t n)
  | .pair t, .direct address => some (loadPairDirect t address)
  | .direct address, .pair s => some (storePairDirect address s)
  | .pair .sp, .pair s => some (loadSP s)
  | _, _ => none

/-- EX. -/
def exchange? (target source : Term) : Option Instruction :=
  match target, source with
  | .pair .af, .name _ => some exchangeAF
  | .pair .de, .pair .hl => some exchangeDEHL
  | .through .sp, .pair p => some (exchangeTop p)
  | _, _ => none

/-- INC and DEC. -/
def count? (operand : Term) (register : Reg8 → Instruction) (memory : Pointer → Instruction)
    (pair : Pair → Instruction) : Option Instruction :=
  match operand with
  | .register r => some (register r)
  | .pointed p => some (memory p)
  | .pair p => some (pair p)
  | _ => none

/-- A statement with one operand. -/
def unary? (next : UInt16) (mnemonic operand : String) : Option Instruction :=
  match mnemonic with
  | "IM" => (digit? operand).map fun n => im (.ofNat n)
  | "INC" => do count? (← Term.read operand) increment incrementAt incrementPair
  | "DEC" => do count? (← Term.read operand) decrement decrementAt decrementPair
  | "PUSH" => (named? Pair.all Pair.written operand).map push
  | "POP" => (named? Pair.all Pair.written operand).map pop
  | "JP" =>
      match Term.read operand with
      | some (.word target) => some (jump target)
      | some (.pointed .hl) => some (jumpPair .hl)
      | some (.through p) => some (jumpPair p)
      | _ => none
  | "JR" => relative? next operand jumpRelative
  | "DJNZ" => relative? next operand djnz
  | "CALL" => absolute? operand call
  | "RET" => (named? Condition.all Condition.written operand).map retIf
  | "RST" => (Written.target? operand).map fun vector => rst vector.toUInt8
  | "SUB" => accumulate? .sub operand
  | "AND" => accumulate? .and operand
  | "XOR" => accumulate? .xor operand
  | "OR" => accumulate? .or operand
  | "CP" => accumulate? .cp operand
  | _ => do modify? (.shift (← named? Alu.Shift.all Alu.Shift.written mnemonic)) operand none

/-- A statement with two operands. -/
def binary? (next : UInt16) (mnemonic first second : String) : Option Instruction :=
  match mnemonic with
  | "LD" => do load? (← Term.read first) (← Term.read second)
  | "EX" => do exchange? (← Term.read first) (← Term.read second)
  | "ADD" =>
      match Term.read first, Term.read second with
      | some (.pair t), some (.pair s) => some (addPair t s)
      | _, _ => accumulate? .add second
  | "ADC" =>
      match Term.read second with
      | some (.pair s) => some (adcPair s)
      | _ => accumulate? .adc second
  | "SBC" =>
      match Term.read second with
      | some (.pair s) => some (sbcPair s)
      | _ => accumulate? .sbc second
  | "IN" =>
      match Term.read second with
      | some (.port n) => some (inputA n)
      | _ => some (inputC (named? Reg8.all Reg8.written first))
  | "OUT" =>
      match Term.read first with
      | some (.port n) => some (outputA n)
      | _ => some (outputC (named? Reg8.all Reg8.written second))
  | "BIT" => do
      let n ← digit? first
      match Term.read second with
      | some (.register r) => some (test n r)
      | some (.pointed p) => some (testAt n p)
      | _ => none
  | "RES" => do modify? (.reset (← digit? first)) second none
  | "SET" => do modify? (.set (← digit? first)) second none
  | "JP" => do absolute? second (jumpIf (← named? Condition.all Condition.written first))
  | "CALL" => do absolute? second (callIf (← named? Condition.all Condition.written first))
  | "JR" => do relative? next second (jumpRelativeIf (← named? Condition.all Condition.written first))
  | _ => do modify? (.shift (← named? Alu.Shift.all Alu.Shift.written mnemonic)) first (some second)

/-- The instruction that a statement stands for which ends before the address `next`. -/
def assemble (s : Statement) (next : UInt16) : Option Instruction :=
  match s.operands with
  | [] => named? implied Instruction.mnemonic s.mnemonic
  | [operand] => unary? next s.mnemonic operand
  | [first, second] => binary? next s.mnemonic first second
  | [first, second, third] =>
      match s.mnemonic with
      | "RES" => do modify? (.reset (← digit? first)) second (some third)
      | "SET" => do modify? (.set (← digit? first)) second (some third)
      | _ => none
  | _ => none

end Statement

/-! ### What can be read back -/

namespace Instruction

/-- The accumulator is loaded and stored where HL points as any other register is. -/
def Regular (i : Instruction) : Prop := i ≠ loadAIndirect .hl ∧ i ≠ storeAIndirect .hl

/-- An instruction that is told by its text, with no other bits and modes than there are. -/
structure Legible (i : Instruction) : Prop where
  bit : ∀ n ∈ i.bitNumber?, n < 8
  mode : ∀ mode, i = .im mode → mode ≤ 2
  regular : i.Regular

/-- Codes of the extended table that are not in use amount to NOP. -/
def settled : Instruction → Instruction
  | reserved _ => nop
  | i => i

end Instruction

namespace Statement

open Instruction

theorem digit?_bitNumber : ∀ n < 8, digit? (Written.bitNumber n) = some n := by decide

@[simp] theorem distance_displace (next : UInt16) (d : Int8) :
    distance next (Word.displace next d) = d := by
  have hoffset : Word.displace next d - next = d.toInt16.toUInt16 := by
    rw [Word.displace, UInt16.add_comm, UInt16.add_sub_cancel]
  have hlow : BitVec.setWidth 8 (BitVec.signExtend 16 d.toBitVec) = d.toBitVec := by
    ext k hk
    have hk' : k < 16 := Nat.lt_trans hk (by decide)
    simp [BitVec.getElem_signExtend, hk, hk']
  unfold distance
  rw [hoffset]
  exact Int8.toBitVec_inj.mp hlow

theorem named_implied : ∀ i ∈ implied, named? implied Instruction.mnemonic i.mnemonic = some i := by
  decide

/-- Texts without operands. -/
theorem assemble_implied (next : UInt16) (i : Instruction) (hi : i ∈ implied) :
    assemble ⟨i.mnemonic, []⟩ next = some i := named_implied i hi

theorem unary?_shift (next : UInt16) (s : Alu.Shift) (operand : String) :
    unary? next s.written operand = modify? (.shift s) operand none := by
  cases s <;> rfl

theorem binary?_shift (next : UInt16) (s : Alu.Shift) (operand copy : String) :
    binary? next s.written operand copy = modify? (.shift s) operand (some copy) := by
  cases s <;> rfl

section Bits

variable (next : UInt16) {op : BitOp} (h : ∀ n ∈ op.number?, n < 8)
include h

/-- An operation on bits with one operand in memory or a register. -/
theorem assemble_modify {operand : String} {i : Instruction}
    (hoperand : modify? op operand none = some i) : (op.written [operand]).assemble next = some i := by
  cases op with
  | shift s => exact (unary?_shift next s operand).trans hoperand
  | reset n =>
      simp [assemble, BitOp.written, binary?, digit?_bitNumber n (h n rfl), hoperand]
  | set n =>
      simp [assemble, BitOp.written, binary?, digit?_bitNumber n (h n rfl), hoperand]

/-- An operation on bits that also copies its result. -/
theorem assemble_copy {operand copy : String} {i : Instruction}
    (hoperand : modify? op operand (some copy) = some i) :
    (op.written [operand, copy]).assemble next = some i := by
  cases op with
  | shift s => exact (binary?_shift next s operand copy).trans hoperand
  | reset n =>
      simp [assemble, BitOp.written, digit?_bitNumber n (h n rfl), hoperand]
  | set n =>
      simp [assemble, BitOp.written, digit?_bitNumber n (h n rfl), hoperand]

end Bits

theorem assemble_accumulate (next : UInt16) (op : Alu.Op) (operand : Operand) :
    (op.written operand).assemble next = some (accumulate op operand) := by
  have haccumulate : accumulate? op operand.written = some (accumulate op operand) := by
    cases operand <;> simp [accumulate?, Operand.written]
  cases op with
  | sub | and | xor | or | cp => exact haccumulate
  | add | adc | sbc =>
      -- the name of the accumulator in front is a register, and no pair
      cases operand <;> simpa [assemble, binary?, Alu.Op.written, Operand.written] using haccumulate

/-- **The assembler gives back the instruction that has been written.** -/
theorem assemble_written (next : UInt16) {i : Instruction} (h : i.Legible) :
    (i.written next).assemble next = some i.settled := by
  cases i with
  | nop => exact assemble_implied next nop (by decide)
  | reserved _ => exact assemble_implied next nop (by decide)
  | halt => exact assemble_implied next halt (by decide)
  | di => exact assemble_implied next di (by decide)
  | ei => exact assemble_implied next ei (by decide)
  | exchangeAll => exact assemble_implied next exchangeAll (by decide)
  | rotateA shift => exact assemble_implied next (rotateA shift) (by cases shift <;> decide)
  | daa => exact assemble_implied next daa (by decide)
  | cpl => exact assemble_implied next cpl (by decide)
  | scf => exact assemble_implied next scf (by decide)
  | ccf => exact assemble_implied next ccf (by decide)
  | neg => exact assemble_implied next neg (by decide)
  | rrd => exact assemble_implied next rrd (by decide)
  | rld => exact assemble_implied next rld (by decide)
  | ret => exact assemble_implied next ret (by decide)
  | retn => exact assemble_implied next retn (by decide)
  | reti => exact assemble_implied next reti (by decide)
  | block op direction repeats =>
      exact assemble_implied next (block op direction repeats)
        (by cases op <;> cases direction <;> cases repeats <;> decide)
  | im mode =>
      have hmode := h.mode mode rfl
      have hlt : mode.toNat < 8 := Nat.lt_of_le_of_lt hmode (by decide)
      have hdigit : digit? (toString mode.toNat) = some mode.toNat := digit?_bitNumber _ hlt
      simp only [assemble, written, unary?, hdigit, Option.map_some, UInt8.ofNat_toNat, settled]
  | rst vector =>
      have htarget := Written.target?_vector "" vector
      rw [String.empty_append] at htarget
      simp [assemble, written, unary?, htarget, settled]
  | loadAIndirect p =>
      -- LD A,(HL) is read back as the load of a register that it is
      have hp : p ≠ .hl := fun heq => h.regular.1 (heq ▸ rfl)
      simp [assemble, written, settled, binary?, load?, hp]
  | storeAIndirect p =>
      have hp : p ≠ .hl := fun heq => h.regular.2 (heq ▸ rfl)
      simp [assemble, written, settled, binary?, load?, hp]
  | jumpPair p =>
      by_cases hp : p = .hl
      · subst hp
        simp [assemble, written, settled, unary?]
      · simp [assemble, written, settled, unary?, hp]
  | accumulate op operand => exact assemble_accumulate next op operand
  | modify op r => exact assemble_modify next h.bit (by simp [modify?, settled])
  | modifyAt op p copy =>
      cases copy with
      | none => exact assemble_modify next h.bit (by simp [modify?, settled])
      | some r => exact assemble_copy next h.bit (by simp [modify?, settled])
  | test n r =>
      have hn : n < 8 := h.bit n rfl
      simp [assemble, written, settled, binary?, digit?_bitNumber n hn]
  | testAt n p =>
      have hn : n < 8 := h.bit n rfl
      simp [assemble, written, settled, binary?, digit?_bitNumber n hn]
  | inputC target =>
      cases target with
      | none => rfl
      | some r => simp [assemble, written, settled, binary?]
  | outputC source =>
      cases source with
      | none => rfl
      | some r => simp [assemble, written, settled, binary?]
  | _ => simp [assemble, written, settled, unary?, binary?, load?, special?, exchange?, count?, relative?, absolute?]

end Statement

/-! ### Texts -/

theorem Hex.digit_ne_comma : ∀ n < 16, digit n ≠ ',' := by decide

@[simp] theorem Hex.comma_not_mem_digits (count n : Nat) : ',' ∉ digits count n := by
  induction count generalizing n with
  | zero => exact List.not_mem_nil
  | succ count ih =>
      have hdigit := digit_ne_comma (n % 16) (Nat.mod_lt _ (by decide))
      simp [digits, ih, hdigit.symm]

@[simp] theorem Reg8.comma_not_mem (r : Reg8) : ',' ∉ r.written.toList := by
  cases r <;> decide

@[simp] theorem Pair.comma_not_mem (p : Pair) : ',' ∉ p.written.toList := by
  cases p <;> decide

@[simp] theorem Condition.comma_not_mem (condition : Condition) : ',' ∉ condition.written.toList := by
  cases condition <;> decide

namespace Written

@[simp] theorem comma_not_mem_byte (n : UInt8) : ',' ∉ (byte n).toList := by
  simp [byte, Hex.byte]

@[simp] theorem comma_not_mem_word (n : UInt16) : ',' ∉ (word n).toList := by
  simp [word, Hex.word]

@[simp] theorem comma_not_mem_indirect (text : String) :
    ',' ∉ (indirect text).toList ↔ ',' ∉ text.toList := by
  simp [indirect]

theorem comma_not_mem_bitNumber : ∀ n < 8, ',' ∉ (bitNumber n).toList := by decide

theorem comma_not_mem_number : ∀ n ≤ 128, ',' ∉ (toString n).toList := by decide

@[simp] theorem comma_not_mem_displacement (d : Int8) : ',' ∉ (displacement d).toList := by
  have hlt := d.toInt_lt
  have hge := d.le_toInt
  have hnumber := comma_not_mem_number d.toInt.natAbs (by omega)
  unfold displacement
  split <;> simpa using hnumber

end Written

@[simp] theorem Pointer.comma_not_mem (p : Pointer) : ',' ∉ p.written.toList := by
  cases p with
  | hl => decide
  | indexed base d => simp [written]

@[simp] theorem Operand.comma_not_mem (operand : Operand) : ',' ∉ operand.written.toList := by
  cases operand <;> simp [written]

@[simp] theorem Alu.Shift.blank_not_mem (s : Alu.Shift) : ' ' ∉ s.written.toList := by
  cases s <;> decide

@[simp] theorem BlockOp.blank_not_mem (op : BlockOp) (direction : Direction) (repeats : Bool) :
    ' ' ∉ (op.mnemonic direction repeats).toList := by
  cases op <;> cases direction <;> cases repeats <;> decide

namespace Instruction

theorem plain_bits {op : BitOp} (h : ∀ n ∈ op.number?, n < 8) {operands : List String}
    (hoperands : ∀ operand ∈ operands, ',' ∉ operand.toList) : (op.written operands).Plain := by
  cases op with
  | shift s => exact ⟨s.blank_not_mem, hoperands⟩
  | reset n =>
      have hnumber := Written.comma_not_mem_bitNumber n (h n rfl)
      exact ⟨by simp [BitOp.written], List.forall_mem_cons.mpr ⟨hnumber, hoperands⟩⟩
  | set n =>
      have hnumber := Written.comma_not_mem_bitNumber n (h n rfl)
      exact ⟨by simp [BitOp.written], List.forall_mem_cons.mpr ⟨hnumber, hoperands⟩⟩

/-- Whatever has been written can be taken apart. -/
theorem written_plain (next : UInt16) {i : Instruction} (h : i.Legible) : (i.written next).Plain := by
  cases i with
  | modify op r => exact plain_bits h.bit (by simp)
  | modifyAt op p copy =>
      cases copy with
      | none => exact plain_bits h.bit (by simp)
      | some r => exact plain_bits h.bit (by simp)
  | test n _ | testAt n _ =>
      have hnumber := Written.comma_not_mem_bitNumber n (h.bit n rfl)
      exact ⟨by simp [written], by simp [written, hnumber]⟩
  | im mode =>
      have hlt : mode.toNat < 8 := Nat.lt_of_le_of_lt (h.mode mode rfl) (by decide)
      have hnumber := Written.comma_not_mem_bitNumber mode.toNat hlt
      exact ⟨by simp [written], List.forall_mem_singleton.mpr hnumber⟩
  | accumulate op operand => cases op <;> exact ⟨by simp [written, Alu.Op.written], by simp [written, Alu.Op.written]⟩
  | inputC target => cases target <;> exact ⟨by simp [written], by simp [written]⟩
  | outputC source => cases source <;> exact ⟨by simp [written], by simp [written]⟩
  | _ => exact ⟨by simp [written], by simp [written, Hex.byte]⟩

/-- **What a text says** is the instruction that has been written, as far as instructions differ in what
they do. -/
theorem assemble_text (next : UInt16) {i : Instruction} (h : i.Legible) :
    (Statement.read (i.written next).render).assemble next = some i.settled := by
  rw [Statement.read_render (written_plain next h), Statement.assemble_written next h]

end Instruction

/-! ### What stands in memory -/

namespace Encoding

variable {α : Type}

theorem All.and {P Q : α → Prop} {e : Encoding α} (h : e.All P) (h' : e.All Q) :
    e.All fun a => P a ∧ Q a := by
  induction e with
  | done a => exact ⟨h, h'⟩
  | opcode next ih => exact fun b => ih b (h b) (h' b)
  | operand next ih => exact fun b => ih b (h b) (h' b)
  | pause n next ih => exact ih h h'

/-- What holds of everything that can be read holds of what stands in memory. -/
theorem All.view {μ : Type} [View μ] {P : α → Prop} {e : Encoding α} (h : e.All P) (m : μ)
    (address : UInt16) : P (e.view m address).1 := by
  induction e generalizing address with
  | done a => exact h
  | opcode next ih => exact ih _ (h _) (address + 1)
  | operand next ih => exact ih _ (h _) (address + 1)
  | pause n next ih => exact ih h address

end Encoding

namespace Opcode

open Instruction

theorem main_regular (index : Option Index) (op : UInt8) : (main index op).All Regular := by
  unfold main
  split
  · unfold firstQuarter
    split <;> (try split) <;> simp [Regular]
  · unfold secondQuarter
    split <;> simp [Regular]
  · unfold thirdQuarter
    split <;> simp [Regular]
  · unfold fourthQuarter
    split <;> (try split) <;> (try split) <;> simp [Regular]

theorem extended_regular : extended.All Regular := by
  intro op
  dsimp only
  split
  · unfold extendedQuarter
    dsimp only
    split <;> (try split) <;> simp [Regular]
  · split <;> exact ⟨Instruction.noConfusion, Instruction.noConfusion⟩

theorem unprefixed_regular (index : Option Index) (op : UInt8) : (unprefixed index op).All Regular := by
  unfold unprefixed
  by_cases hCB : op = 0xCB
  · rw [if_pos hCB]
    cases index with
    | none =>
        intro op
        show Regular (bit op)
        unfold bit
        split <;> exact ⟨Instruction.noConfusion, Instruction.noConfusion⟩
    | some base =>
        intro d op
        show Regular (indexedBit base d.toInt8 op)
        unfold indexedBit
        split <;> exact ⟨Instruction.noConfusion, Instruction.noConfusion⟩
  · rw [if_neg hCB]
    split
    · exact extended_regular
    · exact main_regular index op

/-- Whatever the tables hold can be read back. -/
theorem unprefixed_legible (index : Option Index) (op : UInt8) : (unprefixed index op).All Legible := by
  refine (((unprefixed_formed index op).and (unprefixed_bitNumber index op)).and
    (unprefixed_regular index op)).mono ?_
  rintro i ⟨⟨hformed, hbit⟩, hregular⟩
  exact ⟨hbit, hformed.mode, hregular⟩

end Opcode

namespace Disassembly

variable {μ : Type} [View μ]

theorem decode_legible (m : μ) (start : UInt16) : (decode m start).1.Legible := by
  unfold decode
  split
  · exact ⟨by simp [Instruction.bitNumber?], by simp, by simp [Instruction.Regular]⟩
  · have hsingle : Opcode.single.All Instruction.Legible := by
      intro op
      dsimp only
      split
      · exact fun op => Opcode.unprefixed_legible _ op
      · exact Opcode.unprefixed_legible none op
    exact hsingle.view m start

/-- **Where the same text stands twice, the same instruction does**, as far as instructions differ in what
they do. -/
theorem settled_of_text {ν : Type} [View ν] {m : μ} {m' : ν} {start : UInt16}
    (h : instructionAt m start = instructionAt m' start) :
    (decode m start).1.settled = (decode m' start).1.settled := by
  have htext := congrArg text h
  rw [text_eq, text_eq, h] at htext
  have hread := congrArg (fun text => (Statement.read text).assemble
    (start + .ofNat (instructionAt m' start).length)) htext
  simp only [Instruction.assemble_text _ (decode_legible m start),
    Instruction.assemble_text _ (decode_legible m' start)] at hread
  exact Option.some.inj hread

end Disassembly

end Z80
