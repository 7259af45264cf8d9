/-
The disassembler writes what the processor executes.

There are two decoders.  The processor turns code into an `Instruction` by the opcode tables,
and knows no names.  The disassembler turns code into a text by tables of names, and knows no
instructions.  `Instruction.written` says how an instruction is written, and here the two are
held against it: at every place in every memory view the disassembler writes down the
instruction that the opcode tables find there, and takes as many bytes for it.

`Agrees` relates a reader at a cursor to an encoding.  Each quarter of a table agrees with its
counterpart, row after row, and the rows are put together as the tables are.
-/
import Z80.Instruction.Written
import Z80.Proofs.Viewing

namespace Z80

/-! ### How instructions are written -/

/-- A mnemonic and its operands. -/
structure Statement where
  mnemonic : String
  operands : List String
deriving DecidableEq, Repr

/-- The mnemonic, a blank, and the operands with commas between them. -/
def Statement.render (s : Statement) : String :=
  match s.operands with
  | [] => s.mnemonic
  | operands => s.mnemonic ++ " " ++ ",".intercalate operands

namespace Written

/-- Something looked up in memory or in the port space. -/
def indirect (text : String) : String := "(" ++ text ++ ")"

/-- The number of a bit. -/
def bitNumber (n : Nat) : String := toString n

end Written

def Pointer.written : Pointer → String
  | hl => Written.indirect "HL"
  | indexed base d => Written.indirect (base.pair.written ++ Written.displacement d)

def Operand.written : Operand → String
  | register r => r.written
  | immediate n => Written.byte n
  | memory p => p.written

def Condition.written : Condition → String
  | nz => "NZ"
  | z => "Z"
  | nc => "NC"
  | c => "C"
  | po => "PO"
  | pe => "PE"
  | p => "P"
  | m => "M"

/-- Additions and subtractions with carry name the accumulator, and so does ADD. -/
def Alu.Op.written (op : Alu.Op) (operand : Operand) : Statement :=
  match op with
  | add => ⟨"ADD", ["A", operand.written]⟩
  | adc => ⟨"ADC", ["A", operand.written]⟩
  | sub => ⟨"SUB", [operand.written]⟩
  | sbc => ⟨"SBC", ["A", operand.written]⟩
  | and => ⟨"AND", [operand.written]⟩
  | xor => ⟨"XOR", [operand.written]⟩
  | or => ⟨"OR", [operand.written]⟩
  | cp => ⟨"CP", [operand.written]⟩

def Alu.Shift.written : Alu.Shift → String
  | rlc => "RLC"
  | rrc => "RRC"
  | rl => "RL"
  | rr => "RR"
  | sla => "SLA"
  | sra => "SRA"
  | sll => "SLL"
  | srl => "SRL"

/-- A bit operation on operands, of which the first is the one it changes. -/
def BitOp.written (op : BitOp) (operands : List String) : Statement :=
  match op with
  | shift s => ⟨s.written, operands⟩
  | reset n => ⟨"RES", Written.bitNumber n :: operands⟩
  | set n => ⟨"SET", Written.bitNumber n :: operands⟩

/-- The mnemonic of a block instruction. -/
def BlockOp.mnemonic (op : BlockOp) (direction : Direction) (repeats : Bool) : String :=
  match op, direction, repeats with
  | load, .up, false => "LDI"
  | load, .up, true => "LDIR"
  | load, .down, false => "LDD"
  | load, .down, true => "LDDR"
  | compare, .up, false => "CPI"
  | compare, .up, true => "CPIR"
  | compare, .down, false => "CPD"
  | compare, .down, true => "CPDR"
  | input, .up, false => "INI"
  | input, .up, true => "INIR"
  | input, .down, false => "IND"
  | input, .down, true => "INDR"
  | output, .up, false => "OUTI"
  | output, .up, true => "OTIR"
  | output, .down, false => "OUTD"
  | output, .down, true => "OTDR"

namespace Instruction

open Written (byte word indirect)

/-- How an instruction is written that ends before the address `next`. -/
def written (next : UInt16) : Instruction → Statement
  | nop => ⟨"NOP", []⟩
  | reserved _ => ⟨"NOP", []⟩
  | halt => ⟨"HALT", []⟩
  | di => ⟨"DI", []⟩
  | ei => ⟨"EI", []⟩
  | im mode => ⟨"IM", [toString mode.toNat]⟩
  | load target source => ⟨"LD", [target.written, source.written]⟩
  | loadImmediate target n => ⟨"LD", [target.written, byte n]⟩
  | loadFrom target source => ⟨"LD", [target.written, source.written]⟩
  | storeTo target source => ⟨"LD", [target.written, source.written]⟩
  | storeImmediate target n => ⟨"LD", [target.written, byte n]⟩
  | loadAIndirect source => ⟨"LD", ["A", indirect source.written]⟩
  | storeAIndirect target => ⟨"LD", [indirect target.written, "A"]⟩
  | loadADirect source => ⟨"LD", ["A", indirect (word source)]⟩
  | storeADirect target => ⟨"LD", [indirect (word target), "A"]⟩
  | loadIA => ⟨"LD", ["I", "A"]⟩
  | loadRA => ⟨"LD", ["R", "A"]⟩
  | loadAI => ⟨"LD", ["A", "I"]⟩
  | loadAR => ⟨"LD", ["A", "R"]⟩
  | loadPair target nn => ⟨"LD", [target.written, word nn]⟩
  | loadPairDirect target source => ⟨"LD", [target.written, indirect (word source)]⟩
  | storePairDirect target source => ⟨"LD", [indirect (word target), source.written]⟩
  | loadSP source => ⟨"LD", ["SP", source.written]⟩
  | push source => ⟨"PUSH", [source.written]⟩
  | pop target => ⟨"POP", [target.written]⟩
  | exchangeAF => ⟨"EX", ["AF", "AF'"]⟩
  | exchangeAll => ⟨"EXX", []⟩
  | exchangeDEHL => ⟨"EX", ["DE", "HL"]⟩
  | exchangeTop target => ⟨"EX", ["(SP)", target.written]⟩
  | accumulate op operand => op.written operand
  | increment target => ⟨"INC", [target.written]⟩
  | incrementAt target => ⟨"INC", [target.written]⟩
  | decrement target => ⟨"DEC", [target.written]⟩
  | decrementAt target => ⟨"DEC", [target.written]⟩
  | incrementPair target => ⟨"INC", [target.written]⟩
  | decrementPair target => ⟨"DEC", [target.written]⟩
  | addPair target source => ⟨"ADD", [target.written, source.written]⟩
  | adcPair source => ⟨"ADC", ["HL", source.written]⟩
  | sbcPair source => ⟨"SBC", ["HL", source.written]⟩
  | rotateA shift => ⟨shift.written ++ "A", []⟩
  | daa => ⟨"DAA", []⟩
  | cpl => ⟨"CPL", []⟩
  | scf => ⟨"SCF", []⟩
  | ccf => ⟨"CCF", []⟩
  | neg => ⟨"NEG", []⟩
  | rrd => ⟨"RRD", []⟩
  | rld => ⟨"RLD", []⟩
  | modify op target => op.written [target.written]
  | modifyAt op target none => op.written [target.written]
  | modifyAt op target (some copy) => op.written [target.written, copy.written]
  | test n source => ⟨"BIT", [Written.bitNumber n, source.written]⟩
  | testAt n source => ⟨"BIT", [Written.bitNumber n, source.written]⟩
  | jump target => ⟨"JP", [word target]⟩
  | jumpIf condition target => ⟨"JP", [condition.written, word target]⟩
  | jumpPair target => ⟨"JP", [indirect target.written]⟩
  | jumpRelative d => ⟨"JR", [word (Word.displace next d)]⟩
  | jumpRelativeIf condition d => ⟨"JR", [condition.written, word (Word.displace next d)]⟩
  | djnz d => ⟨"DJNZ", [word (Word.displace next d)]⟩
  | call target => ⟨"CALL", [word target]⟩
  | callIf condition target => ⟨"CALL", [condition.written, word target]⟩
  | ret => ⟨"RET", []⟩
  | retIf condition => ⟨"RET", [condition.written]⟩
  | retn => ⟨"RETN", []⟩
  | reti => ⟨"RETI", []⟩
  | rst vector => ⟨"RST", [Hex.byte vector ++ "h"]⟩
  | inputA low => ⟨"IN", ["A", indirect (byte low)]⟩
  | outputA low => ⟨"OUT", [indirect (byte low), "A"]⟩
  | inputC none => ⟨"IN", ["F", "(C)"]⟩
  | inputC (some r) => ⟨"IN", [r.written, "(C)"]⟩
  | outputC none => ⟨"OUT", ["(C)", "0"]⟩
  | outputC (some r) => ⟨"OUT", ["(C)", r.written]⟩
  | block op direction repeats => ⟨op.mnemonic direction repeats, []⟩

end Instruction

/-! ### Names -/

namespace Statement

theorem render_one (mnemonic a : String) : (⟨mnemonic, [a]⟩ : Statement).render = mnemonic ++ " " ++ a :=
  rfl

theorem render_two (mnemonic a b : String) :
    (⟨mnemonic, [a, b]⟩ : Statement).render = mnemonic ++ " " ++ a ++ "," ++ b := by
  show mnemonic ++ " " ++ (a ++ "," ++ b) = _
  simp only [String.append_assoc]

theorem render_three (mnemonic a b c : String) :
    (⟨mnemonic, [a, b, c]⟩ : Statement).render = mnemonic ++ " " ++ a ++ "," ++ b ++ "," ++ c := by
  show mnemonic ++ " " ++ (a ++ "," ++ b ++ "," ++ c) = _
  simp only [String.append_assoc]

theorem render_indirect (mnemonic a : String) :
    (⟨mnemonic, [Written.indirect a]⟩ : Statement).render = mnemonic ++ " (" ++ a ++ ")" := by
  rw [render_one, show " (" = " " ++ "(" from rfl]
  simp only [Written.indirect, String.append_assoc]

/-- An operand in memory before another one. -/
theorem render_indirect_left (mnemonic a b : String) :
    (⟨mnemonic, [Written.indirect a, b]⟩ : Statement).render = mnemonic ++ " (" ++ a ++ ")," ++ b := by
  rw [render_two, show " (" = " " ++ "(" from rfl, show ")," = ")" ++ "," from rfl]
  simp only [Written.indirect, String.append_assoc]

theorem render_indirect_A (mnemonic a : String) :
    (⟨mnemonic, [Written.indirect a, "A"]⟩ : Statement).render = mnemonic ++ " (" ++ a ++ "),A" := by
  rw [render_indirect_left, String.append_assoc]
  rfl

theorem render_port (mnemonic a : String) :
    (⟨mnemonic, [a, "(C)"]⟩ : Statement).render = mnemonic ++ " " ++ a ++ ",(C)" := by
  rw [render_two, String.append_assoc]
  rfl

/-- An operand in memory behind another one. -/
theorem render_indirect_right (mnemonic a b : String) :
    (⟨mnemonic, [a, Written.indirect b]⟩ : Statement).render =
      mnemonic ++ " " ++ a ++ ",(" ++ b ++ ")" := by
  rw [render_two, show ",(" = "," ++ "(" from rfl]
  simp only [Written.indirect, String.append_assoc]

end Statement

/-- The values of a field of three bits. -/
theorem lt_eight {n : Nat} (h : n < 8) :
    n = 0 ∨ n = 1 ∨ n = 2 ∨ n = 3 ∨ n = 4 ∨ n = 5 ∨ n = 6 ∨ n = 7 := by omega

namespace Written

theorem base_eq (index : Option Index) : base index = (Pair.indexed index .hl).written := by
  rcases index with - | - | - <;> rfl

/-- A code names a register, with an index register in force or not, unless it is 6. -/
theorem register_cases : ∀ code < 8, (code = 6 ∧ Reg8.ofCode? code = none) ∨
    (code ≠ 6 ∧ ∃ r, Reg8.ofCode? code = some r ∧
      ∀ index, register index code = (r.indexed index).written) := by
  intro code hcode
  by_cases hsix : code = 6
  · subst hsix
    exact .inl ⟨rfl, rfl⟩
  · refine .inr ⟨hsix, ?_⟩
    rcases lt_eight hcode with rfl | rfl | rfl | rfl | rfl | rfl | rfl | rfl
    case inr.inr.inr.inr.inr.inr.inl => exact absurd rfl hsix
    all_goals
      refine ⟨_, rfl, fun index => ?_⟩
      rcases index with - | - | - <;> rfl

theorem pair_eq (index : Option Index) :
    ∀ code < 4, pair index code = (Pair.indexed index (.ofCode code)).written := by
  rcases index with - | - | - <;> decide

theorem stackPair_eq (index : Option Index) :
    ∀ code < 4, stackPair index code = (Pair.indexed index (.stackOfCode code)).written := by
  rcases index with - | - | - <;> decide

theorem condition_eq : ∀ y < 8, name conditions y = (Condition.ofCode y).written := by decide

theorem shift_eq : ∀ y < 8, name shifts y = (Alu.Shift.ofCode y).written := by decide

theorem operation_eq {y : Nat} (hy : y < 8) (operand : Operand) :
    name operations y ++ operand.written = ((Alu.Op.ofCode y).written operand).render := by
  rcases lt_eight hy with rfl | rfl | rfl | rfl | rfl | rfl | rfl | rfl
  · exact (Statement.render_two "ADD" "A" _).symm
  · exact (Statement.render_two "ADC" "A" _).symm
  · exact (Statement.render_one "SUB" _).symm
  · exact (Statement.render_two "SBC" "A" _).symm
  · exact (Statement.render_one "AND" _).symm
  · exact (Statement.render_one "XOR" _).symm
  · exact (Statement.render_one "OR" _).symm
  · exact (Statement.render_one "CP" _).symm

theorem indexed_eq (i : Index) (d : Int8) : indexed i d = (Pointer.indexed i d).written := by
  cases i <;> simp only [Pointer.written, indirect, indexed, String.append_assoc] <;> rfl

end Written

/-! ### Reading side by side -/

section Agreement

variable {μ : Type} [View μ] {α γ δ ε : Type}

theorem Encoding.view_bind (m : μ) (e : Encoding γ) (k : γ → Encoding δ) (address : UInt16) :
    (e >>= k).view m address =
      (((k (e.view m address).1).view m (address + .ofNat (e.view m address).2)).1,
        (e.view m address).2 +
          ((k (e.view m address).1).view m (address + .ofNat (e.view m address).2)).2) := by
  induction e generalizing address with
  | done a =>
      show (k a).view m address = (((k a).view m (address + .ofNat 0)).1,
        0 + ((k a).view m (address + .ofNat 0)).2)
      rw [show address + UInt16.ofNat 0 = address from UInt16.add_zero address, Nat.zero_add]
  | opcode next ih =>
      show (((next (peek m address) >>= k).view m (address + 1)).1,
        ((next (peek m address) >>= k).view m (address + 1)).2 + 1) = _
      rw [ih]
      simp only [view, add_one_add_ofNat, Nat.add_right_comm]
  | operand next ih =>
      show (((next (peek m address) >>= k).view m (address + 1)).1,
        ((next (peek m address) >>= k).view m (address + 1)).2 + 1) = _
      rw [ih]
      simp only [view, add_one_add_ofNat, Nat.add_right_comm]
  | pause n next ih => exact ih address

namespace Cursor

omit [View μ] in
theorem next_move (c : Cursor μ) (n : Nat) : (c.move n).next = c.next + .ofNat n := by
  simp only [next, move, UInt16.ofNat_add, UInt16.add_assoc]

/--
At every place a reader takes the bytes that an encoding takes, and what it makes of them is
found from what the encoding says and from the address behind them.
-/
def Agrees (p : StateM (Cursor μ) α) (e : Encoding γ) (f : UInt16 → γ → α) : Prop :=
  ∀ c : Cursor μ, (p.run c).run =
    (f (c.next + .ofNat (e.view c.memory c.next).2) (e.view c.memory c.next).1,
      c.move (e.view c.memory c.next).2)

variable {p : StateM (Cursor μ) α} {q : α → StateM (Cursor μ) ε} {e : Encoding γ}
  {k : γ → Encoding δ} {f : UInt16 → γ → α} {f' : UInt16 → δ → ε}

namespace Agrees

theorem pure {a : α} {b : γ} (h : ∀ stop, a = f stop b) : Agrees (μ := μ) (pure a) (pure b) f := by
  intro c
  rw [h (c.next + .ofNat 0)]
  rfl

theorem bind {g : γ → α} (hp : Agrees p e fun _ b => g b) (hq : ∀ b, Agrees (q (g b)) (k b) f') :
    Agrees (p >>= q) (e >>= k) f' := by
  intro c
  have hfirst := hp c
  have hrest := hq (e.view c.memory c.next).1 (c.move (e.view c.memory c.next).2)
  rw [next_move] at hrest
  have hrun : ((p >>= q).run c).run = ((q (p.run c).run.1).run (p.run c).run.2).run := rfl
  rw [hrun, hfirst, hrest, Encoding.view_bind]
  simp only [move, UInt16.ofNat_add, UInt16.add_assoc, Nat.add_assoc]

theorem map {g : α → ε} {h : γ → δ} (hp : Agrees p e f) (hg : ∀ stop b, g (f stop b) = f' stop (h b)) :
    Agrees (do return g (← p)) (do return h (← e)) f' := by
  intro c
  have hrun : ((do return g (← p) : StateM (Cursor μ) ε).run c).run = (g (p.run c).run.1, (p.run c).run.2) := rfl
  rw [hrun, hp c, hg, bind_pure_comp, Encoding.view_map]

/-- A pause in the reading takes no bytes. -/
theorem pause (n : Nat) (h : Agrees p e f) : Agrees p (.pause n e) f := h

end Agrees

theorem byte_agrees : Agrees (μ := μ) byte Encoding.byte fun _ b => b := fun _ => rfl

/-- Bytes are bytes to the reader, opcodes among them. -/
theorem opcode_agrees {q : UInt8 → StateM (Cursor μ) ε} {k : UInt8 → Encoding δ}
    (h : ∀ b, Agrees (q b) (k b) f') : Agrees (byte >>= q) (.opcode k) f' :=
  Agrees.bind byte_agrees h

theorem word_agrees : Agrees (μ := μ) word Encoding.word fun _ w => w :=
  byte_agrees.bind fun _ => byte_agrees.map fun _ _ => rfl

theorem displacement_agrees : Agrees (μ := μ) displacement Encoding.displacement fun _ d => d :=
  byte_agrees.map fun _ _ => rfl

theorem relative_agrees :
    Agrees (μ := μ) relative Encoding.displacement fun stop d => Word.displace stop d := by
  intro c
  have hread := displacement_agrees c
  have hrun : (relative.run c).run = (Word.displace (displacement.run c).run.2.next (displacement.run c).run.1,
    (displacement.run c).run.2) := rfl
  rw [hrun, hread, next_move]

end Cursor

namespace Disassembly

open Cursor (Agrees byte_agrees word_agrees displacement_agrees relative_agrees opcode_agrees)
open Statement

/-- What a reader writes down is the instruction that an encoding reads. -/
def Writes (p : StateM (Cursor μ) String) (e : Encoding Instruction) : Prop :=
  Agrees p e fun stop i => (i.written stop).render

theorem pointer_agrees (index : Option Index) :
    Agrees (μ := μ) (pointer index) (Opcode.pointer index) fun _ p => p.written := by
  cases index with
  | none => exact .pure fun _ => rfl
  | some i => exact displacement_agrees.map fun _ d => Written.indexed_eq i d

variable {index : Option Index} {y z : Nat}

/-- An operand is a register or in memory, and there is an instruction for either. -/
theorem operand_writes (index : Option Index) {text : String → String} {onRegister : Reg8 → Instruction}
    {onMemory : Pointer → Instruction} (hy : y < 8)
    (hregister : ∀ r stop, text r.written = ((onRegister r).written stop).render)
    (hmemory : ∀ p stop, text p.written = ((onMemory p).written stop).render) :
    Writes (μ := μ) (do return text (← operand index y))
      (match Reg8.ofCode? y with
        | some r => pure (onRegister (r.indexed index))
        | none => do return onMemory (← Opcode.pointer index)) := by
  unfold operand
  rcases Written.register_cases y hy with ⟨rfl, hnone⟩ | ⟨hne, r, hsome, hname⟩
  · rw [if_pos rfl, hnone]
    exact (pointer_agrees index).map fun stop p => hmemory p stop
  · rw [if_neg hne, hsome, hname]
    exact .pure fun stop => hregister _ stop

theorem relativeJumps_writes (hy : y < 8) :
    Writes (μ := μ) (firstQuarter index y 0) (Opcode.firstQuarter index y 0) := by
  rcases lt_eight hy with rfl | rfl | rfl | rfl | rfl | rfl | rfl | rfl
  · exact .pure fun _ => rfl
  · exact .pure fun _ => (render_two "EX" "AF" "AF'").symm
  · exact .pause 1 (relative_agrees.map fun _ _ => rfl)
  · exact relative_agrees.map fun _ _ => rfl
  · exact relative_agrees.map fun _ _ => (render_two "JR" "NZ" _).symm
  · exact relative_agrees.map fun _ _ => (render_two "JR" "Z" _).symm
  · exact relative_agrees.map fun _ _ => (render_two "JR" "NC" _).symm
  · exact relative_agrees.map fun _ _ => (render_two "JR" "C" _).symm

theorem indirectLoads_writes (hy : y < 8) :
    Writes (μ := μ) (firstQuarter index y 2) (Opcode.firstQuarter index y 2) := by
  rcases lt_eight hy with rfl | rfl | rfl | rfl | rfl | rfl | rfl | rfl
  · exact .pure fun _ => (render_indirect_left "LD" "BC" "A").symm
  · exact .pure fun _ => (render_indirect_right "LD" "A" "BC").symm
  · exact .pure fun _ => (render_indirect_left "LD" "DE" "A").symm
  · exact .pure fun _ => (render_indirect_right "LD" "A" "DE").symm
  · refine word_agrees.map fun _ _ => ?_
    rw [Written.base_eq]
    exact (render_indirect_left "LD" _ _).symm
  · refine word_agrees.map fun _ _ => ?_
    rw [Written.base_eq]
    exact (render_indirect_right "LD" _ _).symm
  · exact word_agrees.map fun _ _ => (render_indirect_A "LD" _).symm
  · exact word_agrees.map fun _ _ => (render_indirect_right "LD" "A" _).symm

theorem accumulator_writes (hy : y < 8) :
    Writes (μ := μ) (firstQuarter index y 7) (Opcode.firstQuarter index y 7) := by
  rcases lt_eight hy with rfl | rfl | rfl | rfl | rfl | rfl | rfl | rfl <;> exact .pure fun _ => rfl

theorem firstQuarter_writes (hy : y < 8) (hz : z < 8) :
    Writes (μ := μ) (firstQuarter index y z) (Opcode.firstQuarter index y z) := by
  have hpair : Written.pair index (y / 2) = (Pair.indexed index (.ofCode (y / 2))).written :=
    Written.pair_eq index _ (by omega)
  rcases lt_eight hz with rfl | rfl | rfl | rfl | rfl | rfl | rfl | rfl
  · exact relativeJumps_writes hy
  · simp only [firstQuarter, Opcode.firstQuarter, hpair, Written.base_eq]
    split
    · exact word_agrees.map fun _ _ => (render_two "LD" _ _).symm
    · exact .pure fun _ => (render_two "ADD" _ _).symm
  · exact indirectLoads_writes hy
  · refine .pure fun _ => ?_
    rw [hpair]
    split
    · exact (render_one "INC" _).symm
    · exact (render_one "DEC" _).symm
  · exact operand_writes index hy (fun _ _ => rfl) (fun _ _ => rfl)
  · exact operand_writes index hy (fun _ _ => rfl) (fun _ _ => rfl)
  · simp only [firstQuarter, Opcode.firstQuarter, operand]
    rcases Written.register_cases y hy with ⟨rfl, hnone⟩ | ⟨hne, r, hsome, hname⟩
    · rw [if_pos rfl, hnone]
      exact (pointer_agrees index).bind fun _ => byte_agrees.map fun _ _ => (render_two "LD" _ _).symm
    · rw [if_neg hne, hsome, hname]
      exact byte_agrees.map fun _ _ => (render_two "LD" _ _).symm
  · exact accumulator_writes hy

theorem secondQuarter_writes (hy : y < 8) (hz : z < 8) :
    Writes (μ := μ) (secondQuarter index y z) (Opcode.secondQuarter index y z) := by
  unfold secondQuarter Opcode.secondQuarter
  rcases Written.register_cases y hy with ⟨rfl, htarget⟩ | ⟨hy', r, htarget, hname⟩ <;>
    rcases Written.register_cases z hz with ⟨rfl, hsource⟩ | ⟨hz', r', hsource, hname'⟩
  · rw [htarget]
    exact .pure fun _ => rfl
  · rw [if_neg (by omega), if_neg hz', if_pos rfl, htarget, hsource, hname']
    exact (pointer_agrees index).map fun _ _ => (render_two "LD" _ _).symm
  · rw [if_neg (by omega), if_pos rfl, htarget, hsource, hname]
    exact (pointer_agrees index).map fun _ _ => (render_two "LD" _ _).symm
  · rw [if_neg (by omega), if_neg hz', if_neg hy', htarget, hsource, hname, hname']
    exact .pure fun _ => (render_two "LD" _ _).symm

theorem thirdQuarter_writes (hy : y < 8) (hz : z < 8) :
    Writes (μ := μ) (thirdQuarter index y z) (Opcode.thirdQuarter index y z) := by
  have hregister : ∀ (r : Reg8) (stop : UInt16), Written.name Written.operations y ++ r.written =
      ((Instruction.accumulate (.ofCode y) (.register r)).written stop).render :=
    fun r _ => Written.operation_eq hy (.register r)
  have hmemory : ∀ (p : Pointer) (stop : UInt16), Written.name Written.operations y ++ p.written =
      ((Instruction.accumulate (.ofCode y) (.memory p)).written stop).render :=
    fun p _ => Written.operation_eq hy (.memory p)
  have hrow := operand_writes (μ := μ) index hz hregister hmemory
  exact hrow

theorem returns_writes (hy : y < 8) :
    Writes (μ := μ) (fourthQuarter index y 1) (Opcode.fourthQuarter index y 1) := by
  have hpop : Writes (μ := μ) (pure ("POP " ++ Written.stackPair index (y / 2)))
      (pure (.pop (Pair.indexed index (.stackOfCode (y / 2))))) := by
    rw [Written.stackPair_eq _ _ (by omega)]
    exact .pure fun _ => (render_one "POP" _).symm
  rcases lt_eight hy with rfl | rfl | rfl | rfl | rfl | rfl | rfl | rfl
  · exact hpop
  · exact .pure fun _ => rfl
  · exact hpop
  · exact .pure fun _ => rfl
  · exact hpop
  · simp only [fourthQuarter, Opcode.fourthQuarter, Written.base_eq]
    exact .pure fun _ => (render_indirect "JP" _).symm
  · exact hpop
  · simp only [fourthQuarter, Opcode.fourthQuarter, Written.base_eq]
    exact .pure fun _ => (render_two "LD" "SP" _).symm

theorem controls_writes (hy : y < 8) :
    Writes (μ := μ) (fourthQuarter index y 3) (Opcode.fourthQuarter index y 3) := by
  rcases lt_eight hy with rfl | rfl | rfl | rfl | rfl | rfl | rfl | rfl
  · exact word_agrees.map fun _ _ => rfl
  · exact .pure fun _ => rfl
  · exact byte_agrees.map fun _ _ => (render_indirect_A "OUT" _).symm
  · exact byte_agrees.map fun _ _ => (render_indirect_right "IN" "A" _).symm
  · simp only [fourthQuarter, Opcode.fourthQuarter, Written.base_eq]
    exact .pure fun _ => (render_two "EX" "(SP)" _).symm
  · exact .pure fun _ => (render_two "EX" "DE" "HL").symm
  · exact .pure fun _ => rfl
  · exact .pure fun _ => rfl

theorem fourthQuarter_writes (hy : y < 8) (hz : z < 8) :
    Writes (μ := μ) (fourthQuarter index y z) (Opcode.fourthQuarter index y z) := by
  have hcondition := Written.condition_eq y hy
  rcases lt_eight hz with rfl | rfl | rfl | rfl | rfl | rfl | rfl | rfl
  · refine .pure fun _ => ?_
    rw [hcondition]
    exact (render_one "RET" _).symm
  · exact returns_writes hy
  · refine word_agrees.map fun _ _ => ?_
    rw [hcondition]
    exact (render_two "JP" _ _).symm
  · exact controls_writes hy
  · refine word_agrees.map fun _ _ => ?_
    rw [hcondition]
    exact (render_two "CALL" _ _).symm
  · simp only [fourthQuarter, Opcode.fourthQuarter, Written.stackPair_eq _ _ (show y / 2 < 4 by omega)]
    split
    · exact .pure fun _ => (render_one "PUSH" _).symm
    · split
      · exact word_agrees.map fun _ _ => (render_one "CALL" _).symm
      · exact .pure fun _ => rfl
  · exact byte_agrees.map fun _ n => Written.operation_eq hy (.immediate n)
  · refine .pure fun _ => ?_
    rw [String.append_assoc]
    exact (render_one "RST" _).symm

theorem main_writes (index : Option Index) (op : UInt8) :
    Writes (μ := μ) (main index op) (Opcode.main index op) := by
  have hy := Opcode.y_lt op
  have hz := Opcode.z_lt op
  have hlt := op.toNat_lt
  unfold main Opcode.main
  obtain h | h | h | h : op.toNat / 64 = 0 ∨ op.toNat / 64 = 1 ∨ op.toNat / 64 = 2 ∨ op.toNat / 64 = 3 := by
    omega
  all_goals rw [h]
  · exact firstQuarter_writes hy hz
  · exact secondQuarter_writes hy hz
  · exact thirdQuarter_writes hy hz
  · exact fourthQuarter_writes hy hz

/-! ### The other tables side by side -/

/-- A bit operation changes its operand, which may be copied to another one, or it is a test. -/
theorem bitOperation_cases (op : UInt8) :
    (op.toNat / 64 = 1 ∧ Opcode.bitOp? op = none ∧ ∀ text, Written.bitOperation op text =
        (⟨"BIT", [Written.bitNumber (Opcode.y op), text]⟩ : Statement).render) ∨
      op.toNat / 64 ≠ 1 ∧ ∃ b, Opcode.bitOp? op = some b ∧ ∀ text,
        Written.bitOperation op text = (b.written [text]).render ∧
        ∀ copy, Written.bitOperation op text ++ "," ++ copy = (b.written [text, copy]).render := by
  have hlt := op.toNat_lt
  have hshift := Written.shift_eq (Opcode.y op) (Opcode.y_lt op)
  unfold Written.bitOperation Opcode.bitOp?
  obtain h | h | h | h : op.toNat / 64 = 0 ∨ op.toNat / 64 = 1 ∨ op.toNat / 64 = 2 ∨ op.toNat / 64 = 3 := by
    omega
  all_goals rw [h]
  · refine .inr ⟨by decide, _, rfl, fun text => ⟨?_, fun copy => ?_⟩⟩
    · rw [hshift]
      exact (render_one _ _).symm
    · rw [hshift]
      exact (render_two _ _ _).symm
  · exact .inl ⟨rfl, rfl, fun text => (render_two "BIT" _ _).symm⟩
  · exact .inr ⟨by decide, _, rfl, fun text =>
      ⟨(render_two "RES" _ _).symm, fun copy => (render_three "RES" _ _ _).symm⟩⟩
  · exact .inr ⟨by decide, _, rfl, fun text =>
      ⟨(render_two "SET" _ _).symm, fun copy => (render_three "SET" _ _ _).symm⟩⟩

theorem bits_writes : Writes (μ := μ) bits Opcode.bits := by
  refine opcode_agrees fun op => ?_
  unfold operand Opcode.bit
  rcases bitOperation_cases op with ⟨-, hop, htext⟩ | ⟨-, b, hop, htext⟩ <;>
    rcases Written.register_cases _ (Opcode.z_lt op) with ⟨hz, hr⟩ | ⟨hz, r, hr, hname⟩
  · rw [hop, hr, if_pos hz]
    exact .pure fun _ => htext _
  · rw [hop, hr, if_neg hz, hname]
    exact .pure fun _ => htext _
  · rw [hop, hr, if_pos hz]
    exact .pure fun _ => (htext _).1
  · rw [hop, hr, if_neg hz, hname]
    exact .pure fun _ => (htext _).1

theorem indexedBits_writes (i : Index) : Writes (μ := μ) (indexedBits i) (Opcode.indexedBits i) := by
  refine displacement_agrees.bind fun d => byte_agrees.bind fun op => ?_
  rw [Written.indexed_eq]
  unfold Opcode.indexedBit
  rcases bitOperation_cases op with ⟨hq, hop, htext⟩ | ⟨hq, b, hop, htext⟩
  · rw [hop, if_neg fun h => h.1 hq]
    exact .pure fun _ => htext _
  · rw [hop]
    rcases Written.register_cases _ (Opcode.z_lt op) with ⟨hz, hr⟩ | ⟨hz, r, hr, hname⟩
    · rw [hr, if_neg fun h => h.2 hz]
      exact .pure fun _ => (htext _).1
    · rw [hr, if_pos ⟨hq, hz⟩, hname]
      exact .pure fun _ => (htext _).2 _

theorem ports_writes (hy : y < 8) :
    Writes (μ := μ) (extendedQuarter y 0) (pure (.inputC (Reg8.ofCode? y))) ∧
      Writes (μ := μ) (extendedQuarter y 1) (pure (.outputC (Reg8.ofCode? y))) := by
  simp only [extendedQuarter]
  rcases Written.register_cases y hy with ⟨rfl, hr⟩ | ⟨hne, r, hr, hname⟩
  · rw [hr]
    exact ⟨.pure fun _ => (render_two "IN" "F" "(C)").symm, .pure fun _ => (render_two "OUT" "(C)" "0").symm⟩
  · rw [if_neg hne, if_neg hne, hr, hname]
    exact ⟨.pure fun _ => (render_port "IN" _).symm, .pure fun _ => (render_two "OUT" "(C)" _).symm⟩

theorem extendedQuarter_writes (op : UInt8) :
    Writes (μ := μ) (extendedQuarter (Opcode.y op) (Opcode.z op)) (Opcode.extendedQuarter op) := by
  have hy := Opcode.y_lt op
  have hz := Opcode.z_lt op
  unfold Opcode.extendedQuarter
  generalize Opcode.y op = y at hy ⊢
  generalize Opcode.z op = z at hz ⊢
  have hpair : Written.pair none (y / 2) = (Pair.ofCode (y / 2)).written :=
    Written.pair_eq none _ (by omega)
  rcases lt_eight hz with rfl | rfl | rfl | rfl | rfl | rfl | rfl | rfl
  · exact (ports_writes hy).1
  · exact (ports_writes hy).2
  · refine .pure fun _ => ?_
    rw [hpair]
    split
    · exact (render_two "SBC" "HL" _).symm
    · exact (render_two "ADC" "HL" _).symm
  · simp only [extendedQuarter, hpair]
    split
    · exact word_agrees.map fun _ _ => (render_indirect_left "LD" _ _).symm
    · exact word_agrees.map fun _ _ => (render_indirect_right "LD" _ _).symm
  · exact .pure fun _ => rfl
  · refine .pure fun _ => ?_
    split <;> rfl
  · rcases lt_eight hy with rfl | rfl | rfl | rfl | rfl | rfl | rfl | rfl <;> exact .pure fun _ => rfl
  · rcases lt_eight hy with rfl | rfl | rfl | rfl | rfl | rfl | rfl | rfl
    · exact .pure fun _ => (render_two "LD" "I" "A").symm
    · exact .pure fun _ => (render_two "LD" "R" "A").symm
    · exact .pure fun _ => (render_two "LD" "A" "I").symm
    · exact .pure fun _ => (render_two "LD" "A" "R").symm
    all_goals exact .pure fun _ => rfl

/-- The table of block instructions has a row for each way of going through memory. -/
theorem block_eq : ∀ y < 8, 4 ≤ y → ∀ z < 4, Written.name Written.blocks ((y - 4) * 4 + z) =
    (Opcode.blockOp z).mnemonic (if y % 2 = 0 then .up else .down) (decide (6 ≤ y)) := by decide

theorem extended_writes : Writes (μ := μ) extended Opcode.extended := by
  refine opcode_agrees fun op => ?_
  by_cases hblock : op.toNat / 64 = 2 ∧ 4 ≤ Opcode.y op ∧ Opcode.z op ≤ 3
  · obtain ⟨hquarter, hlow, hz⟩ := hblock
    rw [if_pos ⟨hquarter, hlow, hz⟩, if_neg (by omega), if_pos ⟨hquarter, hlow, Nat.lt_succ_of_le hz⟩,
      block_eq _ (Opcode.y_lt op) hlow _ (Nat.lt_succ_of_le hz)]
    exact .pure fun _ => rfl
  · rw [if_neg hblock]
    by_cases hquarter : op.toNat / 64 = 1
    · rw [if_pos hquarter, if_pos hquarter]
      exact extendedQuarter_writes op
    · rw [if_neg hquarter, if_neg hquarter, if_neg (by omega)]
      exact .pure fun _ => rfl

/-! ### Whole lines -/

/-- Behind the prefixes the disassembler writes down the instruction that the tables find. -/
theorem unprefixed_writes (index : Option Index) (op : UInt8) :
    Writes (μ := μ) (unprefixed index op) (Opcode.unprefixed index op) := by
  unfold unprefixed Opcode.unprefixed
  by_cases hED : op = 0xED
  · subst hED
    exact extended_writes
  · rw [if_neg hED, if_neg hED]
    split
    · cases index with
      | none => exact bits_writes
      | some i => exact indexedBits_writes i
    · exact main_writes index op

end Disassembly

end Agreement

end Z80
