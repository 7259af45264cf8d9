/-
Guarding what is partial.

The definitions of this library are total: a difference stops at zero, a table answers everywhere,
and a window is a number below four by its type.  A program that is written with partial operations
has to get along without such help.  `Guard` says things over again with operations that can fail,
each with the `Fault` that it runs into, and what is to be shown is that none of them does: the
guarded form returns `.ok` of what the total one computes.

Here it is done for instructions.  The main table is written out opcode by opcode (`Guard.main`), with
the cases that cannot arise left to a fault; on the 252 opcodes that are no prefixes it is the table
of `Opcode.main` (`main_eq`).  The loop over prefixes asks it for no others (`instruction_eq`), and no
instruction that is read works on a bit that a byte does not have (`unprefixed_bitNumber`), so an
event is the same with guards and without (`event_eq`).
-/
import Z80.Proofs.Naming
import Z80.Proofs.Calls
import Mathlib.Tactic.IntervalCases

namespace Z80

/-- What a partial operation can run into. -/
inductive Fault where
  /-- A case has arisen that cannot arise. -/
  | unreachable
  /-- There is nothing at an index. -/
  | index
  /-- A difference is below zero. -/
  | underflow
  /-- A byte is shifted by eight places or more. -/
  | shift
  /-- A number is divided by zero. -/
  | division
  /-- What is required does not hold. -/
  | assertion
deriving DecidableEq, Repr

namespace Guard

variable {α : Type}

/-- A difference. -/
def sub (a b : Nat) : Except Fault Nat := if b ≤ a then .ok (a - b) else .error .underflow

/-- What has been looked up. -/
def look : Option α → Except Fault α
  | some a => .ok a
  | none => .error .index

theorem sub_of_le {a b : Nat} (h : b ≤ a) : sub a b = .ok (a - b) := if_pos h

/-! ### Opcodes -/

open Opcode in
/--
The instruction that an opcode of the main table begins, with the opcodes told apart one by one.  The
prefixes are no opcodes of this table, and behind the opcode of HALT no load is left that names
memory twice.
-/
def main (index : Option Index) (op : UInt8) : Except Fault (Encoding Instruction) :=
  let y := y op
  let z := z op
  let base := Pair.indexed index .hl
  let pair := Pair.indexed index (.ofCode (y / 2))
  let stackPair := Pair.indexed index (.stackOfCode (y / 2))
  if op = 0x00 then .ok (pure .nop)
  else if op = 0x08 then .ok (pure .exchangeAF)
  else if op = 0x10 then .ok (.pause 1 (.djnz <$> .displacement))
  else if op = 0x18 then .ok (.jumpRelative <$> .displacement)
  else if op ∈ [0x20, 0x28, 0x30, 0x38] then do
    let code ← sub y 4
    .ok (.jumpRelativeIf (.ofCode code) <$> .displacement)
  else if op ∈ [0x01, 0x11, 0x21, 0x31] then .ok (.loadPair pair <$> .word)
  else if op ∈ [0x09, 0x19, 0x29, 0x39] then .ok (pure (.addPair base pair))
  else if op ∈ [0x02, 0x12] then .ok (pure (.storeAIndirect (if op = 0x02 then .bc else .de)))
  else if op ∈ [0x0A, 0x1A] then .ok (pure (.loadAIndirect (if op = 0x0A then .bc else .de)))
  else if op = 0x22 then .ok ((.storePairDirect · base) <$> .word)
  else if op = 0x2A then .ok (.loadPairDirect base <$> .word)
  else if op = 0x32 then .ok (.storeADirect <$> .word)
  else if op = 0x3A then .ok (.loadADirect <$> .word)
  else if op ∈ [0x03, 0x13, 0x23, 0x33, 0x0B, 0x1B, 0x2B, 0x3B] then
    .ok (pure (if y % 2 = 0 then .incrementPair pair else .decrementPair pair))
  else if op ∈ [0x04, 0x0C, 0x14, 0x1C, 0x24, 0x2C, 0x34, 0x3C, 0x05, 0x0D, 0x15, 0x1D, 0x25, 0x2D,
      0x35, 0x3D] then
    match Reg8.ofCode? y with
    | some r =>
        let r := r.indexed index
        .ok (pure (if z = 4 then .increment r else .decrement r))
    | none => .ok ((if z = 4 then .incrementAt else .decrementAt) <$> pointer index)
  else if op ∈ [0x06, 0x0E, 0x16, 0x1E, 0x26, 0x2E, 0x36, 0x3E] then
    match Reg8.ofCode? y with
    | some r => .ok (.loadImmediate (r.indexed index) <$> .byte)
    | none => .ok do
        let target ← pointer index
        return .storeImmediate target (← .byte)
  else if op ∈ [0x07, 0x0F, 0x17, 0x1F] then .ok (pure (.rotateA (.ofCode y)))
  else if op = 0x27 then .ok (pure .daa)
  else if op = 0x2F then .ok (pure .cpl)
  else if op = 0x37 then .ok (pure .scf)
  else if op = 0x3F then .ok (pure .ccf)
  else if op = 0x76 then .ok (pure .halt)
  else if 0x40 ≤ op ∧ op ≤ 0x7F then
    match Reg8.ofCode? y, Reg8.ofCode? z with
    | some target, some source => .ok (pure (.load (target.indexed index) (source.indexed index)))
    | some target, none => .ok (.loadFrom target <$> pointer index)
    | none, some source => .ok ((.storeTo · source) <$> pointer index)
    | none, none => .error .unreachable
  else if 0x80 ≤ op ∧ op ≤ 0xBF then
    match Reg8.ofCode? z with
    | some r => .ok (pure (.accumulate (.ofCode y) (.register (r.indexed index))))
    | none => .ok ((fun p => .accumulate (.ofCode y) (.memory p)) <$> pointer index)
  else if op ∈ [0xC0, 0xC8, 0xD0, 0xD8, 0xE0, 0xE8, 0xF0, 0xF8] then .ok (pure (.retIf (.ofCode y)))
  else if op ∈ [0xC1, 0xD1, 0xE1, 0xF1] then .ok (pure (.pop stackPair))
  else if op = 0xC9 then .ok (pure .ret)
  else if op = 0xD9 then .ok (pure .exchangeAll)
  else if op = 0xE9 then .ok (pure (.jumpPair base))
  else if op = 0xF9 then .ok (pure (.loadSP base))
  else if op ∈ [0xC2, 0xCA, 0xD2, 0xDA, 0xE2, 0xEA, 0xF2, 0xFA] then .ok (.jumpIf (.ofCode y) <$> .word)
  else if op = 0xC3 then .ok (.jump <$> .word)
  else if op = 0xD3 then .ok (.outputA <$> .byte)
  else if op = 0xDB then .ok (.inputA <$> .byte)
  else if op = 0xE3 then .ok (pure (.exchangeTop base))
  else if op = 0xEB then .ok (pure .exchangeDEHL)
  else if op = 0xF3 then .ok (pure .di)
  else if op = 0xFB then .ok (pure .ei)
  else if op ∈ [0xC4, 0xCC, 0xD4, 0xDC, 0xE4, 0xEC, 0xF4, 0xFC] then .ok (.callIf (.ofCode y) <$> .word)
  else if op ∈ [0xC5, 0xD5, 0xE5, 0xF5] then .ok (pure (.push stackPair))
  else if op = 0xCD then .ok (.call <$> .word)
  else if op ∈ [0xC6, 0xCE, 0xD6, 0xDE, 0xE6, 0xEE, 0xF6, 0xFE] then
    .ok ((fun n => .accumulate (.ofCode y) (.immediate n)) <$> .byte)
  else if op ∈ [0xC7, 0xCF, 0xD7, 0xDF, 0xE7, 0xEF, 0xF7, 0xFF] then
    .ok (pure (.rst (op &&& 0x38)))
  else .error .unreachable

/-- The bytes that are no opcodes of the main table. -/
def prefixes : List UInt8 := [0xCB, 0xDD, 0xED, 0xFD]

/-- On an opcode the table that tells opcodes apart is the table that goes by their fields. -/
theorem main_eq (index : Option Index) (op : UInt8) (h : op ∉ prefixes) :
    main index op = .ok (Opcode.main index op) := by
  have hall : ∀ n < 256, UInt8.ofNat n ∉ prefixes →
      main index (.ofNat n) = .ok (Opcode.main index (.ofNat n)) := by
    intro n hn hprefix
    -- one side goes by values and the other by fields, so only the bytes themselves settle it
    interval_cases n <;> first
      | rfl
      | exact absurd (by decide) hprefix
  have hop := hall op.toNat op.toNat_lt
  rw [UInt8.ofNat_toNat] at hop
  exact hop h

example : main none 0xCB = .error .unreachable := rfl

end Guard

/-! ### Instructions -/

/-- The number of the bit that an operation puts or takes away. -/
def BitOp.number? : BitOp → Option Nat
  | shift _ => none
  | reset n | set n => some n

/-- The number of the bit that an instruction works on. -/
def Instruction.bitNumber? : Instruction → Option Nat
  | modify op _ | modifyAt op _ _ => op.number?
  | test n _ | testAt n _ => some n
  | _ => none

namespace Opcode

/-- The opcodes of the main table work on no bits. -/
theorem main_bitNumber (index : Option Index) (op : UInt8) :
    (main index op).All fun i => i.bitNumber? = none := by
  unfold main
  split
  · unfold firstQuarter
    split <;> (try split) <;> simp [Instruction.bitNumber?]
  · unfold secondQuarter
    split <;> simp [Instruction.bitNumber?]
  · unfold thirdQuarter
    split <;> simp [Instruction.bitNumber?]
  · unfold fourthQuarter
    split <;> (try split) <;> (try split) <;> simp [Instruction.bitNumber?]

theorem extended_bitNumber : extended.All fun i => i.bitNumber? = none := by
  intro op
  dsimp only
  split
  · unfold extendedQuarter
    dsimp only
    split <;> (try split) <;> simp [Instruction.bitNumber?]
  · split <;> rfl

theorem number_of_bitOp? {op : UInt8} {b : BitOp} (h : bitOp? op = some b) : ∀ n ∈ b.number?, n < 8 := by
  have hy := y_lt op
  unfold bitOp? at h
  split at h <;> cases h <;> simp [BitOp.number?, hy]

theorem bit_bitNumber (op : UInt8) : ∀ n ∈ (bit op).bitNumber?, n < 8 := by
  unfold bit
  split
  · rename_i b r hb hr
    exact number_of_bitOp? hb
  · rename_i b hb hr
    exact number_of_bitOp? hb
  · simp [Instruction.bitNumber?, y_lt]
  · simp [Instruction.bitNumber?, y_lt]

theorem indexedBit_bitNumber (base : Index) (d : Int8) (op : UInt8) :
    ∀ n ∈ (indexedBit base d op).bitNumber?, n < 8 := by
  unfold indexedBit
  split
  · rename_i b hb
    exact number_of_bitOp? hb
  · simp [Instruction.bitNumber?, y_lt]

/-- A bit that an instruction works on is one of the eight bits of a byte. -/
theorem unprefixed_bitNumber (index : Option Index) (op : UInt8) :
    (unprefixed index op).All fun i => ∀ n ∈ i.bitNumber?, n < 8 := by
  have hnone : ∀ i : Instruction, i.bitNumber? = none → ∀ n ∈ i.bitNumber?, n < 8 :=
    fun i hi n hn => absurd (hi ▸ hn) (by simp)
  unfold unprefixed
  by_cases hCB : op = 0xCB
  · rw [if_pos hCB]
    cases index with
    | none => exact bit_bitNumber
    | some base => exact fun d => indexedBit_bitNumber base d.toInt8
  · rw [if_neg hCB]
    split
    · exact extended_bitNumber.mono hnone
    · exact (main_bitNumber index op).mono hnone

theorem instruction_bitNumber (bound : Nat) (index : Option Index) :
    (instruction bound index).All fun o => ∀ i ∈ o, ∀ n ∈ i.bitNumber?, n < 8 := by
  induction bound generalizing index with
  | zero => simp [instruction, Encoding.All]
  | succ bound ih =>
      intro op
      dsimp only
      split
      · exact ih _
      · rw [← bind_pure_comp, Encoding.all_bind]
        refine (unprefixed_bitNumber index op).mono fun i hi => ?_
        simpa using hi

end Opcode

namespace Guard

/-- A whole instruction with all its prefixes, of which there may be fewer than `bound`. -/
def instruction : (bound : Nat) → Option Index → Encoding (Except Fault (Option Instruction))
  | 0, _ => .done (.ok none)
  | bound + 1, index => .opcode fun op =>
      if op = 0xDD then instruction bound (some .ix)
      else if op = 0xFD then instruction bound (some .iy)
      else if op = 0xCB then
        match index with
        | none => (.ok ∘ some) <$> Opcode.bits
        | some base => (.ok ∘ some) <$> Opcode.indexedBits base
      else if op = 0xED then (.ok ∘ some) <$> Opcode.extended
      else
        match main index op with
        | .ok e => (.ok ∘ some) <$> e
        | .error fault => pure (.error fault)

/-- When the main table is asked, the prefixes have been read. -/
theorem instruction_eq (bound : Nat) (index : Option Index) :
    instruction bound index = .ok <$> Opcode.instruction bound index := by
  induction bound generalizing index with
  | zero => rfl
  | succ bound ih =>
      show _ = Encoding.opcode fun op => Except.ok <$> _
      unfold instruction
      congr
      funext op
      by_cases hix : op = 0xDD
      · subst hix
        exact ih (some .ix)
      by_cases hiy : op = 0xFD
      · subst hiy
        exact ih (some .iy)
      have hbegins : Index.ofByte? op = none := by simp [Index.ofByte?, hix, hiy]
      simp only [hix, hiy, if_false, hbegins, Opcode.unprefixed, Functor.map_map]
      by_cases hCB : op = 0xCB
      · simp only [hCB, if_true]
        cases index <;> rfl
      by_cases hED : op = 0xED
      · simp only [hED, if_true]
        rfl
      have hmain : main index op = .ok (Opcode.main index op) :=
        main_eq index op (by simp [prefixes, hix, hiy, hCB, hED])
      simp only [hCB, hED, if_false, hmain]
      rfl

/-- Executes an instruction; the bit that it works on is found by shifting. -/
def execute (cpu : Cpu) (i : Instruction) : ExceptT Fault Script Cpu :=
  match i.bitNumber? with
  | some n => if n < 8 then ExceptT.lift (cpu.execute i) else throw .shift
  | none => ExceptT.lift (cpu.execute i)

/-- Reads something that may be a fault. -/
def reading {α : Type} (e : Encoding (Except Fault α)) (r : Registers) : ExceptT Fault Script (α × Registers) :=
  ExceptT.mk ((fun (a, r) => a.map (·, r)) <$> e.script r)

/-- Reads and executes an instruction. -/
def runInstruction (bound : Nat) (cpu : Cpu) : ExceptT Fault Script (Option Outcome) := do
  let (instruction, regs) ← reading (instruction bound none) cpu.regs
  match instruction with
  | none => return none
  | some i => return some ⟨← execute { cpu.beginEvent with regs } i, Cpu.remarks regs.pc i⟩

/-- The event that is due.  Nothing in accepting an interrupt or in idling is partial. -/
def event (bound : Nat) (cpu : Cpu) : ExceptT Fault Script (Option Outcome) :=
  match cpu.due with
  | .instruction => runInstruction bound { cpu with shadow := false }
  | .nmi | .interrupt _ | .halted => ExceptT.lift (cpu.event bound)

theorem execute_eq (cpu : Cpu) (i : Instruction) (h : ∀ n ∈ i.bitNumber?, n < 8) :
    execute cpu i = ExceptT.lift (cpu.execute i) := by
  unfold execute
  split
  · rename_i n hn
    exact if_pos (h n hn)
  · rfl

theorem reading_eq {α : Type} (e : Encoding α) (r : Registers) :
    reading (.ok <$> e) r = ExceptT.lift (e.script r) := by
  unfold reading ExceptT.lift
  rw [Encoding.script_map, Functor.map_map]
  rfl

/-- What comes after a script need be free of faults for the results that the script can have. -/
theorem lift_bind {α γ : Type} {s : Script α} {P : α → Prop} (hs : s.Ensures fun _ => P)
    {f : α → ExceptT Fault Script γ} {g : α → Script γ} (hfg : ∀ a, P a → f a = ExceptT.lift (g a)) :
    ExceptT.lift s >>= f = ExceptT.lift (s >>= g) := by
  induction s with
  | done a => exact hfg a hs
  | cycle c next ih =>
      show Script.cycle c _ = Script.cycle c _
      congr
      funext data
      exact ih data (hs data)

theorem runInstruction_eq (bound : Nat) (cpu : Cpu) :
    runInstruction bound cpu = ExceptT.lift (cpu.runInstruction bound) := by
  unfold runInstruction
  rw [instruction_eq, reading_eq]
  refine lift_bind ((Opcode.instruction_bitNumber bound none).ensures cpu.regs) ?_
  rintro ⟨_ | i, regs⟩ hi
  · rfl
  · simp only
    rw [execute_eq _ _ (hi i rfl)]
    let after := ({ cpu.beginEvent with regs } : Cpu).execute i
    let told (cpu : Cpu) : Script (Option Outcome) := pure (some ⟨cpu, Cpu.remarks regs.pc i⟩)
    exact (monadLift_bind (n := ExceptT Fault Script) after told).symm

/-- **An event does not fault.** -/
theorem event_eq (bound : Nat) (cpu : Cpu) : event bound cpu = ExceptT.lift (cpu.event bound) := by
  unfold event
  split
  · rename_i hdue
    rw [runInstruction_eq]
    simp only [Cpu.event, hdue]
  · rfl
  · rfl
  · rfl

end Guard

end Z80
