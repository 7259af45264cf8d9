/-
What every instruction leaves alone.

Which event follows at a boundary is decided by four latches and an interrupt flip-flop.
The latches are the interrupt line, the waiting NMI, the shadow of EI and the halt state,
gathered here as `Cpu.latches`.  Of all instructions EI touches one of them and HALT
another, and that is `Instruction.latch`; requests from outside no instruction can see or
consume.  `execute_ensures` is the case analysis over the instruction set behind this, and
it also bounds the time that an instruction takes after its last code byte.

The first part gives the rules by which `Script.Ensures` passes through the parts that
instructions are made of, so that nothing below unfolds them.
-/
import Z80.Cpu.Execute
import Z80.Proofs.Script

namespace Z80

namespace Cpu

/-! ### Rules for the parts of instructions -/

@[simp] theorem ensures_locate_hl (cpu : Cpu) (pause : Nat) (P : Nat → UInt16 × Cpu → Prop) :
    (cpu.locate .hl pause).Ensures P ↔ P 0 (cpu.regs.main.hl, cpu) := Iff.rfl

@[simp] theorem ensures_locate_indexed (cpu : Cpu) (base : Index) (d : Int8) (pause : Nat)
    (P : Nat → UInt16 × Cpu → Prop) :
    (cpu.locate (.indexed base d) pause).Ensures P ↔
      P pause (Word.displace (cpu.get16 base.pair) d,
        cpu.setWZ (Word.displace (cpu.get16 base.pair) d)) := by
  simp [locate]

@[simp] theorem ensures_push (cpu : Cpu) (w : UInt16) (P : Nat → Cpu → Prop) :
    (cpu.push w).Ensures P ↔ P 6 (cpu.setSP (cpu.regs.sp - 2)) := by
  simp [push]

@[simp] theorem ensures_pop (cpu : Cpu) (P : Nat → UInt16 × Cpu → Prop) :
    cpu.pop.Ensures P ↔
      ∀ low high, P 6 (Word.ofBytes high low, cpu.setSP (cpu.regs.sp + 2)) := by
  simp [pop]

@[simp] theorem ensures_jumpRelative (cpu : Cpu) (d : Int8) (P : Nat → Cpu → Prop) :
    (cpu.jumpRelative d).Ensures P ↔ P 5 (cpu.goto (Word.displace cpu.regs.pc d)) := by
  simp [jumpRelative]

@[simp] theorem ensures_call (cpu : Cpu) (target : UInt16) (P : Nat → Cpu → Prop) :
    (cpu.call target).Ensures P ↔ P 7 ((cpu.setSP (cpu.regs.sp - 2)).goto target) := by
  simp [call]

@[simp] theorem ensures_ret (cpu : Cpu) (P : Nat → Cpu → Prop) :
    cpu.ret.Ensures P ↔
      ∀ low high, P 6 ((cpu.setSP (cpu.regs.sp + 2)).goto (Word.ofBytes high low)) := by
  simp [ret]

@[simp] theorem ensures_repeatBlock (cpu : Cpu) (P : Nat → Cpu → Prop) :
    cpu.repeatBlock.Ensures P ↔ P 5 (cpu.setPC (cpu.regs.pc - 2)) := by
  simp [repeatBlock]

end Cpu

/-! ### The latches -/

/-- What decides which event is due, beside the interrupt flip-flop. -/
structure Latches where
  interrupt : Option UInt8
  nmi : Bool
  shadow : Bool
  halted : Bool
deriving DecidableEq, Repr

/-- What an instruction does to the latches. -/
def Instruction.latch : Instruction → Latches → Latches
  | .ei, l => { l with shadow := true }
  | .halt, l => { l with halted := true }
  | _, l => l

namespace Instruction

@[simp] theorem latch_interrupt (i : Instruction) (l : Latches) :
    (i.latch l).interrupt = l.interrupt := by
  cases i <;> rfl

@[simp] theorem latch_nmi (i : Instruction) (l : Latches) : (i.latch l).nmi = l.nmi := by
  cases i <;> rfl

/-- EI is the only instruction that casts a shadow. -/
@[simp] theorem latch_shadow (i : Instruction) (l : Latches) :
    (i.latch l).shadow = true ↔ i = .ei ∨ l.shadow = true := by
  cases i <;> simp [latch]

end Instruction

namespace Cpu

def latches (cpu : Cpu) : Latches := ⟨cpu.interrupt, cpu.nmi, cpu.shadow, cpu.regs.halted⟩

section Updates

variable (cpu : Cpu)

@[simp] theorem latches_set8 (r : Reg8) (v : UInt8) : (cpu.set8 r v).latches = cpu.latches := by
  cases r <;> rfl

@[simp] theorem latches_set16 (p : Pair) (w : UInt16) : (cpu.set16 p w).latches = cpu.latches := by
  cases p <;> rfl

@[simp] theorem latches_setSP (w : UInt16) : (cpu.setSP w).latches = cpu.latches := rfl

@[simp] theorem latches_setPC (w : UInt16) : (cpu.setPC w).latches = cpu.latches := rfl

@[simp] theorem latches_setWZ (w : UInt16) : (cpu.setWZ w).latches = cpu.latches := rfl

@[simp] theorem latches_goto (w : UInt16) : (cpu.goto w).latches = cpu.latches := rfl

@[simp] theorem latches_setFlags (f : Flags) : (cpu.setFlags f).latches = cpu.latches := rfl

@[simp] theorem latches_setFlags? (f : Option Flags) : (cpu.setFlags? f).latches = cpu.latches := by
  cases f <;> rfl

@[simp] theorem latches_setResult (r : Result) : (cpu.setResult r).latches = cpu.latches := by
  simp [setResult]

@[simp] theorem latches_storedA (w : UInt16) : (cpu.storedA w).latches = cpu.latches := rfl

@[simp] theorem latches_enableInterrupts (on : Bool) :
    (cpu.enableInterrupts on).latches = cpu.latches := rfl

@[simp] theorem latches_walk (p : Pair) (d : Direction) : (cpu.walk p d).latches = cpu.latches := by
  simp [walk]

@[simp] theorem latches_countDown : cpu.countDown.latches = cpu.latches := by
  simp [countDown]

end Updates

/-! ### The instruction set

A block instruction goes one round, and what it does besides is repeat itself, so the four
of them share their ending and are taken first.
-/

theorem blockLoad_ensures (cpu : Cpu) (d : Direction) (repeats : Bool) :
    (cpu.blockLoad d repeats).Ensures fun n c => n ≤ 15 ∧ c.latches = cpu.latches := by
  simp [blockLoad]

theorem blockCompare_ensures (cpu : Cpu) (d : Direction) (repeats : Bool) :
    (cpu.blockCompare d repeats).Ensures fun n c => n ≤ 15 ∧ c.latches = cpu.latches := by
  simp [blockCompare]

theorem blockInput_ensures (cpu : Cpu) (d : Direction) (repeats : Bool) :
    (cpu.blockInput d repeats).Ensures fun n c => n ≤ 15 ∧ c.latches = cpu.latches := by
  simp [blockInput]

theorem blockOutput_ensures (cpu : Cpu) (d : Direction) (repeats : Bool) :
    (cpu.blockOutput d repeats).Ensures fun n c => n ≤ 15 ∧ c.latches = cpu.latches := by
  simp [blockOutput]

/-- Every instruction takes at most 15 T-states after its code and changes the latches as it should. -/
theorem execute_ensures (cpu : Cpu) (i : Instruction) :
    (cpu.execute i).Ensures fun n c => n ≤ 15 ∧ c.latches = i.latch cpu.latches := by
  cases i
  case accumulate op operand =>
    cases operand with
    | register r => simp [execute, Instruction.latch]
    | immediate n => simp [execute, Instruction.latch]
    | memory p => cases p <;> simp [execute, Instruction.latch]
  case block op d repeats =>
    cases op with
    | load => exact cpu.blockLoad_ensures d repeats
    | compare => exact cpu.blockCompare_ensures d repeats
    | input => exact cpu.blockInput_ensures d repeats
    | output => exact cpu.blockOutput_ensures d repeats
  case loadFrom target p => cases p <;> simp [execute, Instruction.latch]
  case storeTo p source => cases p <;> simp [execute, Instruction.latch]
  case storeImmediate p n => cases p <;> simp [execute, Instruction.latch]
  case incrementAt p => cases p <;> simp [execute, Instruction.latch]
  case decrementAt p => cases p <;> simp [execute, Instruction.latch]
  case testAt n p => cases p <;> simp [execute, Instruction.latch]
  case modifyAt op p copy => cases p <;> cases copy <;> simp [execute, Instruction.latch]
  case inputC target => cases target <;> simp [execute, Instruction.latch]
  case jumpIf condition target =>
    simp only [execute, Instruction.latch, Script.ensures_pure]
    split <;> simp
  all_goals simp [execute, Instruction.latch]
  all_goals rfl

end Cpu

end Z80
