/-
Where the program counter goes.

While an instruction is executed the program counter stands behind it, and there it stays
unless the instruction says otherwise.  Jumps, calls and returns say so when they are not
conditional or when their condition holds, which is `Cpu.transfers`; most of them carry the
address they lead to in themselves, and that is `Instruction.target?`.  A block instruction
that has more to do goes back by its own two bytes (`Cpu.repeats`).

`execute_follows` is the case analysis over the instruction set.  Of what an instruction does
to other registers it needs nothing, so it rests on the fact that no update but a jump moves
the program counter.
-/
import Z80.Proofs.Execute

namespace Z80

namespace Cpu

/-! ### Updates and the program counter -/

section Updates

variable (cpu : Cpu)

@[simp] theorem pc_set8 (r : Reg8) (v : UInt8) : (cpu.set8 r v).regs.pc = cpu.regs.pc := by
  cases r <;> rfl

@[simp] theorem pc_set16 (p : Pair) (w : UInt16) : (cpu.set16 p w).regs.pc = cpu.regs.pc := by
  cases p <;> rfl

@[simp] theorem pc_setSP (w : UInt16) : (cpu.setSP w).regs.pc = cpu.regs.pc := rfl

@[simp] theorem pc_setPC (w : UInt16) : (cpu.setPC w).regs.pc = w := rfl

@[simp] theorem pc_setWZ (w : UInt16) : (cpu.setWZ w).regs.pc = cpu.regs.pc := rfl

@[simp] theorem pc_goto (w : UInt16) : (cpu.goto w).regs.pc = w := rfl

@[simp] theorem pc_setFlags (f : Flags) : (cpu.setFlags f).regs.pc = cpu.regs.pc := rfl

@[simp] theorem pc_setFlags? (f : Option Flags) : (cpu.setFlags? f).regs.pc = cpu.regs.pc := by
  cases f <;> rfl

@[simp] theorem pc_setResult (r : Result) : (cpu.setResult r).regs.pc = cpu.regs.pc := by
  simp [setResult]

@[simp] theorem pc_storedA (w : UInt16) : (cpu.storedA w).regs.pc = cpu.regs.pc := rfl

@[simp] theorem pc_enableInterrupts (on : Bool) : (cpu.enableInterrupts on).regs.pc = cpu.regs.pc := rfl

@[simp] theorem pc_walk (p : Pair) (d : Direction) : (cpu.walk p d).regs.pc = cpu.regs.pc := by
  simp [walk]

@[simp] theorem pc_countDown : cpu.countDown.regs.pc = cpu.regs.pc := by
  simp [countDown]

/-! Moving the program counter, or putting flags into F, is seen in no other register. -/

@[simp] theorem get8_setPC (w : UInt16) (r : Reg8) : (cpu.setPC w).get8 r = cpu.get8 r := by
  cases r <;> rfl

@[simp] theorem get8_setWZ (w : UInt16) (r : Reg8) : (cpu.setWZ w).get8 r = cpu.get8 r := by
  cases r <;> rfl

@[simp] theorem get8_setFlags (f : Flags) (r : Reg8) : (cpu.setFlags f).get8 r = cpu.get8 r := by
  cases r <;> rfl

@[simp] theorem get16_setPC (w : UInt16) (p : Pair) : (cpu.setPC w).get16 p = cpu.get16 p := by
  cases p <;> rfl

@[simp] theorem get16_setWZ (w : UInt16) (p : Pair) : (cpu.setWZ w).get16 p = cpu.get16 p := by
  cases p <;> rfl

@[simp] theorem get16_setFlags (f : Flags) (p : Pair) (h : p ≠ .af) :
    (cpu.setFlags f).get16 p = cpu.get16 p := by
  cases p <;> first | rfl | exact absurd rfl h

@[simp] theorem flags_setPC (w : UInt16) : (cpu.setPC w).flags = cpu.flags := rfl

@[simp] theorem flags_setWZ (w : UInt16) : (cpu.setWZ w).flags = cpu.flags := rfl

@[simp] theorem flags_setFlags (f : Flags) : (cpu.setFlags f).flags = f := Flags.ofByte_toByte f

@[simp] theorem a_setFlags (f : Flags) : (cpu.setFlags f).a = cpu.a := rfl

@[simp] theorem get8_set8_self (v : UInt8) (r : Reg8) : (cpu.set8 r v).get8 r = v := by
  cases r <;> simp [get8, set8, Registers.get8, Registers.set8]

end Updates

end Cpu

/-! ### Transfers of control -/

/-- The address that an instruction carries which may transfer control, if it stands before `next`. -/
def Instruction.target? (next : UInt16) : Instruction → Option UInt16
  | jump target | jumpIf _ target | call target | callIf _ target => some target
  | jumpRelative d | jumpRelativeIf _ d | djnz d => some (Word.displace next d)
  | rst vector => some vector.toUInt16
  | _ => none

/-- The condition on which a jump, a call or a return takes place. -/
@[simp] def Instruction.condition? : Instruction → Option Condition
  | jumpIf condition _ | jumpRelativeIf condition _ | callIf condition _ | retIf condition =>
      some condition
  | _ => none

/-- Is it a jump or a call without a condition? -/
@[simp] def Instruction.goes : Instruction → Bool
  | jump _ | jumpPair _ | jumpRelative _ | call _ | rst _ => true
  | _ => false

/-- Is it a return without a condition? -/
@[simp] def Instruction.returns : Instruction → Bool
  | ret | retn | reti => true
  | _ => false

namespace Cpu

/-- Will the instruction transfer control? -/
def transfers (cpu : Cpu) : Instruction → Bool
  | .djnz _ => cpu.get8 .b != 1
  | i =>
      match i.condition? with
      | some condition => condition.holds cpu.flags
      | none => i.goes || i.returns

/-- Has a repeating block instruction left more to do? -/
def repeats (after : Cpu) : Instruction → Bool
  | .block .load _ true => after.get16 .bc != 0
  | .block .compare _ true => after.get16 .bc != 0 && !after.flags.zero
  | .block .input _ true | .block .output _ true => after.get8 .b != 0
  | _ => false

/-- Where the program counter is after an instruction behind which it stood before. -/
structure Follows (cpu : Cpu) (i : Instruction) (after : Cpu) : Prop where
  /-- Without a transfer of control it stays. -/
  onward : cpu.transfers i = false → after.repeats i = false → after.regs.pc = cpu.regs.pc
  /-- A transfer goes to the address in the instruction. -/
  target : cpu.transfers i = true → ∀ target, i.target? cpu.regs.pc = some target →
    after.regs.pc = target
  /-- A repetition goes back by the two bytes of its code. -/
  again : after.repeats i = true → after.regs.pc = cpu.regs.pc - 2

theorem follows_iff (cpu : Cpu) (i : Instruction) (after : Cpu) :
    cpu.Follows i after ↔
      (cpu.transfers i = false → after.repeats i = false → after.regs.pc = cpu.regs.pc) ∧
        (cpu.transfers i = true → ∀ target, i.target? cpu.regs.pc = some target →
          after.regs.pc = target) ∧
        (after.repeats i = true → after.regs.pc = cpu.regs.pc - 2) :=
  ⟨fun h => ⟨h.onward, h.target, h.again⟩, fun h => ⟨h.1, h.2.1, h.2.2⟩⟩

/-- The zero flag of a search tells whether the byte was the one searched for. -/
theorem blockCompared_zero (f : Flags) (a value : UInt8) (more : Bool) :
    (Alu.blockCompared f a value more).zero = (a == value) := by
  show (a - value == 0) = (a == value)
  by_cases h : a = value
  · rw [h, UInt8.sub_self, beq_self_eq_true, beq_self_eq_true]
  · have hdiffer : a - value ≠ 0 := by grind
    rw [beq_eq_false_iff_ne.mpr hdiffer, beq_eq_false_iff_ne.mpr h]

theorem blockLoad_follows (cpu : Cpu) (d : Direction) (again : Bool) :
    (cpu.blockLoad d again).Ensures fun _ c => cpu.Follows (.block .load d again) c := by
  cases again with
  | false => simp [blockLoad, follows_iff, transfers, repeats]
  | true => simp +contextual [blockLoad, follows_iff, transfers, repeats]

theorem blockCompare_follows (cpu : Cpu) (d : Direction) (again : Bool) :
    (cpu.blockCompare d again).Ensures fun _ c => cpu.Follows (.block .compare d again) c := by
  cases again with
  | false => simp [blockCompare, follows_iff, transfers, repeats]
  | true => simp +contextual [blockCompare, follows_iff, transfers, repeats, blockCompared_zero]

theorem blockInput_follows (cpu : Cpu) (d : Direction) (again : Bool) :
    (cpu.blockInput d again).Ensures fun _ c => cpu.Follows (.block .input d again) c := by
  cases again with
  | false => simp [blockInput, follows_iff, transfers, repeats]
  | true => simp +contextual [blockInput, follows_iff, transfers, repeats]

theorem blockOutput_follows (cpu : Cpu) (d : Direction) (again : Bool) :
    (cpu.blockOutput d again).Ensures fun _ c => cpu.Follows (.block .output d again) c := by
  cases again with
  | false => simp [blockOutput, follows_iff, transfers, repeats]
  | true => simp +contextual [blockOutput, follows_iff, transfers, repeats]

/-- **Every instruction leaves the program counter where it has to be.** -/
theorem execute_follows (cpu : Cpu) (i : Instruction) :
    (cpu.execute i).Ensures fun _ c => cpu.Follows i c := by
  cases i
  case accumulate op operand =>
    cases operand with
    | register r => simp [execute, follows_iff, transfers, repeats]
    | immediate n => simp [execute, follows_iff, transfers, repeats]
    | memory p => cases p <;> simp [execute, follows_iff, transfers, repeats]
  case block op d again =>
    cases op with
    | load => exact cpu.blockLoad_follows d again
    | compare => exact cpu.blockCompare_follows d again
    | input => exact cpu.blockInput_follows d again
    | output => exact cpu.blockOutput_follows d again
  case loadFrom target p => cases p <;> simp [execute, follows_iff, transfers, repeats]
  case storeTo p source => cases p <;> simp [execute, follows_iff, transfers, repeats]
  case storeImmediate p n => cases p <;> simp [execute, follows_iff, transfers, repeats]
  case incrementAt p => cases p <;> simp [execute, follows_iff, transfers, repeats]
  case decrementAt p => cases p <;> simp [execute, follows_iff, transfers, repeats]
  case testAt n p => cases p <;> simp [execute, follows_iff, transfers, repeats]
  case modifyAt op p copy =>
    cases p <;> cases copy <;> simp [execute, follows_iff, transfers, repeats]
  case inputC target => cases target <;> simp [execute, follows_iff, transfers, repeats]
  -- whether a conditional transfer takes place is the same question on both sides
  case jumpIf condition target =>
    simp only [execute, Script.ensures_pure]
    split
    · rename_i hc
      rw [flags_setWZ] at hc
      simp [follows_iff, transfers, repeats, Instruction.target?, hc]
    · rename_i hc
      rw [flags_setWZ] at hc
      simp [follows_iff, transfers, repeats, hc]
  case jumpRelativeIf condition d =>
    cases hc : condition.holds cpu.flags <;>
      simp [execute, follows_iff, transfers, repeats, Instruction.target?, hc]
  case callIf condition target =>
    cases hc : condition.holds cpu.flags <;>
      simp [execute, follows_iff, transfers, repeats, Instruction.target?, hc]
  case retIf condition =>
    cases hc : condition.holds cpu.flags <;>
      simp [execute, follows_iff, transfers, repeats, Instruction.target?, hc]
  case djnz d =>
    have hcount : cpu.get8 .b - 1 = 0 ↔ cpu.get8 .b = 1 := by grind
    simp +contextual [execute, follows_iff, transfers, repeats, Instruction.target?, hcount]
  case exchangeAF => exact ⟨fun _ _ => rfl, by simp [transfers], by simp [repeats]⟩
  case exchangeAll => exact ⟨fun _ _ => rfl, by simp [transfers], by simp [repeats]⟩
  case exchangeDEHL => exact ⟨fun _ _ => rfl, by simp [transfers], by simp [repeats]⟩
  all_goals simp [execute, follows_iff, transfers, repeats, Instruction.target?]

end Cpu

end Z80
