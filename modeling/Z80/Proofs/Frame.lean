/-
What an instruction leaves alone.

Most instructions change little.  `Part` lists the parts of a processor that only a few of them
may change, and `Part.ChangedBy` says which ones: the alternate registers are changed by the
exchanges, an index register behind its own prefix, the stack pointer by the instructions of the
stack and those that name it, and the flags by what computes flags.  All else stays, whatever the
bus brings, and no instruction writes more than two bytes to memory.

Behind this is a case analysis over the instruction set, made once for each kind of part: an
instruction changes the registers that it names (`execute_keeps`, `execute_flags`), and to the
rest of the register file it does what `Instruction.background` says.  Which registers it can have
named is a matter of the opcode tables.
-/
import Z80.Proofs.Naming
import Z80.Proofs.Tallying
import Z80.Proofs.Timing

namespace Z80

/-! ### Flags, index registers and the stack pointer -/

namespace Instruction

/-- Does an instruction use the stack, or put HL into the stack pointer? -/
def usesStack (cpu : Cpu) : Instruction → Bool
  | loadSP _ | push _ | pop _ | call _ | ret | rst _ | retn | reti => true
  | callIf condition _ | retIf condition => condition.holds cpu.flags
  | _ => false

/-- Does an instruction leave the flags as they are? -/
def keepsFlags : Instruction → Bool
  | nop | reserved _ | halt | di | ei | im _ => true
  | load .. | loadImmediate .. | loadFrom .. | storeTo .. | storeImmediate .. => true
  | loadAIndirect _ | storeAIndirect _ | loadADirect _ | storeADirect _ | loadIA | loadRA => true
  | loadPair .. | loadPairDirect .. | storePairDirect .. | loadSP _ => true
  | push _ | exchangeAll | exchangeDEHL | exchangeTop _ | incrementPair _ | decrementPair _ => true
  | pop target => target != .af
  | modify (.reset _) _ | modify (.set _) _ | modifyAt (.reset _) .. | modifyAt (.set _) .. => true
  | jump _ | jumpIf .. | jumpPair _ | jumpRelative _ | jumpRelativeIf .. | djnz _ => true
  | call _ | callIf .. | ret | retIf _ | retn | reti | rst _ => true
  | inputA _ | outputA _ | outputC _ => true
  | _ => false

end Instruction

namespace Cpu

section Updates

variable (cpu : Cpu)

theorem get16_set8_of_ne {r : Reg8} {p : Pair} (h : r.whole ≠ p) (v : UInt8) :
    (cpu.set8 r v).get16 p = cpu.get16 p := by
  cases r <;> cases p <;> first
    | exact absurd rfl h
    | rfl

theorem get16_set16_of_ne {q p : Pair} (h : q ≠ p) (w : UInt16) :
    (cpu.set16 q w).get16 p = cpu.get16 p := by
  cases q <;> cases p <;> first
    | exact absurd rfl h
    | rfl

theorem get16_setSP_of_ne {p : Pair} (h : p ≠ .sp) (w : UInt16) :
    (cpu.setSP w).get16 p = cpu.get16 p := by
  cases p <;> first
    | exact absurd rfl h
    | rfl

@[simp] theorem get16_goto (w : UInt16) (p : Pair) : (cpu.goto w).get16 p = cpu.get16 p := by
  cases p <;> rfl

@[simp] theorem get16_storedA (w : UInt16) (p : Pair) : (cpu.storedA w).get16 p = cpu.get16 p := by
  cases p <;> rfl

@[simp] theorem f_set8 (r : Reg8) (v : UInt8) :
    (cpu.set8 r v).regs.main.f = cpu.regs.main.f := by
  cases r <;> rfl

theorem f_set16_of_ne {q : Pair} (h : q ≠ .af) (w : UInt16) :
    (cpu.set16 q w).regs.main.f = cpu.regs.main.f := by
  cases q <;> first
    | exact absurd rfl h
    | rfl

@[simp] theorem f_setSP (w : UInt16) : (cpu.setSP w).regs.main.f = cpu.regs.main.f := rfl

@[simp] theorem f_setPC (w : UInt16) : (cpu.setPC w).regs.main.f = cpu.regs.main.f := rfl

@[simp] theorem f_setWZ (w : UInt16) : (cpu.setWZ w).regs.main.f = cpu.regs.main.f := rfl

@[simp] theorem f_goto (w : UInt16) : (cpu.goto w).regs.main.f = cpu.regs.main.f := rfl

@[simp] theorem f_storedA (w : UInt16) : (cpu.storedA w).regs.main.f = cpu.regs.main.f := rfl

end Updates

/-- The flags stay, unless the instruction computes flags or names AF as its target. -/
theorem execute_flags (cpu : Cpu) (i : Instruction) (hkeeps : i.keepsFlags = true)
    (htarget : i.target16? ≠ some .af) :
    (cpu.execute i).Ensures fun _ c => c.regs.main.f = cpu.regs.main.f := by
  have hne : ∀ {p : Pair}, i.target16? = some p → p ≠ .af := by
    rintro p hp rfl
    exact htarget hp
  cases i
  case loadFrom target p => cases p <;> simp [execute]
  case storeTo p source => cases p <;> simp [execute]
  case storeImmediate p n => cases p <;> simp [execute]
  case loadPair | loadPairDirect | pop | exchangeTop | incrementPair | decrementPair =>
    simp [execute, f_set16_of_ne _ (hne rfl)]
  case modify op target =>
    cases op with
    | shift s => exact absurd hkeeps Bool.false_ne_true
    | reset n | set n => simp [execute, BitOp.apply, setFlags?]
  case modifyAt op p copy =>
    cases op with
    | shift s => exact absurd hkeeps Bool.false_ne_true
    | reset n | set n => cases p <;> cases copy <;> simp [execute, BitOp.apply, setFlags?]
  case jumpIf condition target =>
    simp only [execute, Script.ensures_pure]
    split <;> simp
  case callIf condition target =>
    simp only [execute]
    split <;> simp
  all_goals first
    | exact absurd hkeeps Bool.false_ne_true
    | simp [execute]
  all_goals rfl

/-- An index register and SP stay, unless the instruction names them or uses the stack. -/
theorem execute_keeps (cpu : Cpu) (i : Instruction) {p : Pair} (hp : p = .ix ∨ p = .iy ∨ p = .sp)
    (hregister : ∀ r, i.target8? = some r → r.whole ≠ p) (hpair : i.target16? ≠ some p)
    (hstack : p = .sp → i.usesStack cpu = false) :
    (cpu.execute i).Ensures fun _ c => c.get16 p = cpu.get16 p := by
  have hregister' : ∀ {r}, i.target8? = some r → ∀ (c : Cpu) (v : UInt8),
      (c.set8 r v).get16 p = c.get16 p :=
    fun hr c => c.get16_set8_of_ne (hregister _ hr)
  have hpair' : ∀ {q}, i.target16? = some q → ∀ (c : Cpu) (w : UInt16),
      (c.set16 q w).get16 p = c.get16 p :=
    fun hq c => c.get16_set16_of_ne fun h => hpair (h ▸ hq)
  -- what instructions write without naming it is none of the three
  obtain ⟨hAF, hA, hB, hBC, hDE, hHL⟩ : p ≠ .af ∧
      (∀ (c : Cpu) v, (c.set8 .a v).get16 p = c.get16 p) ∧
      (∀ (c : Cpu) v, (c.set8 .b v).get16 p = c.get16 p) ∧
      (∀ (c : Cpu) w, (c.set16 .bc w).get16 p = c.get16 p) ∧
      (∀ (c : Cpu) w, (c.set16 .de w).get16 p = c.get16 p) ∧
      (∀ (c : Cpu) w, (c.set16 .hl w).get16 p = c.get16 p) := by
    rcases hp with rfl | rfl | rfl <;> exact ⟨Pair.noConfusion, fun _ _ => rfl, fun _ _ => rfl,
      fun _ _ => rfl, fun _ _ => rfl, fun _ _ => rfl⟩
  have hSP : i.usesStack cpu = true → ∀ (c : Cpu) (w : UInt16), (c.setSP w).get16 p = c.get16 p :=
    fun huses c => c.get16_setSP_of_ne fun h => by simp [hstack h] at huses
  cases i
  case load | loadImmediate => simp [execute, hregister' rfl]
  case increment | decrement => simp [execute, hregister' rfl, hAF]
  case modify op target =>
    cases op <;> simp [execute, BitOp.apply, setFlags?, hregister' rfl, hAF]
  case loadFrom target source => cases source <;> simp [execute, hregister' rfl]
  case storeTo target source => cases target <;> simp [execute]
  case storeImmediate target n => cases target <;> simp [execute]
  case incrementAt target => cases target <;> simp [execute, hAF]
  case decrementAt target => cases target <;> simp [execute, hAF]
  case testAt n source => cases source <;> simp [execute, hAF]
  case loadPair | loadPairDirect | exchangeTop | incrementPair | decrementPair =>
    simp [execute, hpair' rfl]
  case addPair => simp [execute, hpair' rfl, hAF]
  case pop => simp [execute, hpair' rfl, hSP rfl]
  case push | call | ret | rst | loadSP => simp [execute, hSP rfl]
  case retn | reti =>
    simp only [execute, ensures_ret, get16_goto, hSP rfl]
    exact fun _ _ => by cases p <;> rfl
  case callIf condition target =>
    simp only [execute]
    split
    · rename_i hholds
      simp [hSP hholds]
    · simp
  case retIf condition =>
    simp only [execute, Script.ensures_bind, Script.ensures_internal, Script.ensures_ite]
    exact ⟨fun hholds => by simp [hSP hholds], fun _ => by simp⟩
  case modifyAt op target copy =>
    cases copy with
    | none => cases op <;> cases target <;> simp [execute, BitOp.apply, setFlags?, hAF]
    | some r =>
        cases op <;> cases target <;>
          simp [execute, BitOp.apply, setFlags?, hregister' rfl, hAF]
  case inputC target =>
    cases target with
    | none => simp [execute, hAF]
    | some r => simp [execute, hregister' rfl, hAF]
  case accumulate op operand =>
    cases operand with
    | register r => simp [execute, setResult, hA, hAF]
    | immediate n => simp [execute, setResult, hA, hAF]
    | memory p => cases p <;> simp [execute, setResult, hA, hAF]
  case jumpIf condition target =>
    simp only [execute, Script.ensures_pure]
    split <;> simp
  case block op d repeats =>
    cases op <;> simp [execute, blockLoad, blockCompare, blockInput, blockOutput, walk, countDown, hB,
      hBC, hDE, hHL, hAF]
  case exchangeAF | exchangeAll | exchangeDEHL =>
    rcases hp with rfl | rfl | rfl <;> rfl
  all_goals simp [execute, setResult, hA, hB, hHL, hAF]
  all_goals cases p <;> rfl

end Cpu

/-! ### The background -/

/-- What only a few instructions touch: the alternate set, I, and the state of the interrupts. -/
structure Background where
  alternate : RegisterSet
  i : UInt8
  iff1 : Bool
  iff2 : Bool
  im : UInt8
deriving DecidableEq, Repr

namespace Cpu

def background (cpu : Cpu) : Background :=
  ⟨cpu.regs.alternate, cpu.regs.i, cpu.regs.iff1, cpu.regs.iff2, cpu.regs.im⟩

section Updates

variable (cpu : Cpu)

@[simp] theorem background_set8 (r : Reg8) (v : UInt8) :
    (cpu.set8 r v).background = cpu.background := by
  cases r <;> rfl

@[simp] theorem background_set16 (p : Pair) (w : UInt16) :
    (cpu.set16 p w).background = cpu.background := by
  cases p <;> rfl

@[simp] theorem background_setSP (w : UInt16) : (cpu.setSP w).background = cpu.background := rfl

@[simp] theorem background_setPC (w : UInt16) : (cpu.setPC w).background = cpu.background := rfl

@[simp] theorem background_setWZ (w : UInt16) : (cpu.setWZ w).background = cpu.background := rfl

@[simp] theorem background_goto (w : UInt16) : (cpu.goto w).background = cpu.background := rfl

@[simp] theorem background_setFlags (f : Flags) : (cpu.setFlags f).background = cpu.background := rfl

@[simp] theorem background_setFlags? (f : Option Flags) :
    (cpu.setFlags? f).background = cpu.background := by
  cases f <;> rfl

@[simp] theorem background_setResult (r : Result) :
    (cpu.setResult r).background = cpu.background := by
  simp [setResult]

@[simp] theorem background_storedA (w : UInt16) : (cpu.storedA w).background = cpu.background := rfl

@[simp] theorem background_walk (p : Pair) (d : Direction) :
    (cpu.walk p d).background = cpu.background := by
  simp [walk]

@[simp] theorem background_countDown : cpu.countDown.background = cpu.background := by
  simp [countDown]

end Updates

end Cpu

/-- What an instruction makes of the background, which it finds in the processor. -/
def Instruction.background (cpu : Cpu) : Instruction → Background
  | exchangeAF =>
      { cpu.background with
        alternate := { cpu.regs.alternate with a := cpu.regs.main.a, f := cpu.regs.main.f } }
  | exchangeAll =>
      { cpu.background with
        alternate := { cpu.regs.main with a := cpu.regs.alternate.a, f := cpu.regs.alternate.f } }
  | loadIA => { cpu.background with i := cpu.a }
  | di => { cpu.background with iff1 := false, iff2 := false }
  | ei => { cpu.background with iff1 := true, iff2 := true }
  | retn | reti => { cpu.background with iff1 := cpu.regs.iff2 }
  | im mode => { cpu.background with im := mode }
  | _ => cpu.background

/-- An instruction does to the background what it must and nothing else. -/
theorem Cpu.execute_background (cpu : Cpu) (i : Instruction) :
    (cpu.execute i).Ensures fun _ c => c.background = i.background cpu := by
  cases i
  case accumulate op operand =>
    cases operand with
    | register r => simp [execute, Instruction.background]
    | immediate n => simp [execute, Instruction.background]
    | memory p => cases p <;> simp [execute, Instruction.background]
  case block op d repeats =>
    cases op <;>
      simp [execute, blockLoad, blockCompare, blockInput, blockOutput, Instruction.background]
  case loadFrom target p => cases p <;> simp [execute, Instruction.background]
  case storeTo p source => cases p <;> simp [execute, Instruction.background]
  case storeImmediate p n => cases p <;> simp [execute, Instruction.background]
  case incrementAt p => cases p <;> simp [execute, Instruction.background]
  case decrementAt p => cases p <;> simp [execute, Instruction.background]
  case testAt n p => cases p <;> simp [execute, Instruction.background]
  case modifyAt op p copy => cases p <;> cases copy <;> simp [execute, Instruction.background]
  case inputC target => cases target <;> simp [execute, Instruction.background]
  case jumpIf condition target =>
    simp only [execute, Instruction.background, Script.ensures_pure]
    split <;> simp
  case callIf condition target =>
    simp only [execute, Instruction.background]
    split <;> simp
  all_goals simp [execute, Instruction.background]
  all_goals rfl

/-! ### The parts of a processor -/

/-- A part of a processor that most instructions leave alone. -/
inductive Part where
  | flags
  | alternateAF | alternateBC | alternateDE | alternateHL
  | ix | iy | sp
  /-- The interrupt base I. -/
  | base
  /-- Bit 7 of the refresh register, which does not count. -/
  | marker
  | iff1 | iff2 | mode
  | halted
  /-- The interrupt line. -/
  | line
  | nmi
deriving DecidableEq, Repr

namespace Part

/-- What a part holds. -/
def Value : Part → Type
  | flags | base | mode => UInt8
  | alternateAF | alternateBC | alternateDE | alternateHL | ix | iy | sp => UInt16
  | marker | iff1 | iff2 | halted | nmi => Bool
  | line => Option UInt8

/-- What a part of a processor holds. -/
def read (cpu : Cpu) : (part : Part) → part.Value
  | flags => cpu.regs.main.f
  | alternateAF => cpu.regs.alternate.af
  | alternateBC => cpu.regs.alternate.bc
  | alternateDE => cpu.regs.alternate.de
  | alternateHL => cpu.regs.alternate.hl
  | ix => cpu.regs.ix
  | iy => cpu.regs.iy
  | sp => cpu.regs.sp
  | base => cpu.regs.i
  | marker => cpu.regs.r.toNat.testBit 7
  | iff1 => cpu.regs.iff1
  | iff2 => cpu.regs.iff2
  | mode => cpu.regs.im
  | halted => cpu.regs.halted
  | line => cpu.interrupt
  | nmi => cpu.nmi

/-- May an instruction that finds the processor like this, and `index` chosen, change a part? -/
def ChangedBy (cpu : Cpu) (index : Option Index) (i : Instruction) : Part → Prop
  | flags => i.keepsFlags = false
  | alternateAF => i = .exchangeAF
  | alternateBC | alternateDE | alternateHL => i = .exchangeAll
  | ix => index = some .ix
  | iy => index = some .iy
  | sp => i.namesSP = true ∨ i.usesStack cpu = true
  | base => i = .loadIA
  | marker => i = .loadRA
  | iff1 => i = .di ∨ i = .ei ∨ i = .retn ∨ i = .reti
  | iff2 => i = .di ∨ i = .ei
  | mode => ∃ n, i = .im n
  | halted => i = .halt
  | line | nmi => False

end Part

/-- Bit 7 of the refresh register is not counted. -/
theorem Registers.marker_refresh (r : Registers) (n : Nat) :
    (r.refresh n).r.toNat.testBit 7 = r.r.toNat.testBit 7 := by
  have hr := r.r.toNat_lt
  have hhigh : (r.refresh n).r.toNat / 2 ^ 7 = r.r.toNat / 2 ^ 7 := by
    simp only [refresh, UInt8.toNat_ofNat']
    omega
  rw [Nat.testBit_eq_decide_div_mod_eq, Nat.testBit_eq_decide_div_mod_eq, hhigh]

/-- Reading counts fetches, which bit 7 of the refresh register takes no part in. -/
theorem Encoding.script_marker {α : Type} (e : Encoding α) (r : Registers) :
    (e.script r).Ensures fun _ p => p.2.r.toNat.testBit 7 = r.r.toNat.testBit 7 := by
  induction e generalizing r with
  | done a => exact rfl
  | opcode next ih =>
      refine fun b => (ih b _).mono fun _ p hp => hp.trans ?_
      exact Registers.marker_refresh { r with pc := r.pc + 1 } 1
  | operand next ih => exact fun b => ih b _
  | pause n next ih => exact fun _ => ih r

namespace Cpu

variable (cpu : Cpu) {index : Option Index} {i : Instruction}

/-- An instruction leaves alone every part that it may not change. -/
theorem execute_frame (hformed : i.Formed index) {part : Part}
    (hkept : ¬ part.ChangedBy cpu index i) :
    (cpu.execute i).Ensures fun _ c => part.read c = part.read cpu := by
  have hindexed : ∀ base : Index, index ≠ some base →
      (cpu.execute i).Ensures fun _ c => c.get16 base.pair = cpu.get16 base.pair := by
    intro base hbase
    have hbehind : ¬ base.pair.Behind index := by
      cases base <;> exact hbase
    refine cpu.execute_keeps i (by cases base <;> simp [Index.pair]) ?_ ?_ ?_
    · intro r hr hwhole
      exact hbehind (hwhole ▸ hformed.register r hr)
    · exact fun htarget => hbehind (hformed.pair _ htarget)
    · cases base <;> simp [Index.pair]
  have hbackground : ∀ {γ : Type} (field : Background → γ),
      field (i.background cpu) = field cpu.background →
      (cpu.execute i).Ensures fun _ c => field c.background = field cpu.background :=
    fun field hfield => (cpu.execute_background i).mono fun _ c hc => hc ▸ hfield
  have hlatches : ∀ {γ : Type} (field : Latches → γ), field (i.latch cpu.latches) = field cpu.latches →
      (cpu.execute i).Ensures fun _ c => field c.latches = field cpu.latches :=
    fun field hfield => (cpu.execute_ensures i).mono fun _ c hc => hc.2 ▸ hfield
  cases part with
  | flags =>
      have hkeeps : i.keepsFlags = true := Bool.of_not_eq_false hkept
      refine cpu.execute_flags i hkeeps fun htarget => ?_
      rw [hformed.af htarget] at hkeeps
      exact absurd hkeeps Bool.false_ne_true
  | ix => exact hindexed .ix hkept
  | iy => exact hindexed .iy hkept
  | sp =>
      obtain ⟨hnames, hstack⟩ := not_or.mp hkept
      refine cpu.execute_keeps i (.inr (.inr rfl)) ?_ ?_ fun _ => eq_false_of_ne_true hstack
      · exact fun r _ => by cases r <;> exact Pair.noConfusion
      · exact fun htarget => hnames (hformed.sp htarget)
  | marker =>
      refine (cpu.execute_costs i).mono fun _ c hc => congrArg (fun r : UInt8 => r.toNat.testBit 7) ?_
      exact hc.refresh.trans (if_neg hkept)
  | alternateAF => exact hbackground (·.alternate.af) (by cases i <;> first | exact absurd rfl hkept | rfl)
  | alternateBC => exact hbackground (·.alternate.bc) (by cases i <;> first | exact absurd rfl hkept | rfl)
  | alternateDE => exact hbackground (·.alternate.de) (by cases i <;> first | exact absurd rfl hkept | rfl)
  | alternateHL => exact hbackground (·.alternate.hl) (by cases i <;> first | exact absurd rfl hkept | rfl)
  | base => exact hbackground (·.i) (by cases i <;> first | exact absurd rfl hkept | rfl)
  | iff1 => exact hbackground (·.iff1) (by cases i <;> first | rfl | simp [Part.ChangedBy] at hkept)
  | iff2 => exact hbackground (·.iff2) (by cases i <;> first | rfl | simp [Part.ChangedBy] at hkept)
  | mode => exact hbackground (·.im) (by cases i <;> first | rfl | exact absurd ⟨_, rfl⟩ hkept)
  | halted => exact hlatches (·.halted) (by cases i <;> first | exact absurd rfl hkept | rfl)
  | line => exact hlatches (·.interrupt) (i.latch_interrupt _)
  | nmi => exact hlatches (·.nmi) (i.latch_nmi _)

end Cpu

/-! ### An instruction that is due -/

/-- The index register that an opcode may name: ED takes no notice of the prefixes before it. -/
def Front.named {β : Type} (f : Front β) : Option Index := if f.op = 0xED then none else f.index

namespace Machine

variable {β : Type} [Bus β] {m after : Machine β}

/-- An instruction has been read and carried out, and what it may not change has stayed. -/
structure Framed (m : Machine β) (f : Front β) (i : Instruction) (after : Machine β) : Prop where
  /-- The instruction is the one that the last prefix and the opcode begin. -/
  read : (((Opcode.unprefixed f.index f.op).script f.regs).run f.outside).1.1 = i
  kept : ∀ part : Part, ¬ part.ChangedBy m.cpu f.named i → part.read after.cpu = part.read m.cpu
  exchangeAF : i = .exchangeAF →
    after.cpu.regs.main.af = m.cpu.regs.alternate.af ∧ after.cpu.regs.alternate.af = m.cpu.regs.main.af
  exchangeAll : i = .exchangeAll → ∀ pair ∈ [RegisterSet.bc, RegisterSet.de, RegisterSet.hl],
    pair after.cpu.regs.main = pair m.cpu.regs.alternate ∧
      pair after.cpu.regs.alternate = pair m.cpu.regs.main

/-- The bytes that an instruction which is due writes to memory are on the log, two at most. -/
theorem next_stores {m l : Machine (Logged β)} {bound : Nat} (hdue : m.cpu.due = .instruction)
    (h : m.next bound = some l) :
    ∃ asked, l.bus.log = m.bus.log ++ asked ∧ asked.countP (·.access.stores) ≤ 2 := by
  obtain ⟨i, regs, t, cpu, t', hread, hexec, rfl⟩ := next_of_instruction hdue h
  obtain ⟨asked, hlog, hnone⟩ :=
    ((Opcode.instruction bound none).script_stores m.cpu.regs).run_tally m.outside
  obtain ⟨asked', hlog', htwo⟩ := (Cpu.execute_stores _ i).run_tally t
  rw [hread] at hlog
  rw [hexec] at hlog'
  refine ⟨asked ++ asked', ?_, ?_⟩
  · show t'.bus.log = _
    rw [hlog', hlog, List.append_assoc]
    rfl
  · rw [List.countP_append]
    omega

/-- What an instruction has been read as, it has been carried out as. -/
theorem next_executed {bound : Nat} (hdue : m.cpu.due = .instruction) (h : m.next bound = some after) :
    ∃ f i, Fetches none m.cpu.regs m.outside f ∧ m.Framed f i after := by
  obtain ⟨i, regs, t, cpu, t', hread, hexec, rfl⟩ := next_of_instruction hdue h
  obtain ⟨f, hf⟩ := Fetches.exists_of_read (i := i) (by rw [hread])
  have hlarge : f.prefixes < max bound (f.prefixes + 1) := by omega
  have hfront := hf.run_instruction hlarge
  rw [Opcode.instruction_mono (Nat.le_max_left bound _) (i := i) (by rw [hread]), hread] at hfront
  have hi : (((Opcode.unprefixed f.index f.op).script f.regs).run f.outside).1.1 = i := by
    simpa using congrArg (·.1.1) hfront.symm
  have hformed : i.Formed f.named := by
    obtain ⟨-, hformed⟩ := ((Opcode.unprefixed_formed f.index f.op).ensures f.regs).run f.outside
    exact hi ▸ hformed
  -- reading has moved the program counter and counted in R, and no part is either
  obtain ⟨-, pc, count, hmoved⟩ := ((Opcode.instruction bound none).script_moved m.cpu.regs).run m.outside
  obtain ⟨-, hmarker⟩ := ((Opcode.instruction bound none).script_marker m.cpu.regs).run m.outside
  rw [hread] at hmoved hmarker
  obtain rfl : regs = { m.cpu.regs with pc := pc, r := count } := hmoved
  let started : Cpu := { ({ m.cpu with shadow := false } : Cpu).beginEvent with
    regs := { m.cpu.regs with pc := pc, r := count } }
  have hstarted : ∀ part : Part, part.read started = part.read m.cpu := by
    intro part
    cases part with
    | marker => exact hmarker
    | _ => rfl
  have hchanged : ∀ part : Part, part.ChangedBy started f.named i ↔ part.ChangedBy m.cpu f.named i := by
    intro part
    cases part <;> cases i <;> exact Iff.rfl
  refine ⟨f, i, hf, hi, fun part hkept => ?_, ?_, ?_⟩
  · obtain ⟨-, hframe⟩ := (started.execute_frame hformed (mt (hchanged part).mp hkept)).run t
    rw [hexec] at hframe
    exact hframe.trans (hstarted part)
  · rintro rfl
    obtain ⟨rfl, -⟩ := Prod.mk.inj hexec
    exact ⟨rfl, rfl⟩
  · rintro rfl
    obtain ⟨rfl, -⟩ := Prod.mk.inj hexec
    simp only [List.forall_mem_cons, List.not_mem_nil, false_imp_iff, implies_true, and_true]
    exact ⟨⟨rfl, rfl⟩, ⟨rfl, rfl⟩, rfl, rfl⟩

/--
**Instructions leave alone what they do not change.**  On any bus, an instruction that is due and is
carried out changes no part of the processor but those that it may change: the alternate registers
only by exchanging them with the main ones, I in LD I,A, bit 7 of R in LD R,A, the interrupt mode and
flip-flops in the instructions about them, the halt state in HALT, an index register behind its own
prefix, SP in what loads or counts it and in what uses the stack, and F where flags are computed.  It
writes at most two bytes to memory.
-/
theorem next_framed (hdue : m.cpu.due = .instruction) (h : Returns m.next after) :
    (∃ f i, Fetches none m.cpu.regs m.outside f ∧ m.Framed f i after) ∧
      ∃ l, Returns m.logged.next l ∧ l.unlogged = after ∧
        l.bus.log.countP (·.access.stores) ≤ 2 := by
  obtain ⟨bound, h⟩ := h
  refine ⟨next_executed hdue h, ?_⟩
  obtain ⟨l, hl, hafter⟩ := Option.map_eq_some_iff.mp ((next_unlogged bound m.logged).trans h)
  obtain ⟨asked, hlog, hcount⟩ := next_stores hdue hl
  refine ⟨l, ⟨bound, hl⟩, hafter, ?_⟩
  rw [hlog]
  exact hcount

/-- PUSH IX, which is PUSH HL behind DD, moves SP and is one of the instructions that may. -/
theorem next_framed_push :
    ∃ m after : Machine (Board Memory), m.bus = Board.blank.load 0 [0xDD, 0xE5] ∧
      m.cpu.due = .instruction ∧ Returns m.next after ∧ after.cpu.regs.sp = m.cpu.regs.sp - 2 ∧
      (∃ f i, Fetches none m.cpu.regs m.outside f ∧ m.Framed f i after) ∧
      ∃ l, Returns m.logged.next l ∧ l.unlogged = after ∧ l.bus.log.countP (·.access.stores) ≤ 2 :=
  ⟨powerOn .standard (Board.blank.load 0 [0xDD, 0xE5]), _, rfl, rfl, ⟨2, rfl⟩, rfl,
    next_framed rfl ⟨2, rfl⟩⟩

end Machine

end Z80
