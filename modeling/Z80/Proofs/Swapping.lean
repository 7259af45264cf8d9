/-
HL and an index register in each other's place.

A processor does not care which of its registers is called HL.  When the contents of HL and
of an index register are exchanged, and an instruction names the one where it named the
other, everything happens as before, with the same machine cycles on the bus, and in the end
the two are still exchanged (`execute_swap`).  This holds of every instruction that says by
name which registers it means.  The others, among them all that have (HL) as an operand, mean
HL without saying so, and are `Implicit`.

The names in the main table are chosen by the index register in force, so an opcode behind a
prefix is the same opcode with its names exchanged (`main_swapped`), unless it is one of those
with a memory operand, EX DE,HL or EXX.
-/
import Z80.Proofs.Reading
import Z80.Proofs.Flow

namespace Z80

/-! ### Names -/

/-- The name of a register once HL and an index register have exchanged theirs. -/
def Reg8.swapped : Index → Reg8 → Reg8
  | .ix, h => ixh
  | .ix, l => ixl
  | .ix, ixh => h
  | .ix, ixl => l
  | .iy, h => iyh
  | .iy, l => iyl
  | .iy, iyh => h
  | .iy, iyl => l
  | _, r => r

/-- The name of a pair once HL and an index register have exchanged theirs. -/
def Pair.swapped : Index → Pair → Pair
  | .ix, hl => ix
  | .ix, ix => hl
  | .iy, hl => iy
  | .iy, iy => hl
  | _, p => p

section Names

variable (base : Index)

@[simp] theorem Reg8.swapped_a : Reg8.a.swapped base = .a := by cases base <;> rfl

@[simp] theorem Reg8.swapped_b : Reg8.b.swapped base = .b := by cases base <;> rfl

@[simp] theorem Pair.swapped_bc : Pair.bc.swapped base = .bc := by cases base <;> rfl

@[simp] theorem Reg8.swapped_swapped (r : Reg8) : (r.swapped base).swapped base = r := by
  cases base <;> cases r <;> rfl

@[simp] theorem Pair.swapped_swapped (p : Pair) : (p.swapped base).swapped base = p := by
  cases base <;> cases p <;> rfl

end Names

/-! ### Contents -/

/-- The registers with HL and an index register exchanged. -/
def Registers.swap (base : Index) (r : Registers) : Registers :=
  (r.set16 .hl (r.get16 base.pair)).set16 base.pair (r.get16 .hl)

namespace Registers

variable (base : Index) (r : Registers)

@[simp] theorem get8_swap (x : Reg8) : (r.swap base).get8 x = r.get8 (x.swapped base) := by
  cases base <;> cases x <;>
    simp [swap, get8, get16, set16, Reg8.swapped, Index.pair, RegisterSet.hl, RegisterSet.setHL]

@[simp] theorem get16_swap (p : Pair) : (r.swap base).get16 p = r.get16 (p.swapped base) := by
  cases base <;> cases p <;>
    simp [swap, get16, set16, Pair.swapped, Index.pair, RegisterSet.hl, RegisterSet.setHL,
      RegisterSet.bc, RegisterSet.de, RegisterSet.af]

theorem swap_set8 (x : Reg8) (v : UInt8) :
    (r.set8 x v).swap base = (r.swap base).set8 (x.swapped base) v := by
  cases base <;> cases x <;>
    simp [swap, set8, get16, set16, Reg8.swapped, Index.pair, RegisterSet.hl, RegisterSet.setHL]

theorem swap_set16 (p : Pair) (w : UInt16) :
    (r.set16 p w).swap base = (r.swap base).set16 (p.swapped base) w := by
  cases base <;> cases p <;>
    simp [swap, get16, set16, Pair.swapped, Index.pair, RegisterSet.hl, RegisterSet.setHL,
      RegisterSet.setBC, RegisterSet.setDE, RegisterSet.setAF]

@[simp] theorem swap_swap : (r.swap base).swap base = r := by
  cases base <;>
    simp [swap, get16, set16, Index.pair, RegisterSet.hl, RegisterSet.setHL]

end Registers

namespace Cpu

/-- The processor with HL and an index register exchanged. -/
def swap (base : Index) (cpu : Cpu) : Cpu := { cpu with regs := cpu.regs.swap base }

section Updates

variable (base : Index) (cpu : Cpu)

@[simp] theorem swap_swap : (cpu.swap base).swap base = cpu := by
  unfold swap
  rw [Registers.swap_swap]

/-! What is looked up in the exchanged registers is found under the other name. -/

@[simp] theorem get8_swap (r : Reg8) : (cpu.swap base).get8 r = cpu.get8 (r.swapped base) :=
  cpu.regs.get8_swap base r

@[simp] theorem get16_swap (p : Pair) : (cpu.swap base).get16 p = cpu.get16 (p.swapped base) :=
  cpu.regs.get16_swap base p

@[simp] theorem a_swap : (cpu.swap base).a = cpu.a := by
  cases base <;> rfl

@[simp] theorem flags_swap : (cpu.swap base).flags = cpu.flags := by
  cases base <;> rfl

@[simp] theorem sp_swap : (cpu.swap base).regs.sp = cpu.regs.sp := by
  cases base <;> rfl

@[simp] theorem pc_swap : (cpu.swap base).regs.pc = cpu.regs.pc := by
  cases base <;> rfl

@[simp] theorem i_swap : (cpu.swap base).regs.i = cpu.regs.i := by
  cases base <;> rfl

@[simp] theorem r_swap : (cpu.swap base).regs.r = cpu.regs.r := by
  cases base <;> rfl

@[simp] theorem iff2_swap : (cpu.swap base).regs.iff2 = cpu.regs.iff2 := by
  cases base <;> rfl

@[simp] theorem carrySource_swap : (cpu.swap base).carrySource = cpu.carrySource := by
  cases base <;> rfl

/-! What is put there is put under the other name. -/

@[simp] theorem swap_set8 (r : Reg8) (v : UInt8) :
    (cpu.set8 r v).swap base = (cpu.swap base).set8 (r.swapped base) v := by
  simp only [swap, set8, Registers.swap_set8]

@[simp] theorem swap_set16 (p : Pair) (w : UInt16) :
    (cpu.set16 p w).swap base = (cpu.swap base).set16 (p.swapped base) w := by
  simp only [swap, set16, Registers.swap_set16]

@[simp] theorem swap_setSP (w : UInt16) : (cpu.setSP w).swap base = (cpu.swap base).setSP w := by
  cases base <;> rfl

@[simp] theorem swap_setPC (w : UInt16) : (cpu.setPC w).swap base = (cpu.swap base).setPC w := by
  cases base <;> rfl

@[simp] theorem swap_setWZ (w : UInt16) : (cpu.setWZ w).swap base = (cpu.swap base).setWZ w := by
  cases base <;> rfl

@[simp] theorem swap_setFlags (f : Flags) :
    (cpu.setFlags f).swap base = (cpu.swap base).setFlags f := by
  cases base <;> rfl

@[simp] theorem swap_setFlags? (f : Option Flags) :
    (cpu.setFlags? f).swap base = (cpu.swap base).setFlags? f := by
  cases f with
  | none => rfl
  | some f => exact cpu.swap_setFlags base f

@[simp] theorem swap_goto (w : UInt16) : (cpu.goto w).swap base = (cpu.swap base).goto w := by
  simp [goto]

@[simp] theorem swap_setResult (result : Result) :
    (cpu.setResult result).swap base = (cpu.swap base).setResult result := by
  simp [setResult]

@[simp] theorem swap_storedA (w : UInt16) : (cpu.storedA w).swap base = (cpu.swap base).storedA w := by
  simp [storedA]

@[simp] theorem swap_enableInterrupts (on : Bool) :
    (cpu.enableInterrupts on).swap base = (cpu.swap base).enableInterrupts on := by
  cases base <;> rfl

/-! The parts of instructions are the same scripts. -/

@[simp] theorem swap_push (w : UInt16) :
    swap base <$> cpu.push w = (cpu.swap base).push w := by
  simp [push]

@[simp] theorem pop_swap :
    (cpu.swap base).pop = (fun p => (p.1, p.2.swap base)) <$> cpu.pop := by
  simp [pop]

@[simp] theorem swap_jumpRelative (d : Int8) :
    swap base <$> cpu.jumpRelative d = (cpu.swap base).jumpRelative d := by
  simp [jumpRelative]

@[simp] theorem swap_call (target : UInt16) :
    swap base <$> cpu.call target = (cpu.swap base).call target := by
  simp [call, push]

@[simp] theorem swap_ret : swap base <$> cpu.ret = (cpu.swap base).ret := by
  simp [ret]

end Updates

end Cpu

/-! ### Instructions -/

namespace Instruction

/-- An instruction that means HL, or a memory operand, without naming a register. -/
def Implicit : Instruction → Prop
  | loadFrom _ _ | storeTo _ _ | storeImmediate _ _ | accumulate _ (.memory _) => True
  | incrementAt _ | decrementAt _ | modifyAt _ _ _ | testAt _ _ => True
  | exchangeAll | exchangeDEHL | adcPair _ | sbcPair _ | rrd | rld | block _ _ _ => True
  | _ => False

/-- The same instruction on registers that have exchanged their names. -/
def swapped (base : Index) : Instruction → Instruction
  | load target source => load (target.swapped base) (source.swapped base)
  | loadImmediate target n => loadImmediate (target.swapped base) n
  | loadAIndirect source => loadAIndirect (source.swapped base)
  | storeAIndirect target => storeAIndirect (target.swapped base)
  | loadPair target nn => loadPair (target.swapped base) nn
  | loadPairDirect target source => loadPairDirect (target.swapped base) source
  | storePairDirect target source => storePairDirect target (source.swapped base)
  | loadSP source => loadSP (source.swapped base)
  | push source => push (source.swapped base)
  | pop target => pop (target.swapped base)
  | exchangeTop target => exchangeTop (target.swapped base)
  | accumulate op (.register r) => accumulate op (.register (r.swapped base))
  | increment target => increment (target.swapped base)
  | decrement target => decrement (target.swapped base)
  | incrementPair target => incrementPair (target.swapped base)
  | decrementPair target => decrementPair (target.swapped base)
  | addPair target source => addPair (target.swapped base) (source.swapped base)
  | modify op target => modify op (target.swapped base)
  | test n source => test n (source.swapped base)
  | jumpPair target => jumpPair (target.swapped base)
  | inputC target => inputC (target.map (·.swapped base))
  | outputC source => outputC (source.map (·.swapped base))
  | i => i

end Instruction

/-- **Instructions do not care which register is called HL**, unless they mean it implicitly. -/
theorem Cpu.execute_swap (base : Index) (cpu : Cpu) {i : Instruction} (h : ¬ i.Implicit) :
    (cpu.swap base).execute i = swap base <$> cpu.execute (i.swapped base) := by
  cases i
  case accumulate op operand =>
    cases operand with
    | register r => simp [execute, Instruction.swapped]
    | immediate n => simp [execute, Instruction.swapped]
    | memory p => exact absurd trivial h
  case inputC target => cases target <;> simp [execute, Instruction.swapped]
  case outputC source => cases source <;> simp [execute, Instruction.swapped]
  -- updates that are written out, of registers that are neither HL nor an index register
  case halt => cases base <;> rfl
  case ei => cases base <;> rfl
  case im mode => cases base <;> rfl
  case loadIA => cases base <;> rfl
  case loadRA => cases base <;> rfl
  case exchangeAF => cases base <;> rfl
  case retn =>
    have hret := swap_ret base { cpu with regs := { cpu.regs with iff1 := cpu.regs.iff2 } }
    cases base <;> exact hret.symm
  case reti =>
    have hret := swap_ret base { cpu with regs := { cpu.regs with iff1 := cpu.regs.iff2 } }
    cases base <;> exact hret.symm
  -- flags are not exchanged, so a condition holds on both sides or on none
  case jumpIf condition target =>
    cases hc : condition.holds cpu.flags <;> simp [execute, Instruction.swapped, hc]
  case jumpRelativeIf condition d =>
    cases hc : condition.holds cpu.flags <;> simp [execute, Instruction.swapped, hc]
  case callIf condition target =>
    cases hc : condition.holds cpu.flags <;> simp [execute, Instruction.swapped, hc]
  case retIf condition =>
    cases hc : condition.holds cpu.flags <;> simp [execute, Instruction.swapped, hc]
  case djnz d =>
    cases hc : cpu.get8 .b - 1 != 0 <;> simp [execute, Instruction.swapped, hc]
  all_goals first
    | exact absurd trivial h
    | simp [execute, Instruction.swapped]

/-! ### Opcodes -/

namespace Encoding

variable {α γ : Type}

/-- Whatever the bytes are, what is read satisfies `P`. -/
def All (P : α → Prop) : Encoding α → Prop
  | done a => P a
  | opcode next => ∀ b, (next b).All P
  | operand next => ∀ b, (next b).All P
  | pause _ next => next.All P

@[simp] theorem all_pure (P : α → Prop) (a : α) : (pure a : Encoding α).All P ↔ P a := Iff.rfl

@[simp] theorem all_pause (P : α → Prop) (n : Nat) (e : Encoding α) :
    (pause n e).All P ↔ e.All P := Iff.rfl

@[simp] theorem map_pause (f : α → γ) (n : Nat) (e : Encoding α) :
    f <$> pause n e = pause n (f <$> e) := rfl

@[simp] theorem all_map (P : γ → Prop) (f : α → γ) (e : Encoding α) :
    (f <$> e).All P ↔ e.All fun a => P (f a) := by
  induction e with
  | done a => exact Iff.rfl
  | opcode next ih => exact forall_congr' ih
  | operand next ih => exact forall_congr' ih
  | pause n next ih => exact ih

@[simp] theorem all_true (e : Encoding α) : e.All fun _ => True := by
  induction e with
  | done a => trivial
  | opcode next ih => exact ih
  | operand next ih => exact ih
  | pause n next ih => exact ih

end Encoding

namespace Cpu

/-- The script of an opcode that has been fetched: the rest of it is read, and then it is executed. -/
def carryOut (cpu : Cpu) (e : Encoding Instruction) : Script Cpu := do
  let (i, regs) ← e.script cpu.regs
  ({ cpu with regs } : Cpu).execute i

/-- The processor behind a byte that it has fetched as an opcode. -/
def fetched (cpu : Cpu) : Cpu :=
  { cpu with regs := ({ cpu.regs with pc := cpu.regs.pc + 1 } : Registers).refresh 1 }

theorem carryOut_opcode (cpu : Cpu) (next : UInt8 → Encoding Instruction) :
    cpu.carryOut (.opcode next) =
      .cycle (.fetch cpu.regs.pc) fun b => cpu.fetched.carryOut (next b) := rfl

theorem carryOut_operand (cpu : Cpu) (next : UInt8 → Encoding Instruction) :
    cpu.carryOut (.operand next) =
      .cycle (.read cpu.regs.pc) fun b => (cpu.setPC (cpu.regs.pc + 1)).carryOut (next b) := rfl

@[simp] theorem swap_fetched (base : Index) (cpu : Cpu) :
    cpu.fetched.swap base = (cpu.swap base).fetched := by
  cases base <;> rfl

/-- What names its registers can be carried out under the other names. -/
theorem carryOut_swapped (base : Index) (cpu : Cpu) {e : Encoding Instruction}
    (h : e.All fun i => ¬ i.Implicit) :
    cpu.carryOut (Instruction.swapped base <$> e) = swap base <$> (cpu.swap base).carryOut e := by
  induction e generalizing cpu with
  | done i =>
      show cpu.execute (i.swapped base) = swap base <$> (cpu.swap base).execute i
      rw [execute_swap base cpu h]
      simp
  | opcode next ih =>
      show cpu.carryOut (.opcode fun b => Instruction.swapped base <$> next b) = _
      rw [carryOut_opcode, carryOut_opcode, pc_swap, ← swap_fetched]
      exact congrArg (Script.cycle _) (funext fun b => ih b cpu.fetched (h b))
  | operand next ih =>
      show cpu.carryOut (.operand fun b => Instruction.swapped base <$> next b) = _
      rw [carryOut_operand, carryOut_operand, pc_swap, ← swap_setPC]
      exact congrArg (Script.cycle _) (funext fun b => ih b _ (h b))
  | pause n next ih => exact congrArg (Script.cycle _) (funext fun _ => ih cpu h)

end Cpu

/-! ### The main table -/

section Names

variable (base : Index)

@[simp] theorem Reg8.indexed_none (r : Reg8) : r.indexed none = r := by cases r <;> rfl

@[simp] theorem Pair.indexed_none (p : Pair) : p.indexed none = p := by cases p <;> rfl

theorem Reg8.ofCode?_eq_none_iff (code : Nat) : ofCode? code = none ↔ code % 8 = 6 := by
  unfold ofCode?
  split <;> simp_all
  omega

/-- A prefix exchanges the names that codes stand for. -/
theorem Reg8.indexed_ofCode? {code : Nat} {r : Reg8} (h : ofCode? code = some r) :
    r.indexed (some base) = r.swapped base := by
  unfold ofCode? at h
  split at h <;> cases h <;> cases base <;> rfl

@[simp] theorem Pair.indexed_ofCode (code : Nat) :
    (ofCode code).indexed (some base) = (ofCode code).swapped base := by
  unfold ofCode
  split <;> cases base <;> rfl

@[simp] theorem Pair.indexed_stackOfCode (code : Nat) :
    (stackOfCode code).indexed (some base) = (stackOfCode code).swapped base := by
  unfold stackOfCode
  split <;> cases base <;> rfl

@[simp] theorem Pair.indexed_hl : Pair.hl.indexed (some base) = Pair.hl.swapped base := by
  cases base <;> rfl

@[simp] theorem Pair.swapped_de : Pair.de.swapped base = .de := by cases base <;> rfl

end Names

namespace Opcode

/-- Is (HL) an operand of an opcode of the main table?  JP (HL) jumps to HL and looks at no memory. -/
def takesMemory (op : UInt8) : Bool :=
  match op.toNat / 64 with
  | 0 => y op == 6 && (z op == 4 || z op == 5 || z op == 6)
  | 1 => (y op == 6) != (z op == 6)
  | 2 => z op == 6
  | _ => false

/-- The index register in force only exchanges the names of registers. -/
def Swaps (e : Option Index → Encoding Instruction) : Prop :=
  (e none).All (fun i => ¬ i.Implicit) ∧ ∀ base, e (some base) = Instruction.swapped base <$> e none

theorem firstQuarter_swaps {y z : Nat} (hy : y < 8) (h : ¬ (y = 6 ∧ (z = 4 ∨ z = 5 ∨ z = 6))) :
    Swaps (firstQuarter · y z) := by
  by_cases hz : z = 4 ∨ z = 5 ∨ z = 6
  · have hregister : Reg8.ofCode? y ≠ none := by
      rw [Ne, Reg8.ofCode?_eq_none_iff]
      omega
    obtain ⟨r, hr⟩ := Option.ne_none_iff_exists'.mp hregister
    have hswapped := fun base => Reg8.indexed_ofCode? base hr
    rcases hz with rfl | rfl | rfl <;>
      simp [Swaps, firstQuarter, hr, hswapped, Instruction.Implicit, Instruction.swapped]
  · refine ⟨?_, fun base => ?_⟩
    · unfold firstQuarter
      split <;> (try split) <;> simp_all [Instruction.Implicit]
    · unfold firstQuarter
      split <;> (try split) <;> simp_all [Instruction.swapped]

theorem secondQuarter_swaps {y z : Nat} (hy : y < 8) (hz : z < 8) (h : y = 6 ↔ z = 6) :
    Swaps (secondQuarter · y z) := by
  have hnone : Reg8.ofCode? y = none ↔ Reg8.ofCode? z = none := by
    rw [Reg8.ofCode?_eq_none_iff, Reg8.ofCode?_eq_none_iff]
    omega
  cases hy : Reg8.ofCode? y with
  | none =>
      have hz := hnone.mp hy
      simp [Swaps, secondQuarter, hy, hz, Instruction.Implicit, Instruction.swapped]
  | some target =>
      cases hz : Reg8.ofCode? z with
      | none => exact absurd (hnone.mpr hz) (by simp [hy])
      | some source =>
          have htarget := fun base => Reg8.indexed_ofCode? base hy
          have hsource := fun base => Reg8.indexed_ofCode? base hz
          simp [Swaps, secondQuarter, hy, hz, htarget, hsource, Instruction.Implicit,
            Instruction.swapped]

theorem thirdQuarter_swaps {y z : Nat} (hz : z < 8) (h : z ≠ 6) : Swaps (thirdQuarter · y z) := by
  have hregister : Reg8.ofCode? z ≠ none := by
    rw [Ne, Reg8.ofCode?_eq_none_iff]
    omega
  obtain ⟨r, hr⟩ := Option.ne_none_iff_exists'.mp hregister
  have hswapped := fun base => Reg8.indexed_ofCode? base hr
  simp [Swaps, thirdQuarter, hr, hswapped, Instruction.Implicit, Instruction.swapped]

theorem fourthQuarter_swaps {y z : Nat} (hEXX : ¬ (y = 3 ∧ z = 1)) (hEX : ¬ (y = 5 ∧ z = 3)) :
    Swaps (fourthQuarter · y z) := by
  refine ⟨?_, fun base => ?_⟩
  · unfold fourthQuarter
    split <;> (try split) <;> (try split) <;> simp_all [Instruction.Implicit]
  · unfold fourthQuarter
    split <;> (try split) <;> (try split) <;> simp_all [Instruction.swapped]

/-- An opcode is its three fields. -/
theorem toNat_fields (op : UInt8) : op.toNat = op.toNat / 64 * 64 + y op * 8 + z op := by
  unfold y z
  omega

/-- An opcode that neither looks at (HL) nor exchanges HL is the same under other names. -/
theorem main_swaps {op : UInt8} (h : takesMemory op = false) (hEX : op ≠ 0xEB) (hEXX : op ≠ 0xD9) :
    Swaps (main · op) := by
  have hy := y_lt op
  have hz := z_lt op
  unfold takesMemory at h
  unfold main
  split
  · rename_i hquarter
    refine firstQuarter_swaps hy fun hmemory => ?_
    simp_all
  · rename_i hquarter
    refine secondQuarter_swaps hy hz ?_
    grind
  · rename_i hquarter
    refine thirdQuarter_swaps hz ?_
    simpa [hquarter] using h
  · rename_i hfirst hsecond hthird
    have hquarter : op.toNat / 64 = 3 := by
      have hlt := op.toNat_lt
      have hne := And.intro hfirst (And.intro hsecond hthird)
      simp only [imp_false] at hne
      omega
    have hop := toNat_fields op
    refine fourthQuarter_swaps (fun hyz => hEXX ?_) (fun hyz => hEX ?_)
    · apply UInt8.toNat_inj.mp
      show op.toNat = 217
      omega
    · apply UInt8.toNat_inj.mp
      show op.toNat = 235
      omega

end Opcode

end Z80
