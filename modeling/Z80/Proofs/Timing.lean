/-
What an instruction costs.

`Instruction.published` is the table of costs as processor manuals print it, with one figure for
each instruction and two for those that may jump, return or repeat.  In the code there is no such
table.  A cost there is a sum of machine cycles, of which some belong to the bytes of the
instruction and others to its execution, and the two parts are summed up apart: `Encoding.Brings`
follows the reading of the bytes and `execute_costs` goes through the instruction set once.  What
is left is to compare, and that is one case for each field of the opcode tables
(`unprefixed_priced`).

Each prefix in front of that is a fetch of its own.  The bytes come from whatever the bus drives,
so the prefixes are counted as they are fetched (`Fetches`), and no memory is assumed behind it.

Accepting a request and idling have figures too, and `Due.published` is the table of those.
-/
import Z80.Proofs.Chains
import Z80.Proofs.Flow

namespace Z80

/-! ### The table -/

/-- One figure for (HL), another for an indexed operand. -/
def Pointer.pick (direct indirect : Nat) : Pointer → Nat
  | hl => direct
  | indexed .. => indirect

namespace Instruction

/--
T-states of an instruction from the first byte that is no prefix.  `extended` tells ED apart, where
the loads between memory and HL have a second, longer code, and `taken` whether the instruction
transfers control or repeats itself.
-/
def published (extended taken : Bool) : Instruction → Nat
  | nop | halt | di | ei | load .. | increment _ | decrement _ | accumulate _ (.register _)
  | rotateA _ | daa | cpl | scf | ccf | exchangeAF | exchangeAll | exchangeDEHL | jumpPair _ => 4
  | incrementPair _ | decrementPair _ | loadSP _ => 6
  | loadImmediate .. | accumulate _ (.immediate _) | loadAIndirect _ | storeAIndirect _ => 7
  | loadFrom _ p | storeTo p _ | accumulate _ (.memory p) => p.pick 7 15
  | loadPair .. | pop _ | ret | jump _ | jumpIf .. => 10
  | storeImmediate p _ => p.pick 10 15
  | addPair .. | push _ | rst _ | inputA _ | outputA _ => 11
  | incrementAt p | decrementAt p => p.pick 11 19
  | loadADirect _ | storeADirect _ => 13
  | loadPairDirect .. | storePairDirect .. => if extended then 20 else 16
  | exchangeTop _ => 19
  | jumpRelative _ => 12
  | jumpRelativeIf .. => if taken then 12 else 7
  | djnz _ => if taken then 13 else 8
  | retIf _ => if taken then 11 else 5
  | call _ => 17
  | callIf .. => if taken then 17 else 10
  | modify .. | test .. => 8
  | modifyAt _ p _ => p.pick 15 19
  | testAt _ p => p.pick 12 16
  | neg | im _ | reserved _ => 8
  | loadIA | loadRA | loadAI | loadAR => 9
  | inputC _ | outputC _ => 12
  | retn | reti => 14
  | adcPair _ | sbcPair _ => 15
  | rrd | rld => 18
  | block .. => if taken then 21 else 16

/-- T-states of an instruction after its last code byte. -/
def cycles (taken : Bool) : Instruction → Nat
  | loadIA | loadRA | loadAI | loadAR => 1
  | loadFrom _ p | storeTo p _ | accumulate _ (.memory p) => p.pick 3 8
  | storeImmediate p _ => p.pick 3 5
  | loadAIndirect _ | storeAIndirect _ | loadADirect _ | storeADirect _ => 3
  | loadPairDirect .. | storePairDirect .. => 6
  | incrementPair _ | decrementPair _ | loadSP _ => 2
  | push _ | rst _ | call _ => 7
  | pop _ | ret | retn | reti => 6
  | exchangeTop _ => 15
  | incrementAt p | decrementAt p => p.pick 7 12
  | addPair .. | adcPair _ | sbcPair _ => 7
  | rrd | rld => 10
  | modifyAt _ p _ => p.pick 7 9
  | testAt _ p => p.pick 4 6
  | jumpRelative _ => 5
  | jumpRelativeIf .. | djnz _ => if taken then 5 else 0
  | callIf .. => if taken then 7 else 0
  | retIf _ => if taken then 7 else 1
  | inputA _ | outputA _ | inputC _ | outputC _ => 4
  | block .. => if taken then 13 else 8
  | nop | halt | di | ei | load .. | increment _ | decrement _ | accumulate _ (.register _)
  | accumulate _ (.immediate _) | rotateA _ | daa | cpl | scf | ccf | exchangeAF | exchangeAll
  | exchangeDEHL | loadImmediate .. | loadPair .. | jump _ | jumpIf .. | jumpPair _ | modify .. | test ..
  | neg | im _ | reserved _ => 0

end Instruction

/-! ### Execution -/

namespace Cpu

section Updates

variable (cpu : Cpu)

@[simp] theorem r_set8 (r : Reg8) (v : UInt8) : (cpu.set8 r v).regs.r = cpu.regs.r := by
  cases r <;> rfl

@[simp] theorem r_set16 (p : Pair) (w : UInt16) : (cpu.set16 p w).regs.r = cpu.regs.r := by
  cases p <;> rfl

@[simp] theorem r_setSP (w : UInt16) : (cpu.setSP w).regs.r = cpu.regs.r := rfl

@[simp] theorem r_setPC (w : UInt16) : (cpu.setPC w).regs.r = cpu.regs.r := rfl

@[simp] theorem r_setWZ (w : UInt16) : (cpu.setWZ w).regs.r = cpu.regs.r := rfl

@[simp] theorem r_goto (w : UInt16) : (cpu.goto w).regs.r = cpu.regs.r := rfl

@[simp] theorem r_setFlags (f : Flags) : (cpu.setFlags f).regs.r = cpu.regs.r := rfl

@[simp] theorem r_setFlags? (f : Option Flags) : (cpu.setFlags? f).regs.r = cpu.regs.r := by
  cases f <;> rfl

@[simp] theorem r_setResult (r : Result) : (cpu.setResult r).regs.r = cpu.regs.r := by
  simp [setResult]

@[simp] theorem r_storedA (w : UInt16) : (cpu.storedA w).regs.r = cpu.regs.r := rfl

@[simp] theorem r_enableInterrupts (on : Bool) : (cpu.enableInterrupts on).regs.r = cpu.regs.r := rfl

@[simp] theorem r_walk (p : Pair) (d : Direction) : (cpu.walk p d).regs.r = cpu.regs.r := by
  simp [walk]

@[simp] theorem r_countDown : cpu.countDown.regs.r = cpu.regs.r := by
  simp [countDown]

end Updates

/-- An instruction takes `n` T-states after its code, and LD R,A is the only one to write R. -/
structure Costs (cpu : Cpu) (i : Instruction) (n : Nat) (after : Cpu) : Prop where
  time : n = i.cycles (cpu.transfers i || after.repeats i)
  refresh : after.regs.r = if i = .loadRA then cpu.a else cpu.regs.r

theorem costs_iff (cpu : Cpu) (i : Instruction) (n : Nat) (after : Cpu) :
    cpu.Costs i n after ↔ n = i.cycles (cpu.transfers i || after.repeats i) ∧
      after.regs.r = if i = .loadRA then cpu.a else cpu.regs.r :=
  ⟨fun h => ⟨h.1, h.2⟩, fun h => ⟨h.1, h.2⟩⟩

theorem blockLoad_costs (cpu : Cpu) (d : Direction) (again : Bool) :
    (cpu.blockLoad d again).Ensures (cpu.Costs (.block .load d again)) := by
  cases again with
  | false => simp [blockLoad, costs_iff, transfers, repeats, Instruction.cycles]
  | true => simp +contextual [blockLoad, costs_iff, transfers, repeats, Instruction.cycles]

theorem blockCompare_costs (cpu : Cpu) (d : Direction) (again : Bool) :
    (cpu.blockCompare d again).Ensures (cpu.Costs (.block .compare d again)) := by
  cases again with
  | false => simp [blockCompare, costs_iff, transfers, repeats, Instruction.cycles]
  | true =>
      simp +contextual [blockCompare, costs_iff, transfers, repeats, Instruction.cycles,
        blockCompared_zero]

theorem blockInput_costs (cpu : Cpu) (d : Direction) (again : Bool) :
    (cpu.blockInput d again).Ensures (cpu.Costs (.block .input d again)) := by
  cases again with
  | false => simp [blockInput, costs_iff, transfers, repeats, Instruction.cycles]
  | true => simp +contextual [blockInput, costs_iff, transfers, repeats, Instruction.cycles]

theorem blockOutput_costs (cpu : Cpu) (d : Direction) (again : Bool) :
    (cpu.blockOutput d again).Ensures (cpu.Costs (.block .output d again)) := by
  cases again with
  | false => simp [blockOutput, costs_iff, transfers, repeats, Instruction.cycles]
  | true => simp +contextual [blockOutput, costs_iff, transfers, repeats, Instruction.cycles]

/-- Every instruction takes the time that the table has for its part behind the code. -/
theorem execute_costs (cpu : Cpu) (i : Instruction) : (cpu.execute i).Ensures (cpu.Costs i) := by
  cases i
  case accumulate op operand =>
    cases operand with
    | register r => simp [execute, costs_iff, Instruction.cycles]
    | immediate n => simp [execute, costs_iff, Instruction.cycles]
    | memory p => cases p <;> simp [execute, costs_iff, Instruction.cycles, Pointer.pick]
  case block op d again =>
    cases op with
    | load => exact cpu.blockLoad_costs d again
    | compare => exact cpu.blockCompare_costs d again
    | input => exact cpu.blockInput_costs d again
    | output => exact cpu.blockOutput_costs d again
  case loadFrom target p => cases p <;> simp [execute, costs_iff, Instruction.cycles, Pointer.pick]
  case storeTo p source => cases p <;> simp [execute, costs_iff, Instruction.cycles, Pointer.pick]
  case storeImmediate p n => cases p <;> simp [execute, costs_iff, Instruction.cycles, Pointer.pick]
  case incrementAt p => cases p <;> simp [execute, costs_iff, Instruction.cycles, Pointer.pick]
  case decrementAt p => cases p <;> simp [execute, costs_iff, Instruction.cycles, Pointer.pick]
  case testAt n p => cases p <;> simp [execute, costs_iff, Instruction.cycles, Pointer.pick]
  case modifyAt op p copy =>
    cases p <;> cases copy <;> simp [execute, costs_iff, Instruction.cycles, Pointer.pick]
  case inputC target => cases target <;> simp [execute, costs_iff, Instruction.cycles]
  case jumpIf condition target =>
    simp only [execute, Script.ensures_pure]
    split <;> simp [costs_iff, Instruction.cycles]
  -- whether the time of a transfer is due is the same question on both sides
  case jumpRelativeIf condition d =>
    cases hc : condition.holds cpu.flags <;>
      simp [execute, costs_iff, transfers, repeats, Instruction.cycles, hc]
  case callIf condition target =>
    cases hc : condition.holds cpu.flags <;>
      simp [execute, costs_iff, transfers, repeats, Instruction.cycles, hc]
  case retIf condition =>
    cases hc : condition.holds cpu.flags <;>
      simp [execute, costs_iff, transfers, repeats, Instruction.cycles, hc]
  case djnz d =>
    have hcount : cpu.get8 .b - 1 = 0 ↔ cpu.get8 .b = 1 := by grind
    simp +contextual [execute, costs_iff, transfers, repeats, Instruction.cycles, hcount]
  all_goals simp [execute, costs_iff, Instruction.cycles]
  all_goals rfl

end Cpu

/-! ### Reading -/

namespace Encoding

variable {α γ : Type}

/-- Whatever is read, it is an `a` after `n` T-states, of which `f` fetches are a part, such that `P n f a`. -/
def Brings : Encoding α → (Nat → Nat → α → Prop) → Prop
  | done a, P => P 0 0 a
  | opcode next, P => ∀ b, (next b).Brings fun n f a => P (4 + n) (1 + f) a
  | operand next, P => ∀ b, (next b).Brings fun n f a => P (3 + n) f a
  | pause length next, P => next.Brings fun n f a => P (length + n) f a

@[simp] theorem brings_pure (a : α) (P : Nat → Nat → α → Prop) :
    (pure a : Encoding α).Brings P ↔ P 0 0 a := Iff.rfl

@[simp] theorem brings_pause (length : Nat) (next : Encoding α) (P : Nat → Nat → α → Prop) :
    (pause length next).Brings P ↔ next.Brings fun n f a => P (length + n) f a := Iff.rfl

@[simp] theorem brings_bind (e : Encoding α) (g : α → Encoding γ) (P : Nat → Nat → γ → Prop) :
    (e >>= g).Brings P ↔ e.Brings fun m f a => (g a).Brings fun n f' c => P (m + n) (f + f') c := by
  induction e generalizing P with
  | done a =>
      show (g a).Brings P ↔ (g a).Brings fun n f' c => P (0 + n) (0 + f') c
      simp only [Nat.zero_add]
  | opcode next ih =>
      show (∀ b, (next b >>= g).Brings _) ↔ ∀ b, (next b).Brings _
      simp only [ih, Nat.add_assoc]
  | operand next ih =>
      show (∀ b, (next b >>= g).Brings _) ↔ ∀ b, (next b).Brings _
      simp only [ih, Nat.add_assoc]
  | pause length next ih =>
      show (next >>= g).Brings _ ↔ next.Brings _
      simp only [ih, Nat.add_assoc]

@[simp] theorem brings_map (g : α → γ) (e : Encoding α) (P : Nat → Nat → γ → Prop) :
    (g <$> e).Brings P ↔ e.Brings fun n f a => P n f (g a) := by
  rw [← bind_pure_comp, brings_bind]
  rfl

@[simp] theorem brings_ite (p : Prop) [Decidable p] (e e' : Encoding α) (P : Nat → Nat → α → Prop) :
    (if p then e else e').Brings P ↔ (p → e.Brings P) ∧ (¬ p → e'.Brings P) := by
  split <;> simp_all

@[simp] theorem brings_byte (P : Nat → Nat → UInt8 → Prop) : byte.Brings P ↔ ∀ b, P 3 0 b := Iff.rfl

@[simp] theorem brings_displacement (P : Nat → Nat → Int8 → Prop) :
    displacement.Brings P ↔ ∀ b : UInt8, P 3 0 b.toInt8 := Iff.rfl

@[simp] theorem brings_word (P : Nat → Nat → UInt16 → Prop) :
    word.Brings P ↔ ∀ low high, P 6 0 (Word.ofBytes high low) := Iff.rfl

theorem Brings.mono {e : Encoding α} {P Q : Nat → Nat → α → Prop} (h : e.Brings P)
    (hPQ : ∀ n f a, P n f a → Q n f a) : e.Brings Q := by
  induction e generalizing P Q with
  | done a => exact hPQ 0 0 a h
  | opcode next ih => exact fun b => ih b (h b) fun n f a => hPQ (4 + n) (1 + f) a
  | operand next ih => exact fun b => ih b (h b) fun n f a => hPQ (3 + n) f a
  | pause length next ih => exact ih h fun n f a => hPQ (length + n) f a

/-- Reading takes that time, and the refresh register counts the fetches. -/
theorem Brings.ensures {e : Encoding α} {P : Nat → Nat → α → Prop} (h : e.Brings P) (r : Registers) :
    (e.script r).Ensures fun n p => ∃ f, P n f p.1 ∧ p.2.r = (r.refresh f).r := by
  induction e generalizing P r with
  | done a => exact ⟨0, h, by rw [Registers.refresh_zero]⟩
  | opcode next ih =>
      intro b
      refine (ih b (h b) _).mono fun n p hp => ?_
      obtain ⟨f, hP, hr⟩ := hp
      refine ⟨1 + f, hP, ?_⟩
      rw [hr, Registers.refresh_refresh]
      rfl
  | operand next ih => exact fun b => ih b (h b) _
  | pause length next ih => exact fun _ => ih h r

end Encoding

namespace Opcode

open Encoding

@[simp] theorem brings_pointer (index : Option Index) (P : Nat → Nat → Pointer → Prop) :
    (pointer index).Brings P ↔
      match index with
      | none => P 0 0 .hl
      | some base => ∀ b : UInt8, P 3 0 (.indexed base b.toInt8) := by
  cases index <;> rfl

/-- The opcode bytes of an instruction behind its prefixes. -/
def fetches (last : Option Index) (op : UInt8) : Nat :=
  if op = 0xED ∨ op = 0xCB ∧ last = none then 2 else 1

/-- What is read has the published cost. -/
def Priced (extended : Bool) (i : Instruction) (n : Nat) : Prop :=
  ∀ taken, n + i.cycles taken = i.published extended taken

/-- One of two instructions has the published cost if both have it. -/
@[simp] theorem priced_ite (extended : Bool) (p : Prop) [Decidable p] (i i' : Instruction) (n : Nat) :
    Priced extended (if p then i else i') n ↔
      (p → Priced extended i n) ∧ (¬ p → Priced extended i' n) := by
  split <;> simp_all

theorem firstQuarter_priced (index : Option Index) (y z : Nat) :
    (firstQuarter index y z).Brings fun n f i => Priced false i (4 + n) ∧ f = 0 := by
  unfold firstQuarter
  split <;> (try split) <;> cases index <;> simp
  all_goals simp [Priced, Instruction.published, Instruction.cycles, Pointer.pick]

theorem secondQuarter_priced (index : Option Index) (y z : Nat) :
    (secondQuarter index y z).Brings fun n f i => Priced false i (4 + n) ∧ f = 0 := by
  unfold secondQuarter
  split <;> cases index <;> simp
  all_goals simp [Priced, Instruction.published, Instruction.cycles, Pointer.pick]

theorem thirdQuarter_priced (index : Option Index) (y z : Nat) :
    (thirdQuarter index y z).Brings fun n f i => Priced false i (4 + n) ∧ f = 0 := by
  unfold thirdQuarter
  split <;> cases index <;> simp
  all_goals simp [Priced, Instruction.published, Instruction.cycles, Pointer.pick]

theorem fourthQuarter_priced (index : Option Index) (y z : Nat) :
    (fourthQuarter index y z).Brings fun n f i => Priced false i (4 + n) ∧ f = 0 := by
  unfold fourthQuarter
  split <;> (try split) <;> simp
  all_goals simp [Priced, Instruction.published, Instruction.cycles]

theorem main_priced (index : Option Index) (op : UInt8) :
    (main index op).Brings fun n f i => Priced false i (4 + n) ∧ f = 0 := by
  unfold main
  split
  · exact firstQuarter_priced index _ _
  · exact secondQuarter_priced index _ _
  · exact thirdQuarter_priced index _ _
  · exact fourthQuarter_priced index _ _

theorem bit_priced (op : UInt8) : Priced false (bit op) 8 := by
  unfold bit
  split <;> simp [Priced, Instruction.published, Instruction.cycles, Pointer.pick]

theorem indexedBit_priced (base : Index) (d : Int8) (op : UInt8) :
    Priced false (indexedBit base d op) 10 := by
  unfold indexedBit
  split <;> simp [Priced, Instruction.published, Instruction.cycles, Pointer.pick]

theorem extendedQuarter_priced (op : UInt8) :
    (extendedQuarter op).Brings fun n f i => Priced true i (8 + n) ∧ f = 0 := by
  unfold extendedQuarter
  split <;> simp
  case h_7 => split <;> exact ⟨fun _ => rfl, rfl⟩
  case h_8 => split <;> exact ⟨fun _ => rfl, rfl⟩
  all_goals simp [Priced, Instruction.published, Instruction.cycles]

theorem extended_priced : extended.Brings fun n f i => Priced true i (4 + n) ∧ f = 1 := by
  intro op
  dsimp only
  simp only [← Nat.add_assoc, Nat.reduceAdd, Nat.add_eq_left]
  split
  · exact extendedQuarter_priced op
  · split
    · exact ⟨fun taken => by cases taken <;> rfl, rfl⟩
    · exact ⟨fun _ => rfl, rfl⟩

/-- Whatever opcode stands behind the prefixes, its instruction has the published cost. -/
theorem unprefixed_priced (last : Option Index) (op : UInt8) :
    (unprefixed last op).Brings fun n f i => Priced (op == 0xED) i (4 + n) ∧ 1 + f = fetches last op := by
  unfold unprefixed
  by_cases hCB : op = 0xCB
  · rw [if_pos hCB]
    subst hCB
    cases last with
    | none => exact fun op => ⟨bit_priced op, rfl⟩
    | some base => exact fun d op => ⟨indexedBit_priced base d.toInt8 op, rfl⟩
  · rw [if_neg hCB]
    by_cases hED : op = 0xED
    · rw [if_pos hED]
      subst hED
      exact extended_priced.mono fun n f i h => ⟨h.1, by rw [h.2]; rfl⟩
    · rw [if_neg hED]
      have hplain : (op == 0xED) = false := beq_eq_false_iff_ne.mpr hED
      have hone : fetches last op = 1 := if_neg (by simp [hCB, hED])
      rw [hplain, hone]
      exact (main_priced last op).mono fun n f i h => ⟨h.1, by rw [h.2]⟩

end Opcode

/-! ### Prefixes -/

/-- An opcode that has been fetched, and how many prefixes before it. -/
structure Front (β : Type) where
  prefixes : Nat
  /-- The index register that the last prefix has chosen. -/
  index : Option Index
  op : UInt8
  regs : Registers
  outside : Timed β

/-- What the refresh register counts to depends on nothing but itself. -/
theorem Registers.refresh_congr {r r' : Registers} (h : r.r = r'.r) (n : Nat) :
    (r.refresh n).r = (r'.refresh n).r := by
  simp only [refresh, h]

section Fetching

variable {β : Type} [Bus β]

/-- The registers behind a byte that has been fetched. -/
def Registers.fetched (r : Registers) : Registers := ({ r with pc := r.pc + 1 } : Registers).refresh 1

/-- Fetching one byte after the other leads through prefixes to an opcode. -/
inductive Fetches : Option Index → Registers → Timed β → Front β → Prop
  | opcode {index : Option Index} {r : Registers} {t t' : Timed β} {b : UInt8}
      (hfetch : (Cycle.fetch r.pc).perform t = (b, t')) (hb : Index.ofByte? b = none) :
      Fetches index r t ⟨0, index, b, r.fetched, t'⟩
  | another {index : Option Index} {i : Index} {r : Registers} {t t' : Timed β} {b : UInt8} {f : Front β}
      (hfetch : (Cycle.fetch r.pc).perform t = (b, t')) (hb : Index.ofByte? b = some i)
      (hrest : Fetches (some i) r.fetched t' f) :
      Fetches index r t { f with prefixes := f.prefixes + 1 }

namespace Fetches

variable {index : Option Index} {r : Registers} {t : Timed β} {f : Front β}

/-- Behind the prefixes the instruction is read that the last of them and the opcode begin. -/
theorem run_instruction (h : Fetches index r t f) {bound : Nat} (hbound : f.prefixes < bound) :
    ((Opcode.instruction bound index).script r).run t =
      let read := ((Opcode.unprefixed f.index f.op).script f.regs).run f.outside
      ((some read.1.1, read.1.2), read.2) := by
  induction h generalizing bound with
  | opcode hfetch hb =>
      obtain ⟨bound, rfl⟩ : ∃ n, bound = n + 1 := ⟨bound - 1, by omega⟩
      simp only [Opcode.run_instruction_succ, hfetch, hb, Encoding.script_map, Script.run_map]
      rfl
  | another hfetch hb hrest ih =>
      obtain ⟨bound, rfl⟩ : ∃ n, bound = n + 1 := ⟨bound - 1, by omega⟩
      simp only [Opcode.run_instruction_succ, hfetch, hb]
      exact ih (by simpa using hbound)

/-- An instruction that is read has been fetched behind its prefixes. -/
theorem exists_of_read {bound : Nat} {i : Instruction}
    (h : (((Opcode.instruction bound index).script r).run t).1.1 = some i) :
    ∃ f, Fetches index r t f := by
  induction bound generalizing index r t with
  | zero => simp [Opcode.instruction, Encoding.script, Script.run] at h
  | succ bound ih =>
      rcases hfetch : (Cycle.fetch r.pc).perform t with ⟨b, t'⟩
      rw [Opcode.run_instruction_succ, hfetch] at h
      cases hb : Index.ofByte? b with
      | none => exact ⟨_, .opcode hfetch hb⟩
      | some j =>
          simp only [hb] at h
          obtain ⟨f, hf⟩ := ih h
          exact ⟨_, .another hfetch hb hf⟩

/-- Fetching moves the program counter, counts in the refresh register and does nothing else. -/
theorem regs (h : Fetches index r t f) :
    Encoding.Moved r f.regs ∧ f.regs.r = (r.refresh (f.prefixes + 1)).r := by
  induction h with
  | @opcode index r t t' b hfetch hb => exact ⟨⟨_, _, rfl⟩, by rw [Nat.zero_add]; rfl⟩
  | @another index i r t t' b f hfetch hb hrest ih =>
      obtain ⟨hmoved, hr⟩ := ih
      refine ⟨.trans ⟨_, _, rfl⟩ hmoved, ?_⟩
      rw [hr, Registers.fetched, Registers.refresh_refresh, Nat.add_comm 1]
      rfl

/-- An index register is chosen if there is a prefix, or was before. -/
theorem index_eq_none_iff (h : Fetches index r t f) :
    f.index = none ↔ f.prefixes = 0 ∧ index = none := by
  induction h with
  | opcode hfetch hb => simp
  | another hfetch hb hrest ih => simp [ih]

/-- On a prompt bus every fetch takes four T-states. -/
theorem elapsed (h : Fetches index r t f) (hprompt : Bus.Prompt t.bus) :
    Clock.Elapsed (4 * f.prefixes + 4) t.clock f.outside.clock ∧ Bus.Prompt f.outside.bus := by
  induction h with
  | @opcode index r t t' b hfetch hb =>
      have hcycle := Script.perform_prompt (.fetch r.pc) hprompt
      rw [hfetch] at hcycle
      exact hcycle
  | @another index i r t t' b f hfetch hb hrest ih =>
      have hcycle := Script.perform_prompt (.fetch r.pc) hprompt
      rw [hfetch] at hcycle
      obtain ⟨hfirst, hprompt'⟩ := hcycle
      obtain ⟨helapsed, hend⟩ := ih hprompt'
      have hall := hfirst.trans helapsed
      rw [show (Cycle.fetch r.pc).length + (4 * f.prefixes + 4) = 4 * (f.prefixes + 1) + 4 by
        simp only [Cycle.length]; omega] at hall
      exact ⟨hall, hend⟩

end Fetches

end Fetching

/-! ### Steps -/

section Steps

variable {β : Type} [Bus β]

/-- What is read behind a front, where that leaves the processor, and what is left of the published cost. -/
theorem Fetches.read_published {r : Registers} {t : Timed β} {f : Front β} (hprompt : Bus.Prompt t.bus)
    (hf : Fetches none r t f) :
    ∃ i pc t', ((Opcode.instruction (f.prefixes + 1) none).script r).run t =
        ((some i, { r with pc := pc, r := (r.refresh (f.prefixes + Opcode.fetches f.index f.op)).r }), t') ∧
      (((Opcode.unprefixed f.index f.op).script f.regs).run f.outside).1.1 = i ∧
      Bus.Prompt t'.bus ∧
      ∃ n, Clock.Elapsed n t.clock t'.clock ∧
        ∀ taken, n + i.cycles taken = 4 * f.prefixes + i.published (f.op == 0xED) taken := by
  obtain ⟨hfetched, hprompt₁⟩ := hf.elapsed hprompt
  obtain ⟨hmoved₁, hr₁⟩ := hf.regs
  have hbrings := (Opcode.unprefixed_priced f.index f.op).ensures f.regs
  obtain ⟨n, ⟨count, ⟨hprice, hcount⟩, hr₂⟩, hread⟩ := hbrings.run_prompt hprompt₁
  have hprompt₂ := Script.run_always ((Opcode.unprefixed f.index f.op).script f.regs) hprompt₁
  obtain ⟨-, hmoved₂⟩ := ((Opcode.unprefixed f.index f.op).script_moved f.regs).run f.outside
  have hall := hf.run_instruction (Nat.lt_succ_self f.prefixes)
  rcases hrun : ((Opcode.unprefixed f.index f.op).script f.regs).run f.outside with ⟨⟨i, regs⟩, t'⟩
  rw [hrun] at hprice hr₂ hread hprompt₂ hmoved₂ hall
  obtain ⟨pc, count', rfl⟩ : Encoding.Moved r regs := hmoved₁.trans hmoved₂
  have hcounted : count' = (r.refresh (f.prefixes + Opcode.fetches f.index f.op)).r := by
    rw [← hcount, ← Nat.add_assoc, ← Registers.refresh_refresh]
    exact hr₂.trans (Registers.refresh_congr hr₁ count)
  refine ⟨i, pc, t', ?_, rfl, hprompt₂, _, hfetched.trans hread, ?_⟩
  · rw [← hcounted]
    exact hall
  · intro taken
    have htaken : 4 + n + i.cycles taken = i.published (f.op == 0xED) taken := hprice taken
    omega

namespace Machine

/-- A step has carried out an instruction, at its published cost. -/
structure Paid (m : Machine β) (f : Front β) (i : Instruction) (r : UInt32 × Machine β) : Prop where
  /-- The instruction is the one that the last prefix and the opcode begin. -/
  read : (((Opcode.unprefixed f.index f.op).script f.regs).run f.outside).1.1 = i
  time : r.1 = .ofNat
    (4 * f.prefixes + i.published (f.op == 0xED) (m.cpu.transfers i || r.2.cpu.repeats i))
  refresh : r.2.cpu.regs.r = if i = .loadRA then m.cpu.a else
    (m.cpu.regs.refresh (f.prefixes + Opcode.fetches f.index f.op)).r

variable {m : Machine β}

/-- An instruction that is due is carried out once its prefixes come to an end, at the published cost. -/
theorem next_published {f : Front β} (hprompt : Bus.Prompt m.bus) (hdue : m.cpu.due = .instruction)
    (hf : Fetches none m.cpu.regs m.outside f) :
    ∃ i after, Returns m.next after ∧
      Clock.Elapsed (4 * f.prefixes +
        i.published (f.op == 0xED) (m.cpu.transfers i || after.cpu.repeats i)) m.clock after.clock ∧
      m.Paid f i (.ofNat (after.clock.total - m.clock.total), after.takeYield.2) := by
  obtain ⟨i, pc, t, hall, hread, hprompt', n, hn, hprice⟩ := hf.read_published hprompt
  have hnext := next_of_read hdue hall
  let started : Cpu := { ({ m.cpu with shadow := false } : Cpu).beginEvent with
    regs := { m.cpu.regs with
      pc := pc, r := (m.cpu.regs.refresh (f.prefixes + Opcode.fetches f.index f.op)).r } }
  obtain ⟨l, ⟨hl, hr⟩, hexecuted⟩ := (started.execute_costs i).run_prompt hprompt'
  have hcost := hprice (started.transfers i || ((started.execute i).run t).1.repeats i)
  rw [← hl] at hcost
  have helapsed := hn.trans hexecuted
  rw [hcost] at helapsed
  refine ⟨i, _, ⟨_, hnext⟩, helapsed, hread, ?_, hr⟩
  show UInt32.ofNat (((started.execute i).run t).2.clock.total - m.clock.total) = _
  rw [helapsed.total]
  exact congrArg UInt32.ofNat (Nat.add_sub_cancel_left _ _)

/--
**The cost of an instruction is the published one.**  On a bus without wait states, a step that is to
execute an instruction returns if and only if its prefixes come to an end.  It then says four T-states
for each prefix and the published cost of the instruction that the last prefix and the opcode begin,
in which a prefix makes an indexed operand of (HL).  The refresh register has counted every prefix,
the opcode, and the second opcode byte of ED and of CB without an index register, unless the
instruction was LD R,A.
-/
theorem step_published (m : Machine β) (hprompt : Bus.Prompt m.bus)
    (hdue : m.cpu.due = .instruction) :
    ((∃ r, Returns m.step r) ↔ ∃ f, Fetches none m.cpu.regs m.outside f) ∧
      ∀ f, Fetches none m.cpu.regs m.outside f →
        (f.index = none ↔ f.prefixes = 0) ∧ ∃ i r, Returns m.step r ∧ m.Paid f i r := by
  have hstep : ∀ f, Fetches none m.cpu.regs m.outside f →
      ∃ i r, Returns m.step r ∧ m.Paid f i r := by
    intro f hf
    obtain ⟨i, after, ⟨bound, hnext⟩, -, hpaid⟩ := next_published hprompt hdue hf
    exact ⟨i, _, ⟨bound, step_eq_some_iff.mpr ⟨after, hnext, rfl⟩⟩, hpaid⟩
  refine ⟨⟨?_, ?_⟩, ?_⟩
  · rintro ⟨r, bound, hr⟩
    obtain ⟨after, hnext, -⟩ := step_eq_some_iff.mp hr
    obtain ⟨i, hi⟩ := (exists_next_iff hdue).mp ⟨after, hnext⟩
    exact Fetches.exists_of_read hi
  · rintro ⟨f, hf⟩
    obtain ⟨i, r, hr, -⟩ := hstep f hf
    exact ⟨r, hr⟩
  · intro f hf
    exact ⟨by simpa using hf.index_eq_none_iff, hstep f hf⟩

/-- An LDIR behind DD that goes on costs four T-states and twenty-one, and three counts of R. -/
theorem step_published_ldir :
    ∃ (m : Machine (Board Memory)) (f : Front (Board Memory)) (r : UInt32 × Machine (Board Memory)),
      m.bus = Board.blank.load 0 [0xDD, 0xED, 0xB0] ∧ Bus.Prompt m.bus ∧
        m.cpu.due = .instruction ∧ Fetches none m.cpu.regs m.outside f ∧ f.prefixes = 1 ∧
        Returns m.step r ∧ m.Paid f (.block .load .up true) r ∧ r.1 = 4 + 21 ∧
        r.2.cpu.regs.r = 3 := by
  obtain ⟨-, i, r, hr, hpaid⟩ := (step_published ((powerOn .standard (Board.blank.load 0
    [0xDD, 0xED, 0xB0])).mapCpu (·.set16 .bc 2)) (Board.prompt _) rfl).2 _ (.another rfl rfl (.opcode rfl rfl))
  obtain rfl : .block .load .up true = i := hpaid.read
  obtain rfl := Returns.unique (fun hle h => step_mono hle h) hr ⟨2, rfl⟩
  exact ⟨_, _, _, rfl, Board.prompt _, rfl, .another rfl rfl (.opcode rfl rfl), rfl, hr, hpaid, rfl, rfl⟩

end Machine

/-! ### Acceptances and idling

Accepting a request takes an acknowledgement, which is longer for a request that can be masked, and
the push of a word; in mode 2 another word is read from the table of handlers.
-/

/-- T-states of an event in interrupt mode `im`, unless it executes an instruction. -/
def Due.published (im : UInt8) : Due → Option Nat
  | nmi => some 11
  | interrupt _ => some (if im = 2 then 19 else 13)
  | halted => some 4
  | instruction => none

theorem Due.published_eq_none_iff {due : Due} {im : UInt8} :
    due.published im = none ↔ due = .instruction := by
  cases due <;> simp [published]

namespace Cpu

theorem acceptNMI_costs (cpu : Cpu) :
    cpu.acceptNMI.Ensures fun n o => n = 11 ∧ o.cpu.regs.r = (cpu.regs.refresh 1).r := by
  simp [acceptNMI]
  rfl

theorem acceptInterrupt_costs (cpu : Cpu) (data : UInt8) :
    (cpu.acceptInterrupt data).Ensures fun n o =>
      n = (if cpu.regs.im = 2 then 19 else 13) ∧ o.cpu.regs.r = (cpu.regs.refresh 1).r := by
  simp only [acceptInterrupt, Script.ensures_bind, Script.ensures_internal, ensures_push,
    Script.ensures_pure]
  refine (handler_ensures _ data).mono fun n p hn => ⟨?_, rfl⟩
  have htable : n = if cpu.regs.im = 2 then 6 else 0 := hn
  rw [htable]
  split <;> rfl

end Cpu

namespace Machine

variable {m : Machine β}

theorem next_published_otherwise {cost : Nat} (hprompt : Bus.Prompt m.bus)
    (hcost : m.cpu.due.published m.cpu.regs.im = some cost) :
    ∃ after, (∀ bound, m.next bound = some after) ∧ Clock.Elapsed cost m.clock after.clock ∧
      after.cpu.regs.r = (m.cpu.regs.refresh 1).r := by
  cases hdue : m.cpu.due with
  | nmi =>
      rw [hdue, Due.published, Option.some.injEq] at hcost
      obtain ⟨n, ⟨rfl, hr⟩, helapsed⟩ :=
        (Cpu.acceptNMI_costs { m.cpu with shadow := false }).run_prompt hprompt
      exact ⟨_, fun bound => next_of_nmi bound hdue, hcost ▸ helapsed, hr⟩
  | interrupt data =>
      rw [hdue, Due.published, Option.some.injEq] at hcost
      obtain ⟨n, ⟨rfl, hr⟩, helapsed⟩ :=
        (Cpu.acceptInterrupt_costs { m.cpu with shadow := false } data).run_prompt hprompt
      exact ⟨_, fun bound => next_of_interrupt bound hdue, hcost ▸ helapsed, hr⟩
  | halted =>
      rw [hdue, Due.published, Option.some.injEq] at hcost
      exact ⟨_, fun bound => next_of_halted bound hdue, hcost ▸ .advance _ 4, rfl⟩
  | instruction =>
      rw [hdue, Due.published] at hcost
      contradiction

/--
**What is no instruction has its published cost too.**  On a bus without wait states, a step that is
to accept a request or to idle returns whatever the bound.  It says eleven T-states for a non-maskable
interrupt, thirteen for any other, or nineteen in mode 2, and four for the NOP of a halted processor.
The refresh register has counted one.
-/
theorem step_published_otherwise {cost : Nat} (hprompt : Bus.Prompt m.bus)
    (hcost : m.cpu.due.published m.cpu.regs.im = some cost) :
    ∃ r, (∀ bound, m.step bound = some r) ∧ r.1 = .ofNat cost ∧
      r.2.cpu.regs.r = (m.cpu.regs.refresh 1).r := by
  obtain ⟨after, hnext, helapsed, hr⟩ := next_published_otherwise hprompt hcost
  refine ⟨_, fun bound => step_eq_some_iff.mpr ⟨after, hnext bound, rfl⟩, ?_, hr⟩
  show UInt32.ofNat (after.clock.total - m.clock.total) = _
  rw [helapsed.total, Nat.add_sub_cancel_left]

end Machine

end Steps

end Z80
