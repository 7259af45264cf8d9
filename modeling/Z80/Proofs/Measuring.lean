/-
How much there is of an instruction.

The bytes of an instruction are opcodes and operands.  How many of them are operands can be told from
the instruction alone (`Instruction.operands`), and so can whether the processor pauses while it reads
them: nowhere in the opcode tables do two codes of one instruction differ in that.  The rest of an
instruction is opcodes, and of those there may be any number, since prefixes are.

So the reading of an instruction on a plain bus comes to known ends.  If it has `L` bytes then the
program counter moves by `L`, the refresh register counts all but the operands, and the time is four
T-states for each opcode and three for each operand (`run_instruction_measured`).
-/
import Z80.Proofs.Disassembly
import Z80.Proofs.Progress

namespace Z80

/-! ### Operands -/

namespace Instruction

/-- The operand bytes that belong to an instruction, whichever of its codes is used. -/
def operands : Instruction → Nat
  | loadImmediate .. | jumpRelative _ | jumpRelativeIf .. | djnz _ | inputA _ | outputA _
  | accumulate _ (.immediate _) => 1
  | loadFrom _ p | storeTo p _ | accumulate _ (.memory p) | incrementAt p | decrementAt p => p.pick 0 1
  | storeImmediate p _ => p.pick 1 2
  | modifyAt _ p _ | testAt _ p => p.pick 0 2
  | loadADirect _ | storeADirect _ | loadPair .. | loadPairDirect .. | storePairDirect .. | jump _
  | jumpIf .. | call _ | callIf .. => 2
  | _ => 0

/-- T-states for which the processor pauses while it reads an instruction. -/
def pauses : Instruction → Nat
  | djnz _ => 1
  | _ => 0

end Instruction

/-! ### Reading -/

namespace Encoding

variable {α γ : Type}

/-- Whatever is read, it is an `a` with `o` operands and `n` T-states of pauses in it, such that `P o n a`. -/
def Counts : Encoding α → (Nat → Nat → α → Prop) → Prop
  | done a, P => P 0 0 a
  | opcode next, P => ∀ b, (next b).Counts P
  | operand next, P => ∀ b, (next b).Counts fun o n a => P (1 + o) n a
  | pause length next, P => next.Counts fun o n a => P o (length + n) a

@[simp] theorem counts_pure (a : α) (P : Nat → Nat → α → Prop) :
    (pure a : Encoding α).Counts P ↔ P 0 0 a := Iff.rfl

@[simp] theorem counts_pause (length : Nat) (next : Encoding α) (P : Nat → Nat → α → Prop) :
    (pause length next).Counts P ↔ next.Counts fun o n a => P o (length + n) a := Iff.rfl

@[simp] theorem counts_bind (e : Encoding α) (g : α → Encoding γ) (P : Nat → Nat → γ → Prop) :
    (e >>= g).Counts P ↔ e.Counts fun o n a => (g a).Counts fun o' n' c => P (o + o') (n + n') c := by
  induction e generalizing P with
  | done a =>
      show (g a).Counts P ↔ (g a).Counts fun o n c => P (0 + o) (0 + n) c
      simp only [Nat.zero_add]
  | opcode next ih =>
      show (∀ b, (next b >>= g).Counts _) ↔ ∀ b, (next b).Counts _
      simp only [ih]
  | operand next ih =>
      show (∀ b, (next b >>= g).Counts _) ↔ ∀ b, (next b).Counts _
      simp only [ih, Nat.add_assoc]
  | pause length next ih =>
      show (next >>= g).Counts _ ↔ next.Counts _
      simp only [ih, Nat.add_assoc]

@[simp] theorem counts_map (g : α → γ) (e : Encoding α) (P : Nat → Nat → γ → Prop) :
    (g <$> e).Counts P ↔ e.Counts fun o n a => P o n (g a) := by
  rw [← bind_pure_comp, counts_bind]
  rfl

@[simp] theorem counts_ite (p : Prop) [Decidable p] (e e' : Encoding α) (P : Nat → Nat → α → Prop) :
    (if p then e else e').Counts P ↔ (p → e.Counts P) ∧ (¬ p → e'.Counts P) := by
  split <;> simp_all

@[simp] theorem counts_byte (P : Nat → Nat → UInt8 → Prop) : byte.Counts P ↔ ∀ b, P 1 0 b := Iff.rfl

@[simp] theorem counts_displacement (P : Nat → Nat → Int8 → Prop) :
    displacement.Counts P ↔ ∀ b : UInt8, P 1 0 b.toInt8 := Iff.rfl

@[simp] theorem counts_word (P : Nat → Nat → UInt16 → Prop) :
    word.Counts P ↔ ∀ low high, P 2 0 (Word.ofBytes high low) := Iff.rfl

theorem Counts.mono {e : Encoding α} {P Q : Nat → Nat → α → Prop} (h : e.Counts P)
    (hPQ : ∀ o n a, P o n a → Q o n a) : e.Counts Q := by
  induction e generalizing P Q with
  | done a => exact hPQ 0 0 a h
  | opcode next ih => exact fun b => ih b (h b) hPQ
  | operand next ih => exact fun b => ih b (h b) fun o n a => hPQ (1 + o) n a
  | pause length next ih => exact ih h fun o n a => hPQ o (length + n) a

end Encoding

/-! ### The opcode tables -/

/-- What has been read has the operands and the pauses of its instruction. -/
def Instruction.Measures (operands pauses : Nat) (i : Instruction) : Prop :=
  operands = i.operands ∧ pauses = i.pauses

namespace Opcode

open Encoding Instruction

@[simp] theorem counts_pointer (index : Option Index) (P : Nat → Nat → Pointer → Prop) :
    (pointer index).Counts P ↔
      match index with
      | none => P 0 0 .hl
      | some base => ∀ b : UInt8, P 1 0 (.indexed base b.toInt8) := by
  cases index <;> rfl

@[simp] theorem measures_ite (o n : Nat) (p : Prop) [Decidable p] (i i' : Instruction) :
    Measures o n (if p then i else i') ↔ (p → Measures o n i) ∧ (¬ p → Measures o n i') := by
  split <;> simp_all

theorem firstQuarter_measures (index : Option Index) (y z : Nat) :
    (firstQuarter index y z).Counts Measures := by
  unfold firstQuarter
  split <;> (try split) <;> cases index <;> simp
  all_goals simp [Measures, operands, pauses, Pointer.pick]

theorem secondQuarter_measures (index : Option Index) (y z : Nat) :
    (secondQuarter index y z).Counts Measures := by
  unfold secondQuarter
  split <;> cases index <;> simp
  all_goals simp [Measures, operands, pauses, Pointer.pick]

theorem thirdQuarter_measures (index : Option Index) (y z : Nat) :
    (thirdQuarter index y z).Counts Measures := by
  unfold thirdQuarter
  split <;> cases index <;> simp
  all_goals simp [Measures, operands, pauses, Pointer.pick]

theorem fourthQuarter_measures (index : Option Index) (y z : Nat) :
    (fourthQuarter index y z).Counts Measures := by
  unfold fourthQuarter
  split <;> (try split) <;> simp
  all_goals simp [Measures, operands, pauses]

theorem main_measures (index : Option Index) (op : UInt8) : (main index op).Counts Measures := by
  unfold main
  split
  · exact firstQuarter_measures index _ _
  · exact secondQuarter_measures index _ _
  · exact thirdQuarter_measures index _ _
  · exact fourthQuarter_measures index _ _

theorem bit_measures (op : UInt8) : Measures 0 0 (bit op) := by
  unfold bit
  split <;> exact ⟨rfl, rfl⟩

theorem indexedBit_measures (base : Index) (d : Int8) (op : UInt8) :
    Measures 2 0 (indexedBit base d op) := by
  unfold indexedBit
  split <;> exact ⟨rfl, rfl⟩

theorem extendedQuarter_measures (op : UInt8) : (extendedQuarter op).Counts Measures := by
  unfold extendedQuarter
  split <;> simp
  case h_7 => split <;> exact ⟨rfl, rfl⟩
  case h_8 => split <;> exact ⟨rfl, rfl⟩
  all_goals simp [Measures, operands, pauses]

theorem extended_measures : extended.Counts Measures := by
  intro op
  dsimp only
  split
  · exact extendedQuarter_measures op
  · split <;> exact ⟨rfl, rfl⟩

theorem unprefixed_measures (index : Option Index) (op : UInt8) :
    (unprefixed index op).Counts Measures := by
  unfold unprefixed
  by_cases hCB : op = 0xCB
  · rw [if_pos hCB]
    cases index with
    | none => exact bit_measures
    | some base => exact fun d op => indexedBit_measures base d.toInt8 op
  · rw [if_neg hCB]
    by_cases hED : op = 0xED
    · rw [if_pos hED]
      exact extended_measures
    · rw [if_neg hED]
      exact main_measures index op

/-- Prefixes are opcodes, of which any number may be read. -/
theorem instruction_measures (bound : Nat) (index : Option Index) :
    (instruction bound index).Counts fun o n i? => ∀ i, i? = some i → Measures o n i := by
  induction bound generalizing index with
  | zero => exact fun i hi => absurd hi (by simp)
  | succ bound ih =>
      intro op
      cases hop : Index.ofByte? op with
      | some j =>
          simp only [hop]
          exact ih (some j)
      | none =>
          simp only [hop, counts_map, Option.some.injEq]
          refine (unprefixed_measures index op).mono ?_
          rintro o n i h _ rfl
          exact h

end Opcode

/-! ### On a plain bus -/

section Plain

variable {β : Type}

/-- So many T-states have passed, in which nothing was done but to read at some addresses. -/
structure Scans (n : Nat) (addresses : List UInt16) (t t' : Timed (Logged β)) : Prop where
  clock : t'.clock = t.clock.advance n
  bus : t'.bus.bus = t.bus.bus
  accesses : t'.bus.log.map (·.access) = t.bus.log.map (·.access) ++ addresses.map .read

theorem Scans.trans {m n : Nat} {before after : List UInt16} {t t' t'' : Timed (Logged β)}
    (h : Scans m before t t') (h' : Scans n after t' t'') : Scans (m + n) (before ++ after) t t'' := by
  refine ⟨?_, h'.bus.trans h.bus, ?_⟩
  · rw [h'.clock, h.clock, Clock.advance_advance]
  · rw [h'.accesses, h.accesses, List.map_append, List.append_assoc]

variable [Bus β] [View β] [Plain β]

/-- A fetch or a read brings the byte in view. -/
theorem Plain.perform_scans {c : Cycle} {address : UInt16} (hc : c.access? = some (.read address))
    (t : Timed (Logged β)) :
    (c.perform t).1 = peek t.bus.bus address ∧ Scans c.length [address] t (c.perform t).2 := by
  have hreply : Bus.respond t.bus t.clock (.read address) =
      ⟨peek t.bus.bus address, 0, false, ⟨t.bus.bus, t.bus.log ++ [⟨.read address, t.clock⟩]⟩⟩ := by
    show (⟨_, _, _, _⟩ : Reply (Logged β)) = _
    rw [Plain.read]
  have hperform : c.perform t = (peek t.bus.bus address,
      ⟨t.clock.advance c.length, ⟨t.bus.bus, t.bus.log ++ [⟨.read address, t.clock⟩]⟩⟩) := by
    simp only [Cycle.perform, hc, Timed.access, hreply, Clock.advance_zero]
    rfl
  rw [hperform]
  exact ⟨rfl, rfl, rfl, List.map_append⟩

namespace Encoding

variable {α : Type}

/-- **Reading brings what a look brings, and its time and its fetches are known.** -/
theorem Counts.run {e : Encoding α} {P : Nat → Nat → α → Prop} (h : e.Counts P) (r : Registers)
    (t : Timed (Logged β)) :
    ∃ o n t', P o n (e.view t.bus.bus r.pc).1 ∧ o ≤ (e.view t.bus.bus r.pc).2 ∧
      (e.script r).run t = (((e.view t.bus.bus r.pc).1,
        ({ r with pc := r.pc + .ofNat (e.view t.bus.bus r.pc).2 } : Registers).refresh
          ((e.view t.bus.bus r.pc).2 - o)), t') ∧
      Scans (4 * ((e.view t.bus.bus r.pc).2 - o) + 3 * o + n)
        (span r.pc (e.view t.bus.bus r.pc).2) t t' := by
  induction e generalizing P r t with
  | done a =>
      refine ⟨0, 0, t, h, Nat.le_refl 0, ?_, (Clock.advance_zero _).symm, rfl, (List.append_nil _).symm⟩
      simp [script, Script.run, view, Registers.refresh_zero]
  | opcode next ih =>
      obtain ⟨hbyte, hfetch⟩ := Plain.perform_scans (c := .fetch r.pc) rfl t
      obtain ⟨o, n, t', hP, ho, hrun, hrest⟩ := ih (peek t.bus.bus r.pc) (h _)
        (({ r with pc := r.pc + 1 } : Registers).refresh 1) ((Cycle.fetch r.pc).perform t).2
      have hpc : (({ r with pc := r.pc + 1 } : Registers).refresh 1).pc = r.pc + 1 := rfl
      rw [hfetch.bus, hpc] at hP ho hrun hrest
      simp only [view, script, Script.run_cycle, hbyte]
      refine ⟨o, n, t', hP, Nat.le_succ_of_le ho, ?_, ?_⟩
      · have hcount : 1 + (((next (peek t.bus.bus r.pc)).view t.bus.bus (r.pc + 1)).2 - o) =
            ((next (peek t.bus.bus r.pc)).view t.bus.bus (r.pc + 1)).2 + 1 - o := by omega
        rw [hrun, ← hcount, ← Registers.refresh_refresh, add_one_add_ofNat]
        rfl
      · have htime : (Cycle.fetch r.pc).length +
            (4 * (((next (peek t.bus.bus r.pc)).view t.bus.bus (r.pc + 1)).2 - o) + 3 * o + n) =
            4 * (((next (peek t.bus.bus r.pc)).view t.bus.bus (r.pc + 1)).2 + 1 - o) + 3 * o + n := by
          simp only [Cycle.length]
          omega
        rw [← htime]
        exact hfetch.trans hrest
  | operand next ih =>
      obtain ⟨hbyte, hread⟩ := Plain.perform_scans (c := .read r.pc) rfl t
      obtain ⟨o, n, t', hP, ho, hrun, hrest⟩ := ih (peek t.bus.bus r.pc) (h _)
        { r with pc := r.pc + 1 } ((Cycle.read r.pc).perform t).2
      have hpc : ({ r with pc := r.pc + 1 } : Registers).pc = r.pc + 1 := rfl
      rw [hread.bus, hpc] at hP ho hrun hrest
      simp only [view, script, Script.run_cycle, hbyte]
      refine ⟨1 + o, n, t', hP, by omega, ?_, ?_⟩
      · rw [hrun, Nat.add_comm 1 o, Nat.add_sub_add_right, add_one_add_ofNat]
      · have htime : (Cycle.read r.pc).length +
            (4 * (((next (peek t.bus.bus r.pc)).view t.bus.bus (r.pc + 1)).2 - o) + 3 * o + n) =
            4 * (((next (peek t.bus.bus r.pc)).view t.bus.bus (r.pc + 1)).2 + 1 - (1 + o)) +
              3 * (1 + o) + n := by
          simp only [Cycle.length]
          omega
        rw [← htime]
        exact hread.trans hrest
  | pause length next ih =>
      obtain ⟨o, n, t', hP, ho, hrun, hrest⟩ := ih h r (t.advance length)
      have hpause : Scans length [] t (t.advance length) := ⟨rfl, rfl, (List.append_nil _).symm⟩
      refine ⟨o, length + n, t', hP, ho, hrun, ?_⟩
      rw [Nat.add_left_comm]
      exact hpause.trans hrest

end Encoding

namespace Opcode

variable {r : Registers} {t : Timed (Logged β)} {k : Nat}

/-- **A whole instruction is read in a known way**, if it stands behind a chain of prefixes. -/
theorem run_instruction_measured {i : Instruction} {rest : Nat} (hchain : Chain t.bus.bus r.pc k)
    (hbehind : behind t.bus.bus r.pc k none = (i, rest)) :
    i.operands ≤ k + 1 + rest ∧ ∃ t', ((instruction (k + 1) none).script r).run t =
        ((some i, ({ r with pc := r.pc + .ofNat (k + 1 + rest) } : Registers).refresh
          (k + 1 + rest - i.operands)), t') ∧
      Scans (4 * (k + 1 + rest - i.operands) + 3 * i.operands + i.pauses)
        (span r.pc (k + 1 + rest)) t t' := by
  obtain ⟨o, n, t', hmeasures, ho, hrun, hscans⟩ := (instruction_measures (k + 1) none).run r t
  rw [view_instruction hchain (Nat.lt_succ_self k) none, hbehind] at hmeasures ho hrun hscans
  obtain ⟨rfl, rfl⟩ := hmeasures _ rfl
  exact ⟨ho, t', hrun, hscans⟩

end Opcode

/-- The processor when an instruction of so many bytes has been read. -/
def Cpu.having (cpu : Cpu) (i : Instruction) (count : Nat) : Cpu :=
  { ({ cpu with shadow := false } : Cpu).beginEvent with
    regs := ({ cpu.regs with pc := cpu.regs.pc + .ofNat count } : Registers).refresh (count - i.operands) }

/-- A line that is no void prefix is an instruction behind a chain of prefixes. -/
theorem Disassembly.exists_chain {μ : Type} [View μ] {m : μ} {start : UInt16} {i : Instruction}
    {length : Nat} (hvoid : (isIndex m start && isIndex m (start + 1)) = false)
    (hdecode : decode m start = (i, length)) :
    ∃ k rest, Chain m start k ∧ Opcode.behind m start k none = (i, rest) ∧ k ≤ 1 ∧
      length = k + 1 + rest := by
  rcases void_or_chain m start with ⟨hfirst, hsecond⟩ | hchain | hchain
  · rw [hfirst, hsecond] at hvoid
    exact absurd hvoid (by decide)
  · rw [decode_nil hchain] at hdecode
    obtain ⟨rfl, rfl⟩ := Prod.mk.inj hdecode
    exact ⟨0, (Opcode.behind m start 0 none).2, hchain, rfl, by omega, by omega⟩
  · rw [decode_last hchain] at hdecode
    obtain ⟨rfl, rfl⟩ := Prod.mk.inj hdecode
    exact ⟨1, (Opcode.behind m start 1 none).2, hchain, rfl, Nat.le_refl 1, rfl⟩

/-- **A line that is due is read, and then its instruction is executed.**  It has one prefix at most. -/
theorem Machine.next_line {m : Machine (Logged β)} {i : Instruction} {length : Nat}
    (hdue : m.cpu.due = .instruction)
    (hvoid : (Disassembly.isIndex m.bus.bus m.cpu.regs.pc &&
      Disassembly.isIndex m.bus.bus (m.cpu.regs.pc + 1)) = false)
    (hdecode : Disassembly.decode m.bus.bus m.cpu.regs.pc = (i, length)) :
    i.operands ≤ length ∧ ∃ t,
      Scans (4 * (length - i.operands) + 3 * i.operands + i.pauses) (span m.cpu.regs.pc length)
        m.outside t ∧
      m.next 2 = some ⟨(((m.cpu.having i length).execute i).run t).1,
        (((m.cpu.having i length).execute i).run t).2,
        m.notices ++ (Cpu.remarks (m.cpu.regs.pc + .ofNat length) i).toArray⟩ := by
  obtain ⟨k, rest, hchain, hbehind, hk, rfl⟩ := Disassembly.exists_chain hvoid hdecode
  obtain ⟨hoperands, t, hread, hscans⟩ :=
    Opcode.run_instruction_measured (t := m.outside) hchain hbehind
  exact ⟨hoperands, t, hscans, next_mono (by omega) (next_of_read hdue hread)⟩

end Plain

end Z80
