/-
The text of a line says what a step does.

Two memories may hold different code at the program counter and yet be disassembled to the same text.
The extended table has mirrors of NEG, RETN and IM, there are codes that amount to NOP and prefixes that
are not heeded, and each BIT of an index register has eight codes.  All of these do the same: a text and
its length tell the instruction (`settled_of_text`), how much time it takes to be read and how often the
refresh register counts meanwhile.

What the instruction does then is a matter of its script, which sees the code only where it reads it as
data.  As long as it does not, the two machines stay the same but for the bytes of the line
(`Apart.run`, by induction on the script).
-/
import Z80.Proofs.Assembling
import Z80.Proofs.Board
import Z80.Proofs.Measuring

namespace Z80

/-! ### Instructions that amount to the same -/

namespace Instruction

theorem operands_settled (i : Instruction) : i.settled.operands = i.operands := by
  cases i <;> rfl

theorem pauses_settled (i : Instruction) : i.settled.pauses = i.pauses := by
  cases i <;> rfl

theorem execute_settled (cpu : Cpu) (i : Instruction) : cpu.execute i.settled = cpu.execute i := by
  cases i <;> rfl

end Instruction

/-! ### Memories that differ in places -/

/-- Machines' surroundings that are the same but for the bytes at hidden addresses. -/
structure Apart (hidden : List UInt16) (t u : Timed (Logged (Board Memory))) : Prop where
  clock : u.clock = t.clock
  ports : u.bus.bus.ports = t.bus.bus.ports
  memory : ∀ address ∉ hidden, peek u.bus.bus.memory address = peek t.bus.bus.memory address

namespace Apart

variable {hidden : List UInt16} {t u : Timed (Logged (Board Memory))}

theorem advance (h : Apart hidden t u) (n : Nat) : Apart hidden (t.advance n) (u.advance n) :=
  ⟨congrArg (·.advance n) h.clock, h.ports, h.memory⟩

/-- Accesses are answered alike, but for a look at a hidden address. -/
theorem access (h : Apart hidden t u) (a : Access) (hread : ∀ address ∈ hidden, a ≠ .read address) :
    (u.access a).1 = (t.access a).1 ∧ Apart hidden (t.access a).2 (u.access a).2 := by
  obtain ⟨clock, ⟨⟨memory, ports⟩, log⟩⟩ := t
  obtain ⟨clock', ⟨⟨memory', ports'⟩, log'⟩⟩ := u
  obtain ⟨rfl, rfl, hmemory⟩ := h
  cases a with
  | read address =>
      have hseen : address ∉ hidden := fun hmem => hread address hmem rfl
      exact ⟨hmemory address hseen, rfl, rfl, hmemory⟩
  | write address v =>
      refine ⟨rfl, rfl, rfl, fun address' hseen => ?_⟩
      show peek (Storage.store memory' address v) address' = peek (Storage.store memory address v) address'
      rw [Memory.peek_store, Memory.peek_store]
      by_cases hsame : address = address'
      · rw [if_pos hsame, if_pos hsame]
      · rw [if_neg hsame, if_neg hsame]
        exact hmemory address' hseen
  | input port => exact ⟨rfl, rfl, rfl, hmemory⟩
  | output port v => exact ⟨rfl, rfl, rfl, hmemory⟩

/-- A cycle that does not look at a hidden address brings in the same byte. -/
theorem perform (h : Apart hidden t u) (c : Cycle)
    (hread : ∀ address ∈ hidden, c.access? ≠ some (.read address)) :
    (c.perform u).1 = (c.perform t).1 ∧ Apart hidden (c.perform t).2 (c.perform u).2 := by
  unfold Cycle.perform
  cases hc : c.access? with
  | none => exact ⟨rfl, h.advance _⟩
  | some a =>
      obtain ⟨hdata, haccess⟩ := h.access a fun address hmem heq =>
        hread address hmem (hc.trans (congrArg some heq))
      exact ⟨hdata, haccess.advance _⟩

/-- What a cycle asks for is written down. -/
theorem log_perform (c : Cycle) (t : Timed (Logged (Board Memory))) :
    (c.perform t).2.bus.log = t.bus.log ++ c.access?.toList.map (⟨·, t.clock⟩) := by
  unfold Cycle.perform
  cases c.access? with
  | none => exact (List.append_nil _).symm
  | some a => rfl

/-- **Scripts see only what they look at.**  One that asks for nothing at a hidden address comes to the
same result and asks for the same. -/
theorem run {α : Type} (s : Script α) {asked : List Asked} (h : Apart hidden t u)
    (hasked : (s.run t).2.bus.log = t.bus.log ++ asked)
    (hreads : ∀ address ∈ hidden, .read address ∉ asked.map (·.access)) :
    (s.run u).1 = (s.run t).1 ∧ Apart hidden (s.run t).2 (s.run u).2 ∧
      (s.run u).2.bus.log = u.bus.log ++ asked := by
  induction s generalizing t u asked with
  | done a =>
      obtain rfl : asked = [] := List.self_eq_append_right.mp hasked
      exact ⟨rfl, h, (List.append_nil _).symm⟩
  | cycle c next ih =>
      obtain ⟨-, rest, -, hrest, -⟩ := Along.run (next (c.perform t).1) (c.perform t).2
      rw [Script.run_cycle, hrest, log_perform, List.append_assoc, List.append_cancel_left_eq] at hasked
      subst hasked
      have hread : ∀ address ∈ hidden, c.access? ≠ some (.read address) := by
        intro address hmem hc
        refine hreads address hmem ?_
        rw [hc]
        exact List.mem_cons_self
      have hlater : ∀ address ∈ hidden, .read address ∉ rest.map (·.access) := by
        intro address hmem hlater
        refine hreads address hmem ?_
        rw [List.map_append]
        exact List.mem_append_right _ hlater
      obtain ⟨hdata, hapart⟩ := h.perform c hread
      obtain ⟨hresult, hafter, hlog⟩ := ih (c.perform t).1 hapart hrest hlater
      rw [Script.run_cycle, Script.run_cycle, hdata]
      refine ⟨hresult, hafter, ?_⟩
      rw [hlog, log_perform, List.append_assoc, h.clock]

end Apart

/-! ### Steps -/

/-- A step that reads so many bytes of code at the program counter, and then asks for other things. -/
structure Asks (m : Machine (Board Memory)) (length : Nat) (data : List Asked)
    (r : UInt32 × Machine (Logged (Board Memory))) : Prop where
  logged : Returns m.logged.step r
  step : Returns m.step (r.1, r.2.unlogged)
  log : ∃ code, r.2.bus.log = code ++ data ∧
    code.map (·.access) = (span m.cpu.regs.pc length).map .read

/-- Two steps that take the same time and lead to the same, but for the bytes at hidden addresses. -/
structure SameBut (hidden : List UInt16) (r r' : UInt32 × Machine (Logged (Board Memory))) : Prop where
  time : r'.1 = r.1
  cpu : r'.2.cpu = r.2.cpu
  outside : Apart hidden r.2.outside r'.2.outside

section Line

variable {m m' : Machine (Board Memory)} {length n : Nat} {t t' : Timed (Logged (Board Memory))}
  {s : Script Cpu} {notices notices' : Array Notice} {data : List Asked}

/-- A line that has been read, and then a script: that is a step. -/
theorem Machine.asks_of_next (hscans : Scans n (span m.cpu.regs.pc length) m.logged.outside t)
    (hnext : m.logged.next 2 = some ⟨(s.run t).1, (s.run t).2, notices⟩)
    (hdata : (s.run t).2.bus.log = t.bus.log ++ data) :
    Asks m length data (.ofNat ((s.run t).2.clock.total - m.clock.total),
      (⟨(s.run t).1, (s.run t).2, notices⟩ : Machine (Logged (Board Memory))).takeYield.2) := by
  have hstep : m.logged.step 2 = some (.ofNat ((s.run t).2.clock.total - m.clock.total),
      (⟨(s.run t).1, (s.run t).2, notices⟩ : Machine (Logged (Board Memory))).takeYield.2) :=
    step_eq_some_iff.mpr ⟨_, hnext, rfl⟩
  refine ⟨⟨2, hstep⟩, ⟨2, ?_⟩, t.bus.log, hdata, hscans.accesses⟩
  have hbare := step_unlogged 2 m.logged
  rw [hstep] at hbare
  exact hbare.symm

theorem Apart.takeYield {hidden : List UInt16} {m m' : Machine (Logged (Board Memory))}
    (h : Apart hidden m.outside m'.outside) : Apart hidden m.takeYield.2.outside m'.takeYield.2.outside :=
  ⟨congrArg (·.takeYield.2) h.clock, h.ports, h.memory⟩

end Line

/-- A machine is about to execute the instruction of a line, which is no prefix with another one behind it. -/
structure Disassembles (m : Machine (Board Memory)) (line : Disassembly) : Prop where
  due : m.cpu.due = .instruction
  line : Disassembly.instructionAt m.bus m.cpu.regs.pc = line
  whole : ¬ (Disassembly.isIndex m.bus m.cpu.regs.pc = true ∧
    Disassembly.isIndex m.bus (m.cpu.regs.pc + 1) = true)

/-- A machine reads the line at the program counter, and executes what amounts to its instruction. -/
theorem Disassembles.next {m : Machine (Board Memory)} {line : Disassembly} (h : Disassembles m line) :
    let i := (Disassembly.decode m.bus m.cpu.regs.pc).1.settled
    ∃ t notices, Scans (4 * (line.length - i.operands) + 3 * i.operands + i.pauses)
        (span m.cpu.regs.pc line.length) m.logged.outside t ∧
      m.logged.next 2 = some ⟨(((m.cpu.having i line.length).execute i).run t).1,
        (((m.cpu.having i line.length).execute i).run t).2, notices⟩ := by
  have hvoid : (Disassembly.isIndex m.bus m.cpu.regs.pc &&
      Disassembly.isIndex m.bus (m.cpu.regs.pc + 1)) = false :=
    Bool.eq_false_iff.mpr fun hboth => h.whole (Bool.and_eq_true_iff.mp hboth)
  have hlength : (Disassembly.decode m.bus m.cpu.regs.pc).2 = line.length := by
    rw [← Disassembly.length_eq, h.line]
  obtain ⟨-, t, hscans, hnext⟩ := Machine.next_line (m := m.logged) h.due hvoid
    (Prod.ext rfl hlength : Disassembly.decode m.bus m.cpu.regs.pc = (_, line.length))
  have hexecute : ∀ i : Instruction, (m.cpu.having i.settled line.length).execute i.settled =
      (m.cpu.having i line.length).execute i := by
    intro i
    rw [Instruction.execute_settled, Cpu.having, Cpu.having, Instruction.operands_settled]
  dsimp only
  rw [hexecute, Instruction.operands_settled, Instruction.pauses_settled]
  exact ⟨t, _, hscans, hnext⟩

/--
**The text of a line says what a step does.**  Take two machines on plain boards that are about to execute
an instruction and differ in nothing but the bytes of the line at the program counter.  If this line is
disassembled to the same text with the same length on both, and on neither is a prefix with another one
behind it, then a step takes the same time on both and leads to the same registers, the same flip-flops and
the same memory of computed flags, and it asks for the same things behind the code, if none of these is a
look at the code.
-/
theorem Machine.text_identifies {m m' : Machine (Board Memory)} {line : Disassembly}
    (h : Disassembles m line) (h' : Disassembles m' line) (hcpu : m'.cpu = m.cpu)
    (hapart : Apart (span m.cpu.regs.pc line.length) m.logged.outside m'.logged.outside) :
    ∃ r r' data data', Asks m line.length data r ∧ Asks m' line.length data' r' ∧
      ((∀ address ∈ span m.cpu.regs.pc line.length, .read address ∉ data.map (·.access)) →
        data' = data ∧ SameBut (span m.cpu.regs.pc line.length) r r') := by
  have htext : (Disassembly.decode m'.bus m.cpu.regs.pc).1.settled =
      (Disassembly.decode m.bus m.cpu.regs.pc).1.settled := by
    have hline' : Disassembly.instructionAt m'.bus m.cpu.regs.pc = line := hcpu ▸ h'.line
    exact Disassembly.settled_of_text (hline'.trans h.line.symm)
  obtain ⟨t, notices, hscans, hnext⟩ := h.next
  obtain ⟨t', notices', hscans', hnext'⟩ := h'.next
  rw [hcpu, htext] at hscans' hnext'
  generalize (Disassembly.decode m.bus m.cpu.regs.pc).1.settled = i at hscans hnext hscans' hnext'
  generalize (m.cpu.having i line.length).execute i = s at hnext hnext'
  obtain ⟨-, data, -, hdata, -⟩ := Along.run s t
  obtain ⟨-, data', -, hdata', -⟩ := Along.run s t'
  have hbefore : Apart (span m.cpu.regs.pc line.length) t t' := by
    refine ⟨?_, ?_, ?_⟩
    · rw [hscans.clock, hscans'.clock, hapart.clock]
    · rw [hscans.bus, hscans'.bus]
      exact hapart.ports
    · rw [hscans.bus, hscans'.bus]
      exact hapart.memory
  refine ⟨_, _, data, data', asks_of_next hscans hnext hdata,
    asks_of_next (hcpu ▸ hscans') hnext' hdata', fun hreads => ?_⟩
  obtain ⟨hresult, hafter, hlog⟩ := hbefore.run s hdata hreads
  have hclock : m'.clock = m.clock := hapart.clock
  refine ⟨List.append_cancel_left (hdata'.symm.trans hlog), ?_, hresult, hafter.takeYield⟩
  show UInt32.ofNat _ = UInt32.ofNat _
  rw [hafter.clock, hclock]

/-- Two of the eight codes of a BIT beside an index register, which looks at a byte behind the code. -/
theorem Machine.text_identifies_bit :
    ∃ m m' : Machine (Board Memory),
      m.bus = Board.blank.load 0 [0xDD, 0xCB, 0x10, 0x40] ∧
      m'.bus = Board.blank.load 0 [0xDD, 0xCB, 0x10, 0x46] ∧ m'.cpu = m.cpu ∧
      Apart (span m.cpu.regs.pc 4) m.logged.outside m'.logged.outside ∧
      Disassembles m ⟨"BIT 0,(IX+16)", 4⟩ ∧ Disassembles m' ⟨"BIT 0,(IX+16)", 4⟩ ∧
      ∃ r r' data, Asks m 4 data r ∧ Asks m' 4 data r' ∧
        (∀ address ∈ span m.cpu.regs.pc 4, .read address ∉ data.map (·.access)) ∧
        SameBut (span m.cpu.regs.pc 4) r r' := by
  let m := powerOn .standard (Board.blank.load 0 [0xDD, 0xCB, 0x10, 0x40])
  let m' := powerOn .standard (Board.blank.load 0 [0xDD, 0xCB, 0x10, 0x46])
  have hapart : Apart (span 0 4) m.logged.outside m'.logged.outside := by
    refine ⟨rfl, rfl, fun address hseen => ?_⟩
    have hlast : ¬ (3 : UInt16) = address := fun heq => hseen (heq ▸ by decide)
    let code : Memory := Storage.store (Storage.store (Storage.store Memory.blank 0 0xDD) 1 0xCB) 2 0x10
    have hbyte : ∀ v, peek (Storage.store code 3 v) address = peek code address := by
      intro v
      rw [Memory.peek_store, if_neg hlast]
    exact (hbyte 0x46).trans (hbyte 0x40).symm
  have hline : Disassembly.instructionAt (Board.blank.load 0 [0xDD, 0xCB, 0x10, 0x40]) 0 =
      ⟨"BIT 0,(IX+16)", 4⟩ := by decide
  have hline' : Disassembly.instructionAt (Board.blank.load 0 [0xDD, 0xCB, 0x10, 0x46]) 0 =
      ⟨"BIT 0,(IX+16)", 4⟩ := by decide
  have h : Disassembles m ⟨"BIT 0,(IX+16)", 4⟩ := ⟨rfl, hline, by decide⟩
  have h' : Disassembles m' ⟨"BIT 0,(IX+16)", 4⟩ := ⟨rfl, hline', by decide⟩
  obtain ⟨r, r', data, data', hasks, hasks', hsame⟩ := text_identifies h h' rfl hapart
  have hlogged : ((powerOn .standard (Board.blank.load 0 [0xDD, 0xCB, 0x10, 0x40])).logged.step 2).map
      (fun r => r.2.bus.log.map (·.access)) = some ((span 0 4).map .read ++ [.read 0x0010]) := by decide
  have hdata : data.map (·.access) = [.read 0x0010] := by
    obtain ⟨r₂, hstep, hall⟩ := Option.map_eq_some_iff.mp hlogged
    obtain rfl : r = r₂ := Returns.unique (fun hle h => step_mono hle h) hasks.logged ⟨2, hstep⟩
    obtain ⟨code, hlog, hcode⟩ := hasks.log
    rw [hlog, List.map_append, hcode] at hall
    exact List.append_cancel_left hall
  have hreads : ∀ address ∈ span m.cpu.regs.pc 4, .read address ∉ data.map (·.access) := by
    have hbehind : ∀ address ∈ span 0 4, address ≠ 0x0010 := by simp [span]
    intro address hmem hread
    rw [hdata, List.mem_singleton] at hread
    exact hbehind address hmem (Access.read.inj hread)
  obtain ⟨rfl, hbut⟩ := hsame hreads
  exact ⟨m, m', rfl, rfl, rfl, hapart, h, h', r, r', data', hasks, hasks', hreads, hbut⟩

end Z80
