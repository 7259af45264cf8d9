/-
Block instructions that repeat themselves.

A repeating block instruction knows of no loop.  It goes one round, like its single form, and if
there is more to do it puts the program counter back onto its own two bytes, so that the next
step reads it from memory again.  What a round makes of the main registers and of the board is
`BlockOp.round`, for both forms alike (`run_single`, `run_repeating`), and whether there is more to
do can be told from the registers afterwards (`BlockOp.more`).

`Poised.completes` puts the steps together.  As long as the code is still there when it is read
again, and no interrupt is accepted on the way, the machine goes round until there is no more to do,
and what it then holds is what the single form makes of it when it is carried out as many times
(`run_times`).  The induction is on the rounds, and `Midway` is what holds between two of them.
-/
import Z80.Proofs.Board
import Z80.Proofs.Timing

namespace Z80

/-! ### Counting -/

theorem sub_ofNat_sub_one (w : UInt16) (k : Nat) : w - .ofNat k - 1 = w - .ofNat (k + 1) := by
  rw [UInt16.ofNat_add]
  show _ = w - (UInt16.ofNat k + 1)
  grind

theorem byte_sub_ofNat_sub_one (b : UInt8) (k : Nat) : b - .ofNat k - 1 = b - .ofNat (k + 1) := by
  rw [UInt8.ofNat_add]
  show _ = b - (UInt8.ofNat k + 1)
  grind

namespace Direction

/-- The address that is `n` bytes further on. -/
def along : Direction → UInt16 → Nat → UInt16
  | up, address, n => address + .ofNat n
  | down, address, n => address - .ofNat n

@[simp] theorem along_zero (d : Direction) (address : UInt16) : d.along address 0 = address := by
  cases d
  · exact UInt16.add_zero address
  · exact UInt16.sub_zero address

@[simp] theorem next_along (d : Direction) (address : UInt16) (n : Nat) :
    d.next (d.along address n) = d.along address (n + 1) := by
  cases d
  · show address + .ofNat n + 1 = address + .ofNat (n + 1)
    rw [UInt16.ofNat_add, ← UInt16.add_assoc]
    rfl
  · exact sub_ofNat_sub_one address n

end Direction

/--
How many times a counter with `size` values is counted down until it is zero.  It is counted down
before it is looked at, so from zero it goes through all values.
-/
def countdown (size value : Nat) : Nat := if value = 0 then size else value

theorem countdown_cases (size value : Nat) :
    value = 0 ∧ countdown size value = size ∨ 0 < value ∧ countdown size value = value := by
  by_cases hzero : value = 0
  · exact .inl ⟨hzero, if_pos hzero⟩
  · exact .inr ⟨Nat.pos_of_ne_zero hzero, if_neg hzero⟩

theorem countdown_pos {size : Nat} (hsize : 0 < size) (value : Nat) : 0 < countdown size value := by
  have hcases := countdown_cases size value
  omega

theorem countdown_le {size value : Nat} (h : value < size) : countdown size value ≤ size := by
  have hcases := countdown_cases size value
  omega

/-- A word is counted down to zero when all of the count is through, and not before. -/
theorem sub_ofNat_eq_zero_iff {w : UInt16} {k : Nat} (hk : 0 < k)
    (hle : k ≤ countdown 65536 w.toNat) : w - .ofNat k = 0 ↔ k = countdown 65536 w.toNat := by
  have hlt := w.toNat_lt
  have hcases := countdown_cases 65536 w.toNat
  rw [← UInt16.toNat_inj, UInt16.toNat_sub, UInt16.toNat_ofNat', UInt16.toNat_zero]
  omega

/-- And so is a byte. -/
theorem byte_sub_ofNat_eq_zero_iff {b : UInt8} {k : Nat} (hk : 0 < k)
    (hle : k ≤ countdown 256 b.toNat) : b - .ofNat k = 0 ↔ k = countdown 256 b.toNat := by
  have hlt := b.toNat_lt
  have hcases := countdown_cases 256 b.toNat
  rw [← UInt8.toNat_inj, UInt8.toNat_sub, UInt8.toNat_ofNat', UInt8.toNat_zero]
  omega

/-! ### One round -/

namespace RegisterSet

/-- The main registers with flags put into F. -/
def withFlags (s : RegisterSet) (f : Flags) : RegisterSet := { s with f := f.toByte }

variable (s : RegisterSet) (w : UInt16) (f : Flags)

@[simp] theorem hl_setHL : (s.setHL w).hl = w := Word.ofBytes_high_low w
@[simp] theorem de_setHL : (s.setHL w).de = s.de := rfl
@[simp] theorem bc_setHL : (s.setHL w).bc = s.bc := rfl
@[simp] theorem hl_setDE : (s.setDE w).hl = s.hl := rfl
@[simp] theorem de_setDE : (s.setDE w).de = w := Word.ofBytes_high_low w
@[simp] theorem bc_setDE : (s.setDE w).bc = s.bc := rfl
@[simp] theorem hl_setBC : (s.setBC w).hl = s.hl := rfl
@[simp] theorem de_setBC : (s.setBC w).de = s.de := rfl
@[simp] theorem bc_setBC : (s.setBC w).bc = w := Word.ofBytes_high_low w
@[simp] theorem hl_withFlags : (s.withFlags f).hl = s.hl := rfl
@[simp] theorem de_withFlags : (s.withFlags f).de = s.de := rfl
@[simp] theorem bc_withFlags : (s.withFlags f).bc = s.bc := rfl
@[simp] theorem flags_withFlags : Flags.ofByte (s.withFlags f).f = f := Flags.ofByte_toByte f

end RegisterSet

namespace BlockOp

/-- The code of a repeating block instruction behind ED. -/
def code : BlockOp → Direction → UInt8
  | load, .up => 0xB0
  | load, .down => 0xB8
  | compare, .up => 0xB1
  | compare, .down => 0xB9
  | input, .up => 0xB2
  | input, .down => 0xBA
  | output, .up => 0xB3
  | output, .down => 0xBB

/-- The two bytes of a repeating block instruction stand in memory. -/
def StandsAt (op : BlockOp) (d : Direction) (memory : Memory) (address : UInt16) : Prop :=
  peek memory address = 0xED ∧ peek memory (address + 1) = op.code d

/-- None of the changes before the last of `n` alters one of the two bytes at an address. -/
def Spares (memory : Nat → Memory) (address : UInt16) (n : Nat) : Prop :=
  ∀ k, k + 1 < n → peek (memory (k + 1)) address = peek (memory k) address ∧
    peek (memory (k + 1)) (address + 1) = peek (memory k) (address + 1)

theorem Spares.standsAt {memory : Nat → Memory} {address : UInt16} {n : Nat} {op : BlockOp}
    {d : Direction} (h : Spares memory address n) (hcode : op.StandsAt d (memory 0) address) :
    ∀ k < n, op.StandsAt d (memory k) address := by
  intro k
  induction k with
  | zero =>
      intro _
      exact hcode
  | succ k ih =>
      intro hk
      obtain ⟨hED, hop⟩ := ih (by omega)
      obtain ⟨hfirst, hsecond⟩ := h k hk
      exact ⟨hfirst.trans hED, hsecond.trans hop⟩

/-- The main registers and the board after one round. -/
def round (op : BlockOp) (d : Direction) :
    RegisterSet × Board Memory → RegisterSet × Board Memory
  | (s, b) =>
    match op with
    | load =>
        let value := peek b.memory s.hl
        let moved := ((s.setHL (d.next s.hl)).setDE (d.next s.de)).setBC (s.bc - 1)
        (moved.withFlags (Alu.blockLoaded (.ofByte s.f) s.a value (moved.bc != 0)),
          { b with memory := Storage.store b.memory s.de value })
    | compare =>
        let value := peek b.memory s.hl
        let moved := (s.setHL (d.next s.hl)).setBC (s.bc - 1)
        (moved.withFlags (Alu.blockCompared (.ofByte s.f) s.a value (moved.bc != 0)), b)
    | input =>
        let value := b.ports.input s.bc
        let moved := { s.setHL (d.next s.hl) with b := s.b - 1 }
        let sum := value.toNat + (Word.low (d.next s.bc)).toNat
        (moved.withFlags (Alu.blockPorted value sum moved.b),
          { b with memory := Storage.store b.memory s.hl value })
    | output =>
        let value := peek b.memory s.hl
        let moved := { s.setHL (d.next s.hl) with b := s.b - 1 }
        let sum := value.toNat + moved.l.toNat
        (moved.withFlags (Alu.blockPorted value sum moved.b),
          { b with ports := b.ports.output moved.bc value })

/-- Is there more to do after a round? -/
def more : BlockOp → RegisterSet → Bool
  | load, s => s.bc != 0
  | compare, s => s.bc != 0 && !(Flags.ofByte s.f).zero
  | input, s | output, s => s.b != 0

/-- The main registers and the board after a number of rounds. -/
def rounds (op : BlockOp) (d : Direction) (start : RegisterSet × Board Memory) :
    (n : Nat) → RegisterSet × Board Memory
  | 0 => start
  | n + 1 => op.round d (op.rounds d start n)

end BlockOp

namespace Cpu

/-- Carries out an instruction, which has been read, a number of times. -/
def times (i : Instruction) (cpu : Cpu) : (n : Nat) → Script Cpu
  | 0 => return cpu
  | n + 1 => do (← cpu.times i n).execute i

/-- Goes back to the code of a block instruction. -/
def goBack (cpu : Cpu) : BlockOp → Script Cpu
  | .load | .compare => do
      let cpu ← cpu.repeatBlock
      return cpu.setWZ (cpu.regs.pc + 1)
  | .input | .output => cpu.repeatBlock

theorem run_goBack {β : Type} [Bus β] (cpu : Cpu) (op : BlockOp) (t : Timed β) :
    ∃ wz, (cpu.goBack op).run t =
      ({ cpu with regs := { cpu.regs with pc := cpu.regs.pc - 2, wz := wz } }, t.advance 5) := by
  cases op <;> exact ⟨_, rfl⟩

/-- The repeating form of a block instruction is the single one, which may then go back. -/
theorem execute_repeating (cpu : Cpu) (op : BlockOp) (d : Direction) :
    cpu.execute (.block op d true) = do
      let cpu ← cpu.execute (.block op d false)
      if op.more cpu.regs.main then cpu.goBack op else return cpu := by
  have hzero : ∀ (f : Flags) (a v : UInt8) (more : Bool),
      (Flags.ofByte (Alu.blockCompared f a v more).toByte).zero = (a == v) := by
    intro f a v more
    rw [Flags.ofByte_toByte, blockCompared_zero]
  cases op with
  | load =>
      simp only [execute, blockLoad, bind_assoc, Bool.true_and, Bool.false_and, Bool.false_eq_true,
        if_false, pure_bind]
      rfl
  | compare =>
      simp only [execute, blockCompare, bind_assoc, Bool.true_and, Bool.false_and,
        Bool.false_eq_true, if_false, pure_bind, BlockOp.more, setFlags, hzero]
      rfl
  | input =>
      simp only [execute, blockInput, bind_assoc, Bool.true_and, Bool.false_and, Bool.false_eq_true,
        if_false, pure_bind]
      rfl
  | output =>
      simp only [execute, blockOutput, bind_assoc, Bool.true_and, Bool.false_and,
        Bool.false_eq_true, if_false, pure_bind]
      rfl

/-- The single form of a block instruction goes one round. -/
theorem run_single (cpu : Cpu) (op : BlockOp) (d : Direction) (t : Timed (Board Memory)) :
    ∃ wz q, (cpu.execute (.block op d false)).run t =
      let after := op.round d (cpu.regs.main, t.bus)
      ({ cpu with regs := { cpu.regs with main := after.1, wz := wz }, q := q },
        ⟨t.clock.advance 8, after.2⟩) := by
  cases op with
  | load =>
      simp only [execute, blockLoad, Bool.false_and, Bool.false_eq_true, if_false, Script.run_bind',
        Script.run_read, Script.run_write, Script.run_internal, Script.run_pure, Timed.advance,
        Clock.advance_advance]
      exact ⟨_, _, rfl⟩
  | compare =>
      simp only [execute, blockCompare, Bool.false_and, Bool.false_eq_true, if_false,
        Script.run_bind', Script.run_read, Script.run_internal, Script.run_pure, Timed.advance,
        Clock.advance_advance]
      exact ⟨_, _, rfl⟩
  | input =>
      simp only [execute, blockInput, Bool.false_and, Bool.false_eq_true, if_false,
        Script.run_bind', Script.run_input, Script.run_write, Script.run_internal, Script.run_pure,
        Timed.advance, Clock.advance_advance]
      exact ⟨_, _, rfl⟩
  | output =>
      simp only [execute, blockOutput, Bool.false_and, Bool.false_eq_true, if_false,
        Script.run_bind', Script.run_read, Script.run_output, Script.run_internal, Script.run_pure,
        Timed.advance, Clock.advance_advance]
      exact ⟨_, _, rfl⟩

/-- The repeating form goes one round too, and back if there is more to do. -/
theorem run_repeating (cpu : Cpu) (op : BlockOp) (d : Direction) (t : Timed (Board Memory)) :
    ∃ wz q, (cpu.execute (.block op d true)).run t =
      let after := op.round d (cpu.regs.main, t.bus)
      let more := op.more after.1
      ({ cpu with
          regs := { cpu.regs with
            main := after.1, pc := if more then cpu.regs.pc - 2 else cpu.regs.pc, wz := wz }
          q := q },
        ⟨t.clock.advance (if more then 13 else 8), after.2⟩) := by
  obtain ⟨wz, q, hsingle⟩ := cpu.run_single op d t
  rw [execute_repeating, Script.run_bind', hsingle]
  by_cases hmore : op.more (op.round d (cpu.regs.main, t.bus)).1 = true
  · simp only [hmore, if_true]
    obtain ⟨wz', hback⟩ := run_goBack { cpu with
      regs := { cpu.regs with main := (op.round d (cpu.regs.main, t.bus)).1, wz := wz }, q := q } op
      ⟨t.clock.advance 8, (op.round d (cpu.regs.main, t.bus)).2⟩
    refine ⟨wz', q, ?_⟩
    rw [hback, Timed.advance, Clock.advance_advance]
  · simp only [hmore]
    exact ⟨wz, q, rfl⟩

/-- Carried out a number of times, the single form goes as many rounds. -/
theorem run_times (cpu : Cpu) (op : BlockOp) (d : Direction) (t : Timed (Board Memory)) (n : Nat) :
    (((cpu.times (.block op d false) n).run t).1.regs.main,
      ((cpu.times (.block op d false) n).run t).2.bus) = op.rounds d (cpu.regs.main, t.bus) n := by
  induction n with
  | zero => rfl
  | succ n ih =>
      rw [times, Script.run_bind']
      obtain ⟨wz, q, hsingle⟩ := ((cpu.times (.block op d false) n).run t).1.run_single op d
        ((cpu.times (.block op d false) n).run t).2
      rw [hsingle, ih]
      rfl

end Cpu

namespace Opcode

/-- The codes of the block instructions that repeat themselves. -/
theorem extended_block (op : BlockOp) (d : Direction) :
    ∃ next, extended = .opcode next ∧ next (op.code d) = pure (.block op d true) := by
  refine ⟨_, rfl, ?_⟩
  cases op <;> cases d <;> rfl

/-- Two bytes are fetched, and an instruction without operands has been read from the table behind ED. -/
theorem run_instruction_extended {i : Instruction} {op : UInt8} {r : Registers}
    {t : Timed (Board Memory)} (hi : ∃ next, extended = .opcode next ∧ next op = pure i)
    (hED : peek t.bus.memory r.pc = 0xED) (hop : peek t.bus.memory (r.pc + 1) = op) (bound : Nat) :
    ((instruction (bound + 1) none).script r).run t =
      ((some i, ({ r with pc := r.pc + 2 } : Registers).refresh 2), t.advance 8) := by
  obtain ⟨next, hextended, hnext⟩ := hi
  have hrefresh : ({ ({ r with pc := r.pc + 1 } : Registers).refresh 1 with pc := r.pc + 1 + 1 }
      : Registers).refresh 1 = ({ r with pc := r.pc + 2 } : Registers).refresh 2 := by
    rw [show r.pc + 1 + 1 = r.pc + 2 by rw [UInt16.add_assoc]; rfl]
    exact Registers.refresh_refresh { r with pc := r.pc + 2 } 1 1
  have hsecond : (Cycle.fetch (r.pc + 1)).perform (t.advance 4) = (op, t.advance 8) := by
    rw [perform_fetch, Timed.advance_advance]
    exact congrArg (·, _) hop
  have hread : (extended.script (({ r with pc := r.pc + 1 } : Registers).refresh 1)).run
      (t.advance 4) = ((i, ({ r with pc := r.pc + 2 } : Registers).refresh 2), t.advance 8) := by
    rw [hextended, ← hrefresh]
    show ((next ((Cycle.fetch (r.pc + 1)).perform (t.advance 4)).1).script _).run
      ((Cycle.fetch (r.pc + 1)).perform (t.advance 4)).2 = _
    rw [hsecond, hnext]
    rfl
  rw [run_instruction_succ, perform_fetch, hED]
  show ((some <$> extended).script (({ r with pc := r.pc + 1 } : Registers).refresh 1)).run _ = _
  rw [Encoding.script_map, Script.run_map, hread]

end Opcode

namespace Machine

/-! ### A step -/

section Step

variable {m : Machine (Board Memory)} {op : BlockOp} {d : Direction}

/-- A step has gone one round of a repeating block instruction. -/
structure GoesRound (op : BlockOp) (d : Direction) (m m' : Machine (Board Memory)) : Prop where
  state : (m'.cpu.regs.main, m'.bus) = op.round d (m.cpu.regs.main, m.bus)
  pc : m'.cpu.regs.pc = if op.more m'.cpu.regs.main then m.cpu.regs.pc else m.cpu.regs.pc + 2
  refresh : m'.cpu.regs.r = (m.cpu.regs.refresh 2).r
  /-- The shadow of EI is over, and that is all that has changed about interrupts. -/
  due : m'.cpu.due = ({ m.cpu with shadow := false } : Cpu).due
  calm : ({ m'.cpu with shadow := false } : Cpu) = m'.cpu
  total : m'.clock.total = m.clock.total + if op.more m'.cpu.regs.main then 21 else 16

/-- Where a repeating block instruction is due, the next event is one round of it. -/
theorem next_round (hdue : m.cpu.due = .instruction)
    (hcode : op.StandsAt d m.bus.memory m.cpu.regs.pc) (bound : Nat) :
    ∃ after, m.next (bound + 1) = some after ∧
      m.coming? (bound + 1) = some (.instruction (.block op d true)) ∧ m.GoesRound op d after := by
  have hread := Opcode.run_instruction_extended (t := m.outside) (Opcode.extended_block op d)
    hcode.1 hcode.2 bound
  have hnext := next_of_read hdue hread
  obtain ⟨wz, q, hround⟩ := Cpu.run_repeating
    ({ ({ m.cpu with shadow := false } : Cpu).beginEvent with
      regs := ({ m.cpu.regs with pc := m.cpu.regs.pc + 2 } : Registers).refresh 2 } : Cpu) op d
    (m.outside.advance 8)
  rw [hround] at hnext
  refine ⟨_, hnext, ?_, rfl, ?_, rfl, rfl, rfl, ?_⟩
  · unfold coming?
    rw [hdue, hread]
    rfl
  · show (if op.more (op.round d (m.cpu.regs.main, m.bus)).1 = true then m.cpu.regs.pc + 2 - 2
      else m.cpu.regs.pc + 2) = if op.more (op.round d (m.cpu.regs.main, m.bus)).1 = true then
        m.cpu.regs.pc else m.cpu.regs.pc + 2
    rw [UInt16.add_sub_cancel]
  · show m.clock.total + 8 + (if op.more (op.round d (m.cpu.regs.main, m.bus)).1 = true then 13
      else 8) = m.clock.total + if op.more (op.round d (m.cpu.regs.main, m.bus)).1 = true then 21
        else 16
    split <;> rfl

/-- And a step goes one round. -/
theorem step_round (hdue : m.cpu.due = .instruction)
    (hcode : op.StandsAt d m.bus.memory m.cpu.regs.pc) (bound : Nat) :
    ∃ m', m.step (bound + 1) = some (if op.more m'.cpu.regs.main then 21 else 16, m') ∧
      m.coming? (bound + 1) = some (.instruction (.block op d true)) ∧ m.GoesRound op d m' := by
  obtain ⟨after, hnext, hcoming, hround⟩ := next_round hdue hcode bound
  refine ⟨after.takeYield.2, step_eq_some_iff.mpr ⟨after, hnext, ?_⟩, hcoming,
    hround.state, hround.pc, hround.refresh, hround.due, hround.calm, hround.total⟩
  rw [hround.total, Nat.add_sub_cancel_left]
  show (if op.more after.cpu.regs.main = true then _ else _, _) = _
  split <;> rfl

end Step

/-! ### All steps -/

section Steps

variable {β : Type} [Bus β]

/-- The last of a number of steps. -/
theorem steps_snoc (bound n : Nat) (m : Machine β) :
    m.steps bound (n + 1) = (m.steps bound n).bind fun m' => (m'.step bound).map (·.2) := by
  induction n generalizing m with
  | zero =>
      show ((m.step bound).bind fun r => some r.2) = (some m).bind _
      rw [Option.bind_some, Option.map_eq_bind]
      rfl
  | succ n ih =>
      rw [steps]
      cases hstep : m.step bound with
      | none => simp [steps, hstep]
      | some r =>
          rw [Option.bind_some, ih, steps, hstep]
          rfl

end Steps

section Rounds

variable {m : Machine (Board Memory)} {op : BlockOp} {d : Direction} {bound n : Nat}

/-- A repeating block instruction is due, and nobody interrupts it if it goes round repeatedly. -/
structure Poised (op : BlockOp) (d : Direction) (n : Nat) (m : Machine (Board Memory)) : Prop where
  due : m.cpu.due = .instruction
  /-- No interrupt is accepted when the shadow of EI is over either. -/
  undisturbed : 1 < n → ({ m.cpu with shadow := false } : Cpu).due = .instruction
  code : op.StandsAt d m.bus.memory m.cpu.regs.pc

/-- A repeating block instruction has been carried out in `n` steps. -/
structure Completes (bound : Nat) (op : BlockOp) (d : Direction) (n : Nat)
    (m m' : Machine (Board Memory)) : Prop where
  steps : m.steps bound n = some m'
  /-- Before each step the program counter is on the code, and the step carries the code out. -/
  unfinished : ∀ k < n, ∃ mₖ mₖ', m.steps bound k = some mₖ ∧ mₖ.cpu.regs.pc = m.cpu.regs.pc ∧
    mₖ.coming? bound = some (.instruction (.block op d true)) ∧
    mₖ.step bound = some (if k + 1 < n then 21 else 16, mₖ')
  pc : m'.cpu.regs.pc = m.cpu.regs.pc + 2
  refresh : m'.cpu.regs.r = (m.cpu.regs.refresh (2 * n)).r
  total : m'.clock.total = m.clock.total + (21 * (n - 1) + 16)

/-- What holds after `k` rounds, if they were not the last. -/
structure Midway (op : BlockOp) (d : Direction) (k : Nat) (m mₖ : Machine (Board Memory)) :
    Prop where
  state : (mₖ.cpu.regs.main, mₖ.bus) = op.rounds d (m.cpu.regs.main, m.bus) k
  pc : mₖ.cpu.regs.pc = m.cpu.regs.pc
  refresh : mₖ.cpu.regs.r = (m.cpu.regs.refresh (2 * k)).r
  due : mₖ.cpu.due = .instruction
  undisturbed : ({ mₖ.cpu with shadow := false } : Cpu).due =
    ({ m.cpu with shadow := false } : Cpu).due
  total : mₖ.clock.total = m.clock.total + 21 * k

/-- What a round leads to, another round goes on from. -/
theorem GoesRound.midway {k : Nat} {mₖ m' : Machine (Board Memory)} (h : mₖ.GoesRound op d m')
    (hmid : m.Midway op d k mₖ) (hmore : op.more m'.cpu.regs.main = true)
    (hdue : ({ m.cpu with shadow := false } : Cpu).due = .instruction) :
    m.Midway op d (k + 1) m' where
  state := by
    rw [h.state, hmid.state]
    rfl
  pc := by rw [h.pc, if_pos hmore, hmid.pc]
  refresh := by
    rw [h.refresh, Registers.refresh_congr hmid.refresh, Registers.refresh_refresh]
    rfl
  due := by rw [h.due, hmid.undisturbed, hdue]
  undisturbed := by rw [h.calm, h.due, hmid.undisturbed]
  total := by
    rw [h.total, if_pos hmore, hmid.total]
    omega

/-- A step from between two rounds goes the next one. -/
theorem Midway.exists_step {k : Nat} {mₖ : Machine (Board Memory)} (h : m.Midway op d k mₖ)
    (hcode : op.StandsAt d (op.rounds d (m.cpu.regs.main, m.bus) k).2.memory m.cpu.regs.pc)
    (bound : Nat) :
    ∃ m', mₖ.step (bound + 1) = some (if op.more m'.cpu.regs.main then 21 else 16, m') ∧
      mₖ.coming? (bound + 1) = some (.instruction (.block op d true)) ∧ mₖ.GoesRound op d m' ∧
      (m'.cpu.regs.main, m'.bus) = op.rounds d (m.cpu.regs.main, m.bus) (k + 1) := by
  have hstands : op.StandsAt d mₖ.bus.memory mₖ.cpu.regs.pc := by
    rw [← h.state, ← h.pc] at hcode
    exact hcode
  obtain ⟨m', hstep, hcoming, hround⟩ := step_round h.due hstands bound
  refine ⟨m', hstep, hcoming, hround, ?_⟩
  rw [hround.state, h.state]
  rfl

/-- As long as there is more to do and the code stands in memory, a step goes another round. -/
theorem Poised.exists_midway (h : m.Poised op d n)
    (hcode : ∀ k < n, op.StandsAt d (op.rounds d (m.cpu.regs.main, m.bus) k).2.memory m.cpu.regs.pc)
    (hmore : ∀ k, 0 < k → k < n → op.more (op.rounds d (m.cpu.regs.main, m.bus) k).1 = true)
    (bound : Nat) : ∀ k < n, ∃ mₖ, m.steps (bound + 1) k = some mₖ ∧ m.Midway op d k mₖ := by
  intro k
  induction k with
  | zero =>
      intro _
      exact ⟨m, rfl, rfl, rfl, by rw [Nat.mul_zero, Registers.refresh_zero], h.due, rfl, rfl⟩
  | succ k ih =>
      intro hk
      obtain ⟨mₖ, hsteps, hmid⟩ := ih (by omega)
      obtain ⟨m', hstep, -, hround, hstate⟩ := hmid.exists_step (hcode k (by omega)) bound
      have hagain : op.more m'.cpu.regs.main = true := by
        have := hmore (k + 1) (by omega) hk
        rwa [← hstate] at this
      refine ⟨m', ?_, hround.midway hmid hagain (h.undisturbed (by omega))⟩
      rw [steps_snoc, hsteps, Option.bind_some, hstep]
      rfl

/--
**A repeating block instruction runs to completion.**  If there is more to do after each of its
rounds but the last one, and its code stands in memory whenever it is read, it is carried out in as
many steps as it goes rounds.
-/
theorem Poised.completes (h : m.Poised op d n) (hn : 0 < n)
    (hcode : ∀ k < n, op.StandsAt d (op.rounds d (m.cpu.regs.main, m.bus) k).2.memory m.cpu.regs.pc)
    (hends : ∀ k, 0 < k → k ≤ n →
      (op.more (op.rounds d (m.cpu.regs.main, m.bus) k).1 = false ↔ k = n)) (bound : Nat) :
    ∃ m', m.Completes (bound + 1) op d n m' ∧
      (m'.cpu.regs.main, m'.bus) = op.rounds d (m.cpu.regs.main, m.bus) n := by
  have hmore : ∀ k, 0 < k → k < n →
      op.more (op.rounds d (m.cpu.regs.main, m.bus) k).1 = true := by
    intro k hpos hk
    exact Bool.of_not_eq_false (mt (hends k hpos (Nat.le_of_lt hk)).mp (Nat.ne_of_lt hk))
  have hmidway := h.exists_midway hcode hmore bound
  -- the last round starts between two rounds like all others, but there is no more to do after it
  obtain ⟨last, rfl⟩ := Nat.exists_eq_add_of_lt hn
  rw [Nat.zero_add] at *
  obtain ⟨mₗ, hsteps, hmid⟩ := hmidway last (Nat.lt_succ_self last)
  obtain ⟨m', hstep, -, hround, hstate⟩ :=
    hmid.exists_step (hcode last (Nat.lt_succ_self last)) bound
  have hover : op.more m'.cpu.regs.main = false := by
    have := (hends (last + 1) hn (Nat.le_refl _)).mpr rfl
    rwa [← hstate] at this
  refine ⟨m', ⟨?_, ?_, ?_, ?_, ?_⟩, hstate⟩
  · rw [steps_snoc, hsteps, Option.bind_some, hstep]
    rfl
  · intro k hk
    obtain ⟨mₖ, hsteps, hmid⟩ := hmidway k hk
    obtain ⟨mₖ', hstep, hcoming, -, hstate⟩ := hmid.exists_step (hcode k hk) bound
    have hends := hends (k + 1) (by omega) hk
    rw [← hstate] at hends
    refine ⟨mₖ, mₖ', hsteps, hmid.pc, hcoming, ?_⟩
    rw [hstep]
    by_cases hlast : k = last
    · rw [hends.mpr (by omega), if_neg Bool.false_ne_true, if_neg (by omega)]
    · rw [if_pos (Bool.of_not_eq_false (mt hends.mp (by omega))), if_pos (by omega)]
  · rw [hround.pc, hover, hmid.pc]
    rfl
  · rw [hround.refresh, Registers.refresh_congr hmid.refresh, Registers.refresh_refresh]
    rfl
  · rw [hround.total, hover, hmid.total]
    show m.clock.total + 21 * last + 16 = m.clock.total + (21 * (last + 1 - 1) + 16)
    omega

end Rounds

end Machine

end Z80
