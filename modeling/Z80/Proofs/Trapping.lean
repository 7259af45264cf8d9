/-
Calls of the system.

A program calls the system with CALL 0005h.  That takes four instructions: the call itself, the jump at
0005, the write to the trap port at FE00, and the return behind it.  To the program it is as if nothing
had happened.  The registers are the ones it had, the stack pointer included, but for the refresh
register, which counts the fetches, and the hidden WZ; and memory has changed below the stack only.

What each of the four does is a matter of its script on the environment (`Does`), and a line that is
due does that after it has been read (`step_line`).  The call stores two bytes, which must not be among
those of the other three.  So the four steps are put together with the memory as the only thing that has
to be followed.
-/
import Z80.Proofs.Measuring
import Z80.Proofs.Paging
import Z80.Proofs.Printing
import Z80.Proofs.Resuming

namespace Z80

namespace Cpm

open Machine

/-! ### Instructions on the environment -/

/-- A script takes `n` T-states, asks for these things and has these outcomes, whenever it is performed. -/
def Does (s : Script Cpu) (e : Environment) (n : Nat) (asked : List Access) (cpu : Cpu)
    (e' : Environment) : Prop :=
  ∀ t : Timed (Logged Environment), t.bus.bus = e →
    (s.run t).1 = cpu ∧ (s.run t).2.clock.total = t.clock.total + n ∧ (s.run t).2.bus.bus = e' ∧
      (s.run t).2.bus.log.map (·.access) = t.bus.log.map (·.access) ++ asked

/-- The environment after bytes have been pushed. -/
def Environment.pushed (e : Environment) (sp w : UInt16) : Environment :=
  { e with board := { e.board with memory := e.board.memory.pushed sp w } }

section Instructions

variable (cpu : Cpu) (e : Environment)

theorem call_does (target : UInt16) :
    Does (cpu.execute (.call target)) e 7
      [.write (cpu.regs.sp - 1) (Word.high cpu.regs.pc), .write (cpu.regs.sp - 2) (Word.low cpu.regs.pc)]
      ((cpu.setSP (cpu.regs.sp - 2)).goto target) (e.pushed cpu.regs.sp cpu.regs.pc) := by
  rintro ⟨clock, ⟨bus, log⟩⟩ rfl
  refine ⟨rfl, rfl, rfl, ?_⟩
  show (log ++ [(⟨.write (cpu.regs.sp - 1) (Word.high cpu.regs.pc), _⟩ : Asked)] ++
    [(⟨.write (cpu.regs.sp - 2) (Word.low cpu.regs.pc), _⟩ : Asked)]).map _ = _
  simp

theorem jump_does (target : UInt16) :
    Does (cpu.execute (.jump target)) e 0 [] (cpu.goto target) e := by
  rintro t rfl
  exact ⟨rfl, rfl, rfl, (List.append_nil _).symm⟩

theorem outputA_does (low : UInt8) :
    Does (cpu.execute (.outputA low)) e 4 [.output (portAddress cpu.a low) cpu.a]
      (cpu.setWZ (Word.ofBytes cpu.a (low + 1)))
      { e with called := e.called || calls (.output (portAddress cpu.a low) cpu.a) } := by
  rintro ⟨clock, ⟨bus, log⟩⟩ rfl
  refine ⟨rfl, ?_, rfl, ?_⟩
  · have htotal : ∀ y : Bool,
        ((if y then (clock.advance 0).requestYield else clock.advance 0).advance 4).total =
          clock.total + 4 := by
      intro y
      cases y <;> rfl
    exact htotal _
  · show (log ++ [(⟨.output (portAddress cpu.a low) cpu.a, _⟩ : Asked)]).map _ = _
    simp

theorem ret_does :
    Does (cpu.execute .ret) e 6 [.read cpu.regs.sp, .read (cpu.regs.sp + 1)]
      ((cpu.setSP (cpu.regs.sp + 2)).goto (peekWord e.board.memory cpu.regs.sp)) e := by
  rintro ⟨clock, ⟨bus, log⟩⟩ rfl
  refine ⟨rfl, rfl, rfl, ?_⟩
  show (log ++ [(⟨.read cpu.regs.sp, _⟩ : Asked)] ++ [(⟨.read (cpu.regs.sp + 1), _⟩ : Asked)]).map _ = _
  simp

end Instructions

/-! ### Lines -/

/-- An instruction of so many bytes stands at an address, without a prefix. -/
structure Line {μ : Type} [View μ] (m : μ) (start : UInt16) (i : Instruction) (length : Nat) : Prop where
  plain : Index.ofByte? (peek m start) = none
  decode : Disassembly.decode m start = (i, length)

section Lines

variable {μ : Type} [View μ] {m : μ} {start : UInt16}

/-- A line without a prefix is what its first byte begins. -/
theorem Line.of_peek {op : UInt8} (hop : peek m start = op) (hplain : Index.ofByte? op = none) :
    Line m start ((Opcode.unprefixed none op).view m (start + 1)).1
      (((Opcode.unprefixed none op).view m (start + 1)).2 + 1) := by
  have hends : Index.ofByte? (peek m start) = none := by rw [hop, hplain]
  refine ⟨hends, ?_⟩
  unfold Disassembly.decode
  rw [Disassembly.isIndex_eq_false hends, Bool.false_and, if_neg Bool.false_ne_true]
  simp only [Opcode.single, Encoding.view, hop, hplain]

theorem line_call {low high : UInt8} (h : peekBytes m start 3 = [0xCD, low, high]) :
    Line m start (.call (Word.ofBytes high low)) 3 := by
  obtain ⟨hop, hlow, hhigh⟩ : peek m start = 0xCD ∧ peek m (start + 1) = low ∧
      peek m (start + 1 + 1) = high := by simpa [peekBytes] using h
  rw [← hlow, ← hhigh]
  exact .of_peek hop rfl

theorem line_jump {low high : UInt8} (h : peekBytes m start 3 = [0xC3, low, high]) :
    Line m start (.jump (Word.ofBytes high low)) 3 := by
  obtain ⟨hop, hlow, hhigh⟩ : peek m start = 0xC3 ∧ peek m (start + 1) = low ∧
      peek m (start + 1 + 1) = high := by simpa [peekBytes] using h
  rw [← hlow, ← hhigh]
  exact .of_peek hop rfl

theorem line_outputA {low : UInt8} (h : peekBytes m start 2 = [0xD3, low]) :
    Line m start (.outputA low) 2 := by
  obtain ⟨hop, hlow⟩ : peek m start = 0xD3 ∧ peek m (start + 1) = low := by
    simpa [peekBytes] using h
  rw [← hlow]
  exact .of_peek hop rfl

theorem line_ret (h : peek m start = 0xC9) : Line m start .ret 1 := .of_peek h rfl

end Lines

/-! ### Steps -/

/-- Between two machines so many T-states have passed and these things have been asked for. -/
structure Spends (n : Nat) (asked : List Access) (m m' : Machine (Logged Environment)) : Prop where
  total : m'.clock.total = m.clock.total + n
  accesses : m'.bus.log.map (·.access) = m.bus.log.map (·.access) ++ asked

theorem Spends.trans {k n : Nat} {asked asked' : List Access} {m m' m'' : Machine (Logged Environment)}
    (h : Spends k asked m m') (h' : Spends n asked' m' m'') : Spends (k + n) (asked ++ asked') m m'' :=
  ⟨by rw [h'.total, h.total, Nat.add_assoc], by rw [h'.accesses, h.accesses, List.append_assoc]⟩

theorem Undisturbed.due {cpu : Cpu} (h : Undisturbed cpu) (hawake : cpu.regs.halted = false) :
    cpu.due = .instruction := by
  rw [h.due_eq_instruction_iff, h.due_eq_halted_iff]
  exact Bool.eq_false_iff.mp hawake

/-- **A line that is due is read and does what its instruction does.** -/
theorem step_line {m : Machine (Logged Environment)} {i : Instruction} {length n : Nat}
    {asked : List Access} {cpu : Cpu} {e : Environment} (hu : Undisturbed m.cpu)
    (hawake : m.cpu.regs.halted = false) (hline : Line m.bus.bus m.cpu.regs.pc i length)
    (hdoes : Does ((m.cpu.having i length).execute i) m.bus.bus n asked cpu e) :
    ∃ time m', m.step 2 = some (time, m') ∧ m'.cpu = cpu ∧ m'.bus.bus = e ∧
      Spends (4 * (length - i.operands) + 3 * i.operands + i.pauses + n)
        ((span m.cpu.regs.pc length).map .read ++ asked) m m' := by
  have hvoid : (Disassembly.isIndex m.bus.bus m.cpu.regs.pc &&
      Disassembly.isIndex m.bus.bus (m.cpu.regs.pc + 1)) = false := by
    rw [Disassembly.isIndex_eq_false hline.plain, Bool.false_and]
  obtain ⟨-, t, hscans, hnext⟩ := next_line (hu.due hawake) hvoid hline.decode
  obtain ⟨hcpu, htotal, hbus, hlog⟩ := hdoes t hscans.bus
  refine ⟨_, _, step_eq_some_iff.mpr ⟨_, hnext, rfl⟩, hcpu, hbus, ?_, ?_⟩
  · refine htotal.trans ?_
    rw [hscans.clock, ← Nat.add_assoc]
    rfl
  · refine hlog.trans ?_
    rw [hscans.accesses, List.append_assoc]
    rfl

/-- Registers of which only the stack pointer, the program counter, WZ and the refresh register can have
changed. -/
def moved (r : Registers) (sp pc wz : UInt16) (fetches : Nat) : Registers :=
  ({ r with sp := sp, pc := pc, wz := wz } : Registers).refresh fetches

theorem moved_moved (r : Registers) (sp pc wz sp' pc' wz' : UInt16) (k n : Nat) :
    moved (moved r sp pc wz k) sp' pc' wz' n = moved r sp' pc' wz' (k + n) :=
  Registers.refresh_refresh { r with sp := sp', pc := pc', wz := wz' } k n

/-- The processor with other registers, after an instruction that computes no flags. -/
def after (cpu : Cpu) (regs : Registers) : Cpu :=
  { cpu with regs := regs, shadow := false, q := 0, previousQ := cpu.q }

theorem Undisturbed.after {cpu : Cpu} (h : Undisturbed cpu) (regs : Registers) :
    Undisturbed (after cpu regs) :=
  ⟨h.nmi, h.interrupt, fun hcalm => Bool.false_ne_true hcalm.2⟩

section Four

variable {m : Machine (Logged Environment)} (hu : Undisturbed m.cpu)
  (hawake : m.cpu.regs.halted = false)
include hu hawake

theorem step_call {low high : UInt8}
    (hcode : peekBytes m.bus.bus m.cpu.regs.pc 3 = [0xCD, low, high]) :
    ∃ time m', m.step 2 = some (time, m') ∧
      m'.cpu = after m.cpu (moved m.cpu.regs (m.cpu.regs.sp - 2) (Word.ofBytes high low)
        (Word.ofBytes high low) 1) ∧
      m'.bus.bus = m.bus.bus.pushed m.cpu.regs.sp (m.cpu.regs.pc + 3) ∧
      Spends 17 ((span m.cpu.regs.pc 3).map .read ++
        [.write (m.cpu.regs.sp - 1) (Word.high (m.cpu.regs.pc + 3)),
          .write (m.cpu.regs.sp - 2) (Word.low (m.cpu.regs.pc + 3))]) m m' :=
  step_line hu hawake (line_call hcode) (call_does _ _ _)

theorem step_jump {low high : UInt8}
    (hcode : peekBytes m.bus.bus m.cpu.regs.pc 3 = [0xC3, low, high]) :
    ∃ time m', m.step 2 = some (time, m') ∧
      m'.cpu = after m.cpu (moved m.cpu.regs m.cpu.regs.sp (Word.ofBytes high low)
        (Word.ofBytes high low) 1) ∧
      m'.bus.bus = m.bus.bus ∧ Spends 10 ((span m.cpu.regs.pc 3).map .read ++ []) m m' :=
  step_line hu hawake (line_jump hcode) (jump_does _ _ _)

theorem step_outputA {low : UInt8}
    (hcode : peekBytes m.bus.bus m.cpu.regs.pc 2 = [0xD3, low]) :
    ∃ time m', m.step 2 = some (time, m') ∧
      m'.cpu = after m.cpu (moved m.cpu.regs m.cpu.regs.sp (m.cpu.regs.pc + 2)
        (Word.ofBytes m.cpu.a (low + 1)) 1) ∧
      m'.bus.bus = { m.bus.bus with
        called := m.bus.bus.called || calls (.output (portAddress m.cpu.a low) m.cpu.a) } ∧
      Spends 11 ((span m.cpu.regs.pc 2).map .read ++ [.output (portAddress m.cpu.a low) m.cpu.a]) m m' :=
  step_line hu hawake (line_outputA hcode) (outputA_does _ _ _)

theorem step_ret (hcode : peek m.bus.bus m.cpu.regs.pc = 0xC9) :
    ∃ time m', m.step 2 = some (time, m') ∧
      m'.cpu = after m.cpu (moved m.cpu.regs (m.cpu.regs.sp + 2)
        (peekWord m.bus.bus.board.memory m.cpu.regs.sp)
        (peekWord m.bus.bus.board.memory m.cpu.regs.sp) 1) ∧
      m'.bus.bus = m.bus.bus ∧
      Spends 10 ((span m.cpu.regs.pc 1).map .read ++
        [.read m.cpu.regs.sp, .read (m.cpu.regs.sp + 1)]) m m' :=
  step_line hu hawake (line_ret hcode) (ret_does _ _)

end Four

/-! ### The code of the system -/

/-- Where the code of the system is. -/
def systemCode : List UInt16 := span 0x0005 3 ++ span systemStart 3

theorem peekBytes_congr {μ ν : Type} [View μ] [View ν] {m : μ} {m' : ν} {start : UInt16} {count : Nat}
    (h : ∀ address ∈ span start count, peek m' address = peek m address) :
    peekBytes m' start count = peekBytes m start count := by
  induction count generalizing start with
  | zero => rfl
  | succ count ih =>
      rw [peekBytes, peekBytes, h start List.mem_cons_self,
        ih fun address hmem => h address (List.mem_cons_of_mem _ hmem)]

theorem Environment.peekBytes_eq (e : Environment) (start : UInt16) (count : Nat) :
    peekBytes e start count = peekBytes e.board.memory start count := peekBytes_congr fun _ _ => rfl

/-- The code of the system is in its place. -/
structure Installed (memory : Memory) : Prop where
  entry : peekBytes memory 0x0005 3 = [0xC3, 0x00, 0xFE]
  trap : peekBytes memory systemStart 3 = [0xD3, 0x05, 0xC9]

theorem Installed.pushed {memory : Memory} {sp : UInt16} (h : Installed memory)
    (hhigh : sp - 1 ∉ systemCode) (hlow : sp - 2 ∉ systemCode) (w : UInt16) :
    Installed (memory.pushed sp w) := by
  have hpeek : ∀ address ∈ systemCode, peek (memory.pushed sp w) address = peek memory address := by
    intro address hmem
    refine Memory.peek_pushed_of_ne memory sp w ?_ ?_
    · rintro rfl
      exact hhigh hmem
    · rintro rfl
      exact hlow hmem
  refine ⟨?_, ?_⟩
  · rw [← h.entry]
    exact peekBytes_congr fun address hmem => hpeek address (List.mem_append_left _ hmem)
  · rw [← h.trap]
    exact peekBytes_congr fun address hmem => hpeek address (List.mem_append_right _ hmem)

/-- A program is about to call the system, whose code is in its place and not where the stack is. -/
structure Calling (s : Session) : Prop where
  awake : s.finished = false
  code : peekBytes s.bus.board.memory s.cpu.regs.pc 3 = [0xCD, 0x05, 0x00]
  installed : Installed s.bus.board.memory
  high : s.cpu.regs.sp - 1 ∉ systemCode
  low : s.cpu.regs.sp - 2 ∉ systemCode

/-- Four steps call the system: a trap, at which the registers are the caller's, and a return to behind
the call, with nothing changed but the refresh register, WZ and what is below the stack. -/
structure Transparent (t : Session) (m₃ m₄ : Machine (Logged Environment)) : Prop where
  trap : t.logged.steps 2 3 = some m₃
  called : m₃.bus.bus.called = true
  seen : m₃.cpu.regs.main = t.cpu.regs.main
  back : t.logged.steps 2 4 = some m₄
  steps : Returns (t.steps · 4) m₄.unlogged
  once : (m₄.bus.log.map (·.access)).filter calls = [.output (portAddress t.cpu.a trapPort) t.cpu.a]
  total : m₄.clock.total = t.clock.total + 48
  cpu : m₄.cpu =
    { t.cpu with
      regs := ({ t.cpu.regs with pc := t.cpu.regs.pc + 3, wz := t.cpu.regs.pc + 3 } : Registers).refresh 4
      shadow := false, q := 0, previousQ := 0 }
  board : m₄.bus.bus.board =
    { t.bus.board with memory := t.bus.board.memory.pushed t.cpu.regs.sp (t.cpu.regs.pc + 3) }

/-- **Four steps call the system and come back.** -/
theorem Calling.transparent {t : Session} (h : Calling t) (hu : Undisturbed t.cpu) :
    ∃ m₃ m₄, Transparent t m₃ m₄ := by
  have hawake : t.logged.cpu.regs.halted = false := h.awake
  have hinstalled := h.installed.pushed h.high h.low (t.cpu.regs.pc + 3)
  obtain ⟨time₁, m₁, hstep₁, hcpu₁, hbus₁, hspends₁⟩ := step_call (m := t.logged) hu hawake
    ((Environment.peekBytes_eq _ _ _).trans h.code)
  -- the jump
  have hu₁ : Undisturbed m₁.cpu := hcpu₁ ▸ hu.after _
  have hregs₁ : m₁.cpu.regs = moved t.cpu.regs (t.cpu.regs.sp - 2) 0x0005 0x0005 1 :=
    congrArg Cpu.regs hcpu₁
  have hcode₁ : peekBytes m₁.bus.bus m₁.cpu.regs.pc 3 = [0xC3, 0x00, 0xFE] := by
    rw [hregs₁, hbus₁]
    exact (Environment.peekBytes_eq _ _ _).trans hinstalled.entry
  obtain ⟨time₂, m₂, hstep₂, hcpu₂, hbus₂, hspends₂⟩ :=
    step_jump hu₁ (by rw [hregs₁]; exact hawake) hcode₁
  -- the trap
  have hu₂ : Undisturbed m₂.cpu := hcpu₂ ▸ hu₁.after _
  have hregs₂ : m₂.cpu.regs = moved t.cpu.regs (t.cpu.regs.sp - 2) systemStart systemStart 2 := by
    rw [congrArg Cpu.regs hcpu₂, after, hregs₁, moved_moved]
    rfl
  have hcode₂ : peekBytes m₂.bus.bus systemStart 3 = [0xD3, 0x05, 0xC9] := by
    rw [hbus₂, hbus₁]
    exact (Environment.peekBytes_eq _ _ _).trans hinstalled.trap
  obtain ⟨hop, hport, hret⟩ : peek m₂.bus.bus systemStart = 0xD3 ∧
      peek m₂.bus.bus (systemStart + 1) = 0x05 ∧ peek m₂.bus.bus (systemStart + 1 + 1) = 0xC9 := by
    simpa [peekBytes] using hcode₂
  have htrap : peekBytes m₂.bus.bus m₂.cpu.regs.pc 2 = [0xD3, trapPort] := by
    rw [hregs₂]
    show [peek m₂.bus.bus systemStart, peek m₂.bus.bus (systemStart + 1)] = _
    rw [hop, hport]
    rfl
  obtain ⟨time₃, m₃, hstep₃, hcpu₃, hbus₃, hspends₃⟩ :=
    step_outputA hu₂ (by rw [hregs₂]; exact hawake) htrap
  -- the return
  have hu₃ : Undisturbed m₃.cpu := hcpu₃ ▸ hu₂.after _
  have hregs₃ : m₃.cpu.regs = moved t.cpu.regs (t.cpu.regs.sp - 2) (systemStart + 1 + 1)
      (Word.ofBytes m₂.cpu.a (trapPort + 1)) 3 := by
    rw [congrArg Cpu.regs hcpu₃, after, hregs₂, moved_moved]
    rfl
  have hcode₃ : peek m₃.bus.bus m₃.cpu.regs.pc = 0xC9 := by
    rw [hregs₃, hbus₃]
    exact hret
  obtain ⟨time₄, m₄, hstep₄, hcpu₄, hbus₄, hspends₄⟩ :=
    step_ret hu₃ (by rw [hregs₃]; exact hawake) hcode₃
  have hboard : m₃.bus.bus.board = { t.bus.board with
      memory := t.bus.board.memory.pushed t.cpu.regs.sp (t.cpu.regs.pc + 3) } := by
    rw [hbus₃, hbus₂, hbus₁]
    rfl
  have htop : peekWord m₃.bus.bus.board.memory m₃.cpu.regs.sp = t.cpu.regs.pc + 3 := by
    rw [hboard, hregs₃]
    exact Memory.peekWord_pushed _ _ _
  have hregs₄ : m₄.cpu.regs =
      moved t.cpu.regs t.cpu.regs.sp (t.cpu.regs.pc + 3) (t.cpu.regs.pc + 3) 4 := by
    rw [congrArg Cpu.regs hcpu₄, after, htop, hregs₃, moved_moved]
    show moved t.cpu.regs (t.cpu.regs.sp - 2 + 2) _ _ 4 = _
    rw [UInt16.sub_add_cancel]
  have ha₂ : m₂.cpu.a = t.cpu.a := by
    rw [Cpu.a, hregs₂]
    rfl
  have hcalls : calls (.output (portAddress t.cpu.a trapPort) t.cpu.a) = true := by
    simp [calls, portAddress]
  have hspends := ((hspends₁.trans hspends₂).trans hspends₃).trans hspends₄
  have hfour : t.logged.steps 2 4 = some m₄ := by
    simp only [Machine.steps, hstep₁, hstep₂, hstep₃, hstep₄, Option.bind_some]
  refine ⟨m₃, m₄, ?_, ?_, ?_, hfour, ?_, ?_, hspends.total, ?_, ?_⟩
  · simp only [Machine.steps, hstep₁, hstep₂, hstep₃, Option.bind_some]
  · rw [hbus₃, ha₂, hcalls]
    exact Bool.or_true _
  · rw [hregs₃]
    rfl
  · have hunlogged := steps_unlogged 2 4 t.logged
    rw [hfour] at hunlogged
    exact ⟨2, hunlogged.symm⟩
  · have hempty : t.logged.bus.log.map (·.access) = [] := rfl
    have hreads : ∀ addresses : List UInt16, (addresses.map Access.read).filter calls = [] :=
      fun addresses => List.filter_eq_nil_iff.mpr (by simp [calls])
    rw [hspends.accesses, hempty, ha₂]
    simp only [List.filter_append, hreads, List.filter_cons, hcalls]
    rfl
  · have hcpu : m₄.cpu = after m₃.cpu m₄.cpu.regs := by
      rw [hcpu₄]
      rfl
    rw [hcpu, hregs₄, hcpu₃, hcpu₂, hcpu₁]
    rfl
  · rw [hbus₄, hboard]

/-! ### States of a program -/

/-- Calls of a host that make no request for an interrupt. -/
def Call.quiet : Call → Bool
  | .requestInterrupt _ | .requestNMI => false
  | _ => true

/-- A session that has come out of another one: the host has carried out calls, which include steps,
runs, and the writing of any registers, but never a request for an interrupt; it has answered the
program, or put something else where the environment was. -/
inductive Later (s : Session) : Session → Prop
  | start : Later s s
  | called {t t' : Session} {c : Call} (h : Later s t) (hquiet : Call.quiet c = true)
      (hcall : Returns (t.call · c) t') : Later s t'
  | answered {t : Session} (h : Later s t) : Later s t.answer.2
  | changed {t : Session} (h : Later s t) (f : Environment → Environment) : Later s (t.mapBus f)

section Calm

variable {s t t' : Session}

theorem Undisturbed.ran (h : Undisturbed t.cpu) (hran : Ran t t') : Undisturbed t'.cpu := by
  induction hran with
  | exhausted _ => exact h
  | idled _ _ => exact ⟨h.nmi, h.interrupt, fun hcalm => Bool.false_ne_true hcalm.2⟩
  | @yielded t t₁ _ _ hnext _ =>
      obtain ⟨bound, hnext⟩ := hnext
      have h₁ : Undisturbed t₁.cpu := h.next hnext
      exact h₁
  | further _ _ hnext _ _ ih =>
      obtain ⟨bound, hnext⟩ := hnext
      exact ih (h.next hnext)

theorem Undisturbed.call {c : Call} {bound : Nat} (h : Undisturbed t.cpu) (hquiet : Call.quiet c = true)
    (hcall : t.call bound c = some t') : Undisturbed t'.cpu := by
  cases c with
  | requestInterrupt _ | requestNMI => exact absurd hquiet Bool.false_ne_true
  | clearInterrupt =>
      obtain rfl := Option.some.inj hcall
      exact ⟨h.nmi, rfl, h.calm⟩
  | reset =>
      obtain rfl := Option.some.inj hcall
      exact ⟨rfl, rfl, fun hcalm => Bool.false_ne_true hcalm.2⟩
  | restore _ =>
      obtain rfl := Option.some.inj hcall
      exact ⟨h.nmi, h.interrupt, fun hcalm => Bool.false_ne_true hcalm.2⟩
  | write _ =>
      obtain rfl := Option.some.inj hcall
      exact ⟨h.nmi, h.interrupt, h.calm⟩
  | step =>
      obtain ⟨t₁, hnext, rfl⟩ := exists_next_of_call_step hcall
      have h₁ : Undisturbed t₁.cpu := h.next hnext
      exact h₁
  | run budget =>
      have hbegun : Undisturbed (t.begun budget).cpu := h
      exact hbegun.ran (ran_of_runOut hcall)

/-- No later session is disturbed. -/
theorem Undisturbed.later (h : Undisturbed s.cpu) (hlater : Later s t) : Undisturbed t.cpu := by
  induction hlater with
  | start => exact h
  | called _ hquiet hcall ih =>
      obtain ⟨bound, hcall⟩ := hcall
      exact ih.call hquiet hcall
  | @answered t _ ih =>
      obtain ⟨hcpu, -, -⟩ := answer_spec t
      rw [hcpu]
      exact ih
  | changed _ _ ih => exact ih

end Calm

/-! ### The memory at the start -/

theorem mem_span {address start : UInt16} {count : Nat} :
    address ∈ span start count ↔ ∃ j < count, address = start + .ofNat j := by
  induction count generalizing start with
  | zero => exact ⟨fun h => absurd h List.not_mem_nil, fun ⟨_, hj, _⟩ => absurd hj (Nat.not_lt_zero _)⟩
  | succ count ih =>
      rw [span, List.mem_cons, ih]
      constructor
      · rintro (rfl | ⟨j, hj, rfl⟩)
        · exact ⟨0, by omega, (UInt16.add_zero _).symm⟩
        · exact ⟨j + 1, by omega, add_one_add_ofNat start j⟩
      · rintro ⟨j, hj, rfl⟩
        cases j with
        | zero => exact .inl (UInt16.add_zero start)
        | succ j => exact .inr ⟨j, by omega, (add_one_add_ofNat start j).symm⟩

theorem mem_span_iff_toNat {address start : UInt16} {count : Nat}
    (hfits : start.toNat + count ≤ 2 ^ 16) :
    address ∈ span start count ↔
      start.toNat ≤ address.toNat ∧ address.toNat < start.toNat + count := by
  have haddress := address.toNat_lt
  rw [mem_span]
  constructor
  · rintro ⟨j, hj, rfl⟩
    rw [UInt16.toNat_add, UInt16.toNat_ofNat', Nat.mod_eq_of_lt (by omega : j < 2 ^ 16),
      Nat.mod_eq_of_lt (by omega)]
    omega
  · rintro ⟨hle, hlt⟩
    refine ⟨address.toNat - start.toNat, by omega, UInt16.toNat.inj ?_⟩
    rw [UInt16.toNat_add, UInt16.toNat_ofNat',
      Nat.mod_eq_of_lt (by omega : address.toNat - start.toNat < 2 ^ 16), Nat.mod_eq_of_lt (by omega)]
    omega

theorem peekBytes_eq_of_getElem {μ : Type} [View μ] {m : μ} {start : UInt16} {bytes : List UInt8}
    (h : ∀ j (hj : j < bytes.length), peek m (start + .ofNat j) = bytes[j]) :
    peekBytes m start bytes.length = bytes := by
  induction bytes generalizing start with
  | nil => rfl
  | cons b bytes ih =>
      have hfirst : peek m start = b := by
        have h₀ := h 0 (Nat.succ_pos _)
        exact (congrArg (peek m) (UInt16.add_zero start)).symm.trans h₀
      have hrest : ∀ j (hj : j < bytes.length), peek m (start + 1 + .ofNat j) = bytes[j] := by
        intro j hj
        rw [add_one_add_ofNat]
        exact h (j + 1) (Nat.succ_lt_succ hj)
      rw [List.length_cons, peekBytes, hfirst, ih hrest]

section Load

variable (memory : Memory) {start : UInt16} {bytes : List UInt8}
  (hfits : start.toNat + bytes.length ≤ 2 ^ 16)
include hfits

/-- What is loaded is found where it has been put. -/
theorem peekBytes_load : peekBytes (memory.load start.toNat bytes) start bytes.length = bytes := by
  refine peekBytes_eq_of_getElem fun j hj => ?_
  have hoffset : (start + .ofNat j).toNat = start.toNat + j := by
    rw [UInt16.toNat_add, UInt16.toNat_ofNat', Nat.mod_eq_of_lt (by omega : j < 2 ^ 16),
      Nat.mod_eq_of_lt (by omega)]
  refine (Store.get_load memory start.toNat bytes hfits (UInt16.toNat_lt _)).trans ?_
  rw [hoffset, if_pos (Nat.le_add_right _ _), Nat.add_sub_cancel_left, List.getElem?_eq_getElem hj,
    Option.getD_some]

/-- The rest of memory stays what it is. -/
theorem peek_load {address : UInt16} (hout : address ∉ span start bytes.length) :
    peek (memory.load start.toNat bytes) address = peek memory address := by
  rw [mem_span_iff_toNat hfits] at hout
  refine (Store.get_load memory start.toNat bytes hfits address.toNat_lt).trans ?_
  by_cases hle : start.toNat ≤ address.toNat
  · rw [if_pos hle, List.getElem?_eq_none (by omega)]
    rfl
  · rw [if_neg hle]
    rfl

theorem peekBytes_load_of_disjoint {start' : UInt16} {count : Nat}
    (hout : ∀ address ∈ span start' count, address ∉ span start bytes.length) :
    peekBytes (memory.load start.toNat bytes) start' count = peekBytes memory start' count :=
  peekBytes_congr fun address hmem => peek_load memory hfits (hout address hmem)

end Load

/-- The memory that a program finds. -/
structure Image (program : List UInt8) (e : Environment) : Prop where
  boot : peekBytes e 0x0000 1 = [0x76]
  entry : peekBytes e 0x0005 3 = [0xC3, 0x00, 0xFE]
  loaded : peekBytes e 0x0100 program.length = program
  trap : peekBytes e 0xFE00 3 = [0xD3, 0x05, 0xC9]
  blank : ∀ address, address ∉ span 0x0000 1 → address ∉ span 0x0005 3 →
    address ∉ span 0x0100 program.length → address ∉ span 0xFE00 3 → peek e address = 0

theorem Image.installed {program : List UInt8} {e : Environment} (h : Image program e) :
    Installed e.board.memory :=
  ⟨(e.peekBytes_eq _ _).symm.trans h.entry, (e.peekBytes_eq _ _).symm.trans h.trap⟩

/-- Places that end where others begin have nothing in common with these. -/
theorem not_mem_span_of_le {address start start' : UInt16} {count count' : Nat}
    (hle : start.toNat + count ≤ start'.toNat) (hfits : start'.toNat + count' ≤ 2 ^ 16)
    (h : address ∈ span start count) : address ∉ span start' count' := by
  have hstart' := start'.toNat_lt
  rw [mem_span_iff_toNat (by omega)] at h
  rw [mem_span_iff_toNat hfits]
  omega

theorem not_mem_span_of_ge {address start start' : UInt16} {count count' : Nat}
    (hle : start'.toNat + count' ≤ start.toNat) (hfits : start.toNat + count ≤ 2 ^ 16)
    (h : address ∈ span start count) : address ∉ span start' count' := fun h' =>
  not_mem_span_of_le hle hfits h' h

/-- The memory with the system and without a program. -/
def systemMemory : Memory :=
  ((Board.blank.load 0x0000 [0x76]).load 0x0005 [0xC3, 0x00, 0xFE]).load systemStart
    [0xD3, trapPort, 0xC9] |>.memory

theorem peek_systemMemory {address : UInt16} (hboot : address ∉ span 0x0000 1)
    (hentry : address ∉ span 0x0005 3) (htrap : address ∉ span systemStart 3) :
    peek systemMemory address = 0 := by
  calc peek systemMemory address
    _ = peek (Board.blank.load 0x0000 [0x76] |>.load 0x0005 [0xC3, 0x00, 0xFE]).memory address :=
        peek_load _ (by decide) htrap
    _ = peek (Board.blank.load 0x0000 [0x76]).memory address := peek_load _ (by decide) hentry
    _ = peek Board.blank.memory address := peek_load _ (by decide) hboot
    _ = 0 := Store.get_uniform _ _ _

/-- Nothing that is loaded overlaps anything else, however long the program is. -/
theorem image_load {program : List UInt8} (hnonempty : program ≠ [])
    (hlength : program.length ≤ 0xFD00) :
    ∃ e, Environment.load program = .ok e ∧ Image program e := by
  have hempty : ¬ program.isEmpty = true := fun h => hnonempty (List.isEmpty_iff.mp h)
  have hlarge : ¬ capacity < program.length := Nat.not_lt.mpr hlength
  have hbelow : programStart.toNat + program.length ≤ systemStart.toNat :=
    Nat.add_le_add_left hlength 0x100
  have hfits : programStart.toNat + program.length ≤ 2 ^ 16 := Nat.le_trans hbelow (by decide)
  let board : Board Memory := ⟨systemMemory.load programStart.toNat program, Board.blank.ports⟩
  refine ⟨⟨board, false⟩, by rw [Environment.load, if_neg hempty, if_neg hlarge]; rfl, ?_⟩
  have hlow : ∀ (start : UInt16) (count : Nat), start.toNat + count ≤ programStart.toNat →
      peekBytes board.memory start count = peekBytes systemMemory start count :=
    fun _ _ hle => peekBytes_load_of_disjoint _ hfits fun _ => not_mem_span_of_le hle hfits
  have hhigh : peekBytes board.memory systemStart 3 = peekBytes systemMemory systemStart 3 :=
    peekBytes_load_of_disjoint _ hfits fun _ => not_mem_span_of_ge hbelow (by decide)
  refine ⟨?_, ?_, ?_, ?_, fun address hboot hentry hprogram htrap => ?_⟩
  · exact (Environment.peekBytes_eq _ _ _).trans ((hlow 0x0000 1 (by decide)).trans (by decide))
  · exact (Environment.peekBytes_eq _ _ _).trans ((hlow 0x0005 3 (by decide)).trans (by decide))
  · exact (Environment.peekBytes_eq _ _ _).trans (peekBytes_load systemMemory hfits)
  · exact (Environment.peekBytes_eq _ _ _).trans (hhigh.trans (by decide))
  · exact (peek_load _ hfits hprogram).trans (peek_systemMemory hboot hentry htrap)

/-! ### Calls of the system -/

/--
**Calls of the system are transparent.**  For a program of any length that can be loaded, memory is at
first the program with the code of the system around it, and nothing else.  In every later session that
is at a CALL 0005h, wherever that is and wherever the stack is, as long as the code of the system is in
its place and the stack not on top of it, four steps and 48 T-states call the system once, with the
registers of the caller, and come back with the same registers and the same memory, but for the two
bytes on the stack.
-/
theorem call_transparent (program : List UInt8) (hnonempty : 1 ≤ program.length)
    (hlength : program.length ≤ 0xFD00) :
    ∃ s, Session.start program = .ok s ∧ Image program s.bus ∧
      ∀ t, Later s t → Calling t → ∃ m₃ m₄, Transparent t m₃ m₄ := by
  obtain ⟨e, hload, himage⟩ := image_load (List.ne_nil_of_length_pos hnonempty) hlength
  have hstart : Session.start program = .ok
      ((Machine.powerOn .standard e).mapCpu (·.setPC programStart)) := by
    rw [Session.start, hload]
    rfl
  refine ⟨_, hstart, himage, fun t hlater hcalling => ?_⟩
  exact hcalling.transparent ((unlatched_start hstart).undisturbed.later hlater)

/-- CALL 0005h, and nothing else. -/
theorem call_transparent_alone :
    (1 ≤ [0xCD, 0x05, 0x00].length ∧ [0xCD, 0x05, 0x00].length ≤ 0xFD00) ∧
      ∃ s, Session.start [0xCD, 0x05, 0x00] = .ok s ∧ Later s s ∧ Calling s ∧
        ∃ m₃ m₄, Transparent s m₃ m₄ := by
  have hnonempty : 1 ≤ [0xCD, 0x05, 0x00].length := by decide
  have hlength : [0xCD, 0x05, 0x00].length ≤ 0xFD00 := by decide
  obtain ⟨s, hstart, himage, hcalls⟩ := call_transparent [0xCD, 0x05, 0x00] hnonempty hlength
  have hcalling : Calling s := by
    obtain ⟨e, -, rfl⟩ := exists_load_of_start hstart
    refine ⟨rfl, ?_, himage.installed, ?_, ?_⟩
    · exact (e.peekBytes_eq _ _).symm.trans himage.loaded
    · show (0xFFFF : UInt16) - 1 ∉ systemCode
      decide
    · show (0xFFFF : UInt16) - 2 ∉ systemCode
      decide
  exact ⟨⟨hnonempty, hlength⟩, s, hstart, .start, hcalling, hcalls s .start hcalling⟩

end Cpm

end Z80
