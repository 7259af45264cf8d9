/-
The event at a boundary.

`Cpu.due` names the event that follows, and the first part of this file says of each of
the four under which latches it is due.  `Event` is what has then happened, with what the
name leaves out: which instruction it was, and through how many NOPs a halted processor
idled.  `Machine.Happens` ties an event to the machines before and after it, by way of the
scripts that carry it out, and everything about single events is stated of that relation.

Every way to let a machine go on is made of such events.  `Machine.next` lets the one
happen that is due, with a bound on prefixes that changes nothing but whether there is a
result, and a halted processor that uses up its budget at once idles in one longer event.
-/
import Z80.Machine
import Z80.Proofs.Execute
import Z80.Proofs.Prefixes

namespace Z80

/-! ### What is due -/

namespace Cpu

theorem acceptable?_eq_some_iff (cpu : Cpu) (data : UInt8) :
    cpu.acceptable? = some data ↔
      cpu.interrupt = some data ∧ cpu.regs.iff1 = true ∧ cpu.shadow = false := by
  unfold acceptable?
  cases cpu.regs.iff1 <;> cases cpu.shadow <;> simp

theorem due_eq_nmi_iff (cpu : Cpu) : cpu.due = .nmi ↔ cpu.nmi = true := by
  unfold due
  cases cpu.nmi
  · cases cpu.acceptable? <;> cases cpu.regs.halted <;> simp
  · simp

theorem due_eq_interrupt_iff (cpu : Cpu) (data : UInt8) :
    cpu.due = .interrupt data ↔ cpu.nmi = false ∧ cpu.acceptable? = some data := by
  unfold due
  cases cpu.nmi <;> cases cpu.acceptable? <;> cases cpu.regs.halted <;> simp

theorem due_eq_halted_iff (cpu : Cpu) :
    cpu.due = .halted ↔ cpu.nmi = false ∧ cpu.acceptable? = none ∧ cpu.regs.halted = true := by
  unfold due
  cases cpu.nmi <;> cases cpu.acceptable? <;> cases cpu.regs.halted <;> simp

theorem due_eq_instruction_iff (cpu : Cpu) :
    cpu.due = .instruction ↔ cpu.nmi = false ∧ cpu.acceptable? = none ∧ cpu.regs.halted = false := by
  unfold due
  cases cpu.nmi <;> cases cpu.acceptable? <;> cases cpu.regs.halted <;> simp

/-! ### What the scripts of events do to the latches -/

theorem acceptNMI_ensures (cpu : Cpu) :
    cpu.acceptNMI.Ensures fun n o =>
      n ≤ 19 ∧ o.cpu.latches = { cpu.latches with nmi := false, halted := false } := by
  simp [acceptNMI]
  rfl

theorem handler_ensures (cpu : Cpu) (data : UInt8) :
    (cpu.handler data).Ensures fun n _ => n = if cpu.regs.im = 2 then 6 else 0 := by
  simp [handler]

theorem acceptInterrupt_ensures (cpu : Cpu) (data : UInt8) :
    (cpu.acceptInterrupt data).Ensures fun n o =>
      n ≤ 19 ∧ o.cpu.latches = { cpu.latches with interrupt := none, halted := false } := by
  simp only [acceptInterrupt, Script.ensures_bind, Script.ensures_internal, ensures_push,
    Script.ensures_pure]
  refine (handler_ensures _ data).mono fun n p hn => ⟨by split at hn <;> omega, ?_⟩
  rw [latches_goto, latches_setSP]
  rfl

theorem idle_ensures (cpu : Cpu) :
    cpu.idle.Ensures fun n o => n ≤ 19 ∧ o.cpu.latches = cpu.latches := by
  simp [idle]
  rfl

/-- An instruction is read and then executed. -/
theorem run_runInstruction {β : Type} [Bus β] (bound : Nat) (cpu : Cpu) (t : Timed β) :
    (cpu.runInstruction bound).run t =
      match ((Opcode.instruction bound none).script cpu.regs).run t with
      | ((none, _), t') => (none, t')
      | ((some i, regs), t') =>
          let done := (({ cpu.beginEvent with regs } : Cpu).execute i).run t'
          (some ⟨done.1, remarks regs.pc i⟩, done.2) := by
  unfold runInstruction
  rw [Script.run_bind']
  obtain ⟨⟨i, regs⟩, t'⟩ := ((Opcode.instruction bound none).script cpu.regs).run t
  cases i with
  | none => rfl
  | some i =>
      rw [Script.run_bind']
      rfl

end Cpu

/-! ### Events -/

/-- What can happen at a boundary. -/
inductive Event where
  /-- A non-maskable interrupt is accepted. -/
  | nmi
  /-- An interrupt is accepted, with the byte on the data lines. -/
  | interrupt (data : UInt8)
  /-- A halted processor idles for a number of NOPs. -/
  | idle (nops : Nat)
  /-- An instruction is executed, with all its prefixes. -/
  | instruction (i : Instruction)
deriving DecidableEq, Repr

namespace Event

/-- The name under which an event is due. -/
def due : Event → Due
  | nmi => .nmi
  | interrupt data => .interrupt data
  | idle _ => .halted
  | instruction _ => .instruction

theorem due_eq_nmi_iff (e : Event) : e.due = .nmi ↔ e = .nmi := by
  cases e <;> simp [due]

theorem due_eq_interrupt_iff (e : Event) (data : UInt8) :
    e.due = .interrupt data ↔ e = .interrupt data := by
  cases e <;> simp [due]

theorem due_eq_halted_iff (e : Event) : e.due = .halted ↔ ∃ n, e = .idle n := by
  cases e <;> simp [due]

theorem due_eq_instruction_iff (e : Event) : e.due = .instruction ↔ ∃ i, e = .instruction i := by
  cases e <;> simp [due]

/-- What an event does to the latches. -/
def latch : Event → Latches → Latches
  | nmi, l => { l with nmi := false, shadow := false, halted := false }
  | interrupt _, l => { l with interrupt := none, shadow := false, halted := false }
  | idle _, l => { l with shadow := false }
  | instruction i, l => i.latch { l with shadow := false }

end Event

namespace Machine

variable {β : Type}

/-- The machine after a script that ends in an outcome has been performed. -/
def performed [Bus β] (m : Machine β) (s : Script Outcome) : Machine β :=
  let (o, outside) := s.run m.outside
  ⟨o.cpu, outside, m.notices ++ o.notices.toArray⟩

/-- The machine after its halted processor has idled for a number of NOPs. -/
def idled (m : Machine β) (nops : Nat) : Machine β :=
  { m with
    cpu := { m.cpu with regs := m.cpu.regs.refresh nops, shadow := false }
    outside := m.outside.advance (nops * 4) }

/-- A halted processor that uses up its budget idles. -/
theorem idleOut_eq_idled (m : Machine β) : m.idleOut = m.idled m.clock.haltNops.toNat := rfl

/-- One event takes a machine to another.  At a boundary the shadow of EI ends in any case. -/
inductive Happens [Bus β] (m : Machine β) : Event → Machine β → Prop
  | nmi : Happens m .nmi (m.performed ({ m.cpu with shadow := false } : Cpu).acceptNMI)
  | interrupt (data : UInt8) :
      Happens m (.interrupt data)
        (m.performed (({ m.cpu with shadow := false } : Cpu).acceptInterrupt data))
  | idle (nops : Nat) : Happens m (.idle nops) (m.idled nops)
  | instruction {bound : Nat} {i : Instruction} {regs : Registers} {t t' : Timed β} {cpu : Cpu}
      (read : ((Opcode.instruction bound none).script m.cpu.regs).run m.outside = ((some i, regs), t))
      (executed : (({ ({ m.cpu with shadow := false } : Cpu).beginEvent with regs } : Cpu).execute i).run t
        = (cpu, t')) :
      Happens m (.instruction i) ⟨cpu, t', m.notices ++ (Cpu.remarks regs.pc i).toArray⟩

theorem performed_latches [Bus β] (m : Machine β) {s : Script Outcome} {l : Latches}
    (h : s.Ensures fun n o => n ≤ 19 ∧ o.cpu.latches = l) : (m.performed s).cpu.latches = l := by
  obtain ⟨n, -, hl⟩ := h.run m.outside
  exact hl

/-- An event changes the latches in its own way and in no other. -/
theorem Happens.latches [Bus β] {m m' : Machine β} {e : Event} (h : m.Happens e m') :
    m'.cpu.latches = e.latch m.cpu.latches := by
  cases h with
  | nmi => exact m.performed_latches (Cpu.acceptNMI_ensures _)
  | interrupt data => exact m.performed_latches (Cpu.acceptInterrupt_ensures _ data)
  | idle nops => rfl
  | @instruction bound i regs t t' cpu read executed =>
      obtain ⟨-, pc, count, hmoved⟩ := ((Opcode.instruction bound none).script_moved m.cpu.regs).run m.outside
      rw [read] at hmoved
      obtain rfl : regs = { m.cpu.regs with pc := pc, r := count } := hmoved
      obtain ⟨n, -, hl⟩ := (Cpu.execute_ensures _ i).run t
      rw [executed] at hl
      exact hl

/-- After an event that was due, the shadow of EI lies on no halted processor. -/
theorem Happens.calm [Bus β] {m m' : Machine β} {e : Event} (h : m.Happens e m')
    (hdue : e.due = m.cpu.due) : ¬ (m'.cpu.regs.halted = true ∧ m'.cpu.shadow = true) := by
  have hlatches := h.latches
  have hhalted : m'.cpu.regs.halted = (e.latch m.cpu.latches).halted := by rw [← hlatches]; rfl
  have hshadow : m'.cpu.shadow = (e.latch m.cpu.latches).shadow := by rw [← hlatches]; rfl
  rw [hhalted, hshadow]
  cases e with
  | nmi | interrupt data | idle nops => simp [Event.latch]
  | instruction i =>
      have hawake := ((Cpu.due_eq_instruction_iff _).mp hdue.symm).2.2
      -- EI is the only instruction that casts a shadow, and it leaves the halt state as it was.
      cases i <;> simp [Event.latch, Instruction.latch, Cpu.latches, hawake]

end Machine

end Z80
