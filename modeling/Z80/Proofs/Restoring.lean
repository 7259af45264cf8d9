/-
Loading back the snapshot of a machine.

A snapshot leaves out four things.  The internal address register is not touched by loading one, and
the halt state and the shadow of EI make no difference where there were none.  What is lost is the
memory of computed flags, and `Cpu.remembering` is a processor with another such memory.

It is lost for one event only.  Every event but idling begins by putting aside what was remembered
(`Cpu.beginEvent`), and of all instructions only SCF and CCF look at what was put aside.  So an
event on another memory is the same script, up to what has been put aside, unless it is one of
these two (`execute_withPrevious`, `next_remembering`); and what has been put aside is overwritten by
the next event without having been looked at.  Two machines between which that is all the
difference stay so whatever is asked of them (`Resumes`, `calls_resumes`).
-/
import Z80.Proofs.Calls
import Z80.Proofs.Waiting

namespace Z80

/-! ### Snapshots -/

namespace Registers

theorem snapshot_restore (r : Registers) (s : Snapshot) :
    (r.restore s).snapshot = { s with im := min s.im 2 } := by
  simp [restore, snapshot, RegisterSet.ofPairs, RegisterSet.af, RegisterSet.bc, RegisterSet.de,
    RegisterSet.hl]

theorem restore_snapshot (r : Registers) :
    r.restore r.snapshot = { r with im := min r.im 2, halted := false } := by
  simp [restore, snapshot, RegisterSet.ofPairs, RegisterSet.af, RegisterSet.bc, RegisterSet.de,
    RegisterSet.hl]

end Registers

namespace Cpu

/-- The processor with another memory of computed flags. -/
def remembering (cpu : Cpu) (q previousQ : UInt8) : Cpu := { cpu with q, previousQ }

/-- A processor that is awake and not in the shadow of EI only loses its memory of flags. -/
theorem restore_snapshot {cpu : Cpu} (him : cpu.regs.im ≤ 2) (hawake : cpu.regs.halted = false)
    (hlit : cpu.shadow = false) : cpu.restore cpu.snapshot = cpu.remembering 0 0 := by
  have hmode : min cpu.regs.im 2 = cpu.regs.im := if_pos him
  have hregs : cpu.regs.restore cpu.regs.snapshot = cpu.regs := by
    rw [Registers.restore_snapshot, hmode, ← hawake]
  unfold restore snapshot
  rw [hregs, ← hlit]
  rfl

/-! ### What is put aside -/

/-- The processor with another byte put aside for SCF and CCF. -/
def withPrevious (cpu : Cpu) (v : UInt8) : Cpu := { cpu with previousQ := v }

/-- The processor that executes an instruction when it has read it and has these registers. -/
def decoded (cpu : Cpu) (regs : Registers) : Cpu :=
  { ({ cpu with shadow := false } : Cpu).beginEvent with regs }

/-- What was remembered is what has been put aside when an instruction is executed. -/
theorem decoded_remembering (cpu : Cpu) (a b : UInt8) (regs : Registers) :
    (cpu.remembering a b).decoded regs = (cpu.decoded regs).withPrevious a := rfl

/-- Only SCF and CCF look at what has been put aside. -/
theorem execute_withPrevious (cpu : Cpu) (v : UInt8) {i : Instruction} (hscf : i ≠ .scf)
    (hccf : i ≠ .ccf) : (cpu.withPrevious v).execute i = (withPrevious · v) <$> cpu.execute i := by
  cases i
  case scf => exact absurd rfl hscf
  case ccf => exact absurd rfl hccf
  case accumulate op operand =>
    cases operand with
    | register r => rfl
    | immediate n => rfl
    | memory p => cases p <;> rfl
  case loadFrom target p => cases p <;> rfl
  case storeTo p source => cases p <;> rfl
  case storeImmediate p n => cases p <;> rfl
  case incrementAt p => cases p <;> rfl
  case decrementAt p => cases p <;> rfl
  case testAt n p => cases p <;> rfl
  case inputC target => cases target <;> rfl
  case modify op target => cases op <;> rfl
  case modifyAt op p copy => cases op <;> cases p <;> cases copy <;> rfl
  case jumpIf condition target =>
    simp only [execute, map_pure, apply_ite (withPrevious · v)]
    rfl
  case jumpRelativeIf | djnz | callIf =>
    simp only [execute, apply_ite (Functor.map (withPrevious · v))]
    rfl
  case retIf condition =>
    simp only [execute, map_bind, apply_ite (Functor.map (withPrevious · v))]
    rfl
  case block op d repeats =>
    cases op <;>
      simp only [execute, blockLoad, blockCompare, blockInput, blockOutput, map_bind,
        apply_ite (Functor.map (withPrevious · v))] <;>
      rfl
  all_goals rfl

/-- What SCF and CCF make of F, another byte put aside makes the same of it but for the copied bits. -/
theorem execute_copied (cpu : Cpu) (v : UInt8) {i : Instruction} (hi : i = .scf ∨ i = .ccf) :
    ∃ c : Cpu, cpu.execute i = pure c ∧ c.q = c.regs.main.f ∧
      ∃ source, (cpu.withPrevious v).execute i =
        pure ((c.setFlags (c.flags.withCopied source)).withPrevious v) := by
  rcases hi with rfl | rfl
  · refine ⟨_, rfl, rfl, (cpu.withPrevious v).carrySource, ?_⟩
    simp only [execute, flags, setFlags, Flags.ofByte_toByte]
    rfl
  · refine ⟨_, rfl, rfl, (cpu.withPrevious v).carrySource, ?_⟩
    simp only [execute, flags, setFlags, Flags.ofByte_toByte]
    rfl

/-- Whatever has been put aside, an event that does something puts it aside anew. -/
theorem event_withPrevious (cpu : Cpu) (v : UInt8) (bound : Nat) (hdue : cpu.due ≠ .halted) :
    (cpu.withPrevious v).event bound = cpu.event bound := by
  have hdue' : (cpu.withPrevious v).due = cpu.due := rfl
  unfold event
  rw [hdue']
  cases h : cpu.due with
  | halted => exact absurd h hdue
  | nmi => rfl
  | interrupt data => rfl
  | instruction => rfl

/-- An acceptance on another memory of flags puts something else aside, and that is all. -/
theorem acceptNMI_remembering (cpu : Cpu) (a b : UInt8) :
    (cpu.remembering a b).acceptNMI =
      (fun o : Outcome => { o with cpu := o.cpu.withPrevious a }) <$> cpu.acceptNMI := rfl

theorem acceptInterrupt_remembering (cpu : Cpu) (a b data : UInt8) :
    (cpu.remembering a b).acceptInterrupt data =
      (fun o : Outcome => { o with cpu := o.cpu.withPrevious a }) <$> cpu.acceptInterrupt data := by
  simp only [acceptInterrupt, map_bind]
  rfl

end Cpu

namespace Machine

variable {β : Type} {m m' : Machine β}

/-! ### One event -/

/-- Two machines differ in nothing that any event to come will look at. -/
structure Resumes (m m' : Machine β) : Prop where
  cpu : ∃ v, m'.cpu = m.cpu.withPrevious v
  outside : m'.outside = m.outside

namespace Resumes

theorem due (h : Resumes m m') : m'.cpu.due = m.cpu.due := by
  obtain ⟨v, hcpu⟩ := h.cpu
  rw [hcpu]
  rfl

theorem clock (h : Resumes m m') : m'.clock = m.clock := congrArg Timed.clock h.outside

theorem idled (h : Resumes m m') (nops : Nat) : Resumes (m.idled nops) (m'.idled nops) := by
  obtain ⟨v, hcpu⟩ := h.cpu
  refine ⟨⟨v, ?_⟩, ?_⟩
  · simp only [Machine.idled, hcpu]
    rfl
  · simp only [Machine.idled, h.outside]

theorem mapClock (h : Resumes m m') (f : Clock → Clock) : Resumes (m.mapClock f) (m'.mapClock f) := by
  refine ⟨h.cpu, ?_⟩
  simp only [Machine.mapClock, h.outside]

/-- The same requests to yield are taken. -/
theorem takeYield (h : Resumes m m') : Resumes m.takeYield.2 m'.takeYield.2 :=
  h.mapClock (·.takeYield.2)

/-- A call that is made on the processor alone is made alike. -/
theorem mapCpu (h : Resumes m m') {f : Cpu → Cpu}
    (hf : ∀ cpu v, ∃ v', f (cpu.withPrevious v) = (f cpu).withPrevious v') :
    Resumes (m.mapCpu f) (m'.mapCpu f) := by
  obtain ⟨v, hcpu⟩ := h.cpu
  obtain ⟨v', hv'⟩ := hf m.cpu v
  refine ⟨⟨v', ?_⟩, h.outside⟩
  simp only [Machine.mapCpu, hcpu, hv']

end Resumes

variable [Bus β]

/-- Machines that differ in what is put aside go on alike. -/
theorem next_resumes (h : Resumes m m') (bound : Nat) :
    Option.Rel Resumes (m.next bound) (m'.next bound) := by
  by_cases hhalted : m.cpu.due = .halted
  · rw [next_of_halted bound hhalted, next_of_halted bound (h.due.trans hhalted)]
    exact .some (h.idled 1)
  obtain ⟨⟨v, hcpu⟩, houtside⟩ := h
  have hevent : m'.cpu.event bound = m.cpu.event bound := by
    rw [hcpu, Cpu.event_withPrevious _ _ _ hhalted]
  unfold next
  rw [hevent, houtside]
  rcases (m.cpu.event bound).run m.outside with ⟨outcome, t⟩
  cases outcome with
  | none => exact .none
  | some o => exact .some ⟨⟨o.cpu.previousQ, rfl⟩, rfl⟩

/--
What a machine remembers plays no part in reading an instruction, so machines that differ in it read
the same one.
-/
theorem next_decoded {R : Machine β → Machine β → Prop} {bound : Nat} (hdue : m.cpu.due = .instruction)
    (hdue' : m'.cpu.due = .instruction) (hregs : m'.cpu.regs = m.cpu.regs)
    (houtside : m'.outside = m.outside)
    (hR : ∀ i regs t notices notices', m.coming? bound = some (.instruction i) →
      R ⟨(((m.cpu.decoded regs).execute i).run t).1, (((m.cpu.decoded regs).execute i).run t).2, notices⟩
        ⟨(((m'.cpu.decoded regs).execute i).run t).1, (((m'.cpu.decoded regs).execute i).run t).2,
          notices'⟩) :
    Option.Rel R (m.next bound) (m'.next bound) := by
  simp only [coming?, hdue] at hR
  simp only [next, Cpu.event, hdue, hdue', Cpu.run_runInstruction, hregs, houtside]
  rcases hread : ((Opcode.instruction bound none).script m.cpu.regs).run m.outside with ⟨⟨i?, regs⟩, t⟩
  rw [hread] at hR
  cases i? with
  | none => exact .none
  | some i => exact .some (hR i regs t _ _ rfl)

/-- So do machines with different memories, if one is awake and about to do anything but SCF and CCF. -/
theorem next_remembering {a b : UInt8} {bound : Nat} (hcpu : m'.cpu = m.cpu.remembering a b)
    (houtside : m'.outside = m.outside) (hhalted : m.cpu.due ≠ .halted)
    (hother : ∀ i, m.coming? bound = some (.instruction i) → i ≠ .scf ∧ i ≠ .ccf) :
    Option.Rel Resumes (m.next bound) (m'.next bound) := by
  have hdue' : m'.cpu.due = m.cpu.due := by rw [hcpu]; rfl
  have hperformed : ∀ s : Script Outcome, Resumes (m.performed s)
      (m'.performed ((fun o : Outcome => { o with cpu := o.cpu.withPrevious a }) <$> s)) := by
    intro s
    refine ⟨⟨a, ?_⟩, ?_⟩
    · simp only [performed, Script.run_map, houtside]
    · simp only [performed, Script.run_map, houtside]
  cases hdue : m.cpu.due with
  | halted => exact absurd hdue hhalted
  | nmi =>
      rw [next_of_nmi bound hdue, next_of_nmi bound (hdue'.trans hdue), hcpu]
      refine .some ?_
      have := hperformed ({ m.cpu with shadow := false } : Cpu).acceptNMI
      rwa [← Cpu.acceptNMI_remembering _ a b] at this
  | interrupt data =>
      rw [next_of_interrupt bound hdue, next_of_interrupt bound (hdue'.trans hdue), hcpu]
      refine .some ?_
      have := hperformed (({ m.cpu with shadow := false } : Cpu).acceptInterrupt data)
      rwa [← Cpu.acceptInterrupt_remembering _ a b] at this
  | instruction =>
      refine next_decoded hdue (hdue'.trans hdue) (by rw [hcpu]; rfl) houtside ?_
      intro i regs t notices notices' hcoming
      obtain ⟨hscf, hccf⟩ := hother i hcoming
      rw [hcpu, Cpu.decoded_remembering, Cpu.execute_withPrevious _ a hscf hccf, Script.run_map]
      exact ⟨⟨a, rfl⟩, rfl⟩

/--
Behind SCF or CCF two machines differ in the copied bits of F and in nothing else that an event to come
will look at.  What they remember is F.
-/
structure CopiedElse (m m' : Machine β) : Prop where
  cpu : ∃ source v, m'.cpu = (m.cpu.setFlags (m.cpu.flags.withCopied source)).withPrevious v
  remembered : m.cpu.q = m.cpu.regs.main.f
  outside : m'.outside = m.outside

omit [Bus β] in
theorem CopiedElse.takeYield (h : CopiedElse m m') : CopiedElse m.takeYield.2 m'.takeYield.2 := by
  refine ⟨h.cpu, h.remembered, ?_⟩
  simp only [Machine.takeYield, mapClock, clock, h.outside]

/-- On another memory SCF and CCF compute other copied bits, and that is all. -/
theorem next_copied {a b : UInt8} {bound : Nat} {i : Instruction} (hcpu : m'.cpu = m.cpu.remembering a b)
    (houtside : m'.outside = m.outside) (hcoming : m.coming? bound = some (.instruction i))
    (hi : i = .scf ∨ i = .ccf) : Option.Rel CopiedElse (m.next bound) (m'.next bound) := by
  have hdue' : m'.cpu.due = m.cpu.due := by rw [hcpu]; rfl
  have hdue : m.cpu.due = .instruction := by
    unfold coming? at hcoming
    cases hdue : m.cpu.due <;> simp [hdue] at hcoming ⊢
  refine next_decoded hdue (hdue'.trans hdue) (by rw [hcpu]; rfl) houtside ?_
  intro j regs t notices notices' hcoming'
  obtain rfl : i = j := Event.instruction.inj (Option.some.inj (hcoming.symm.trans hcoming'))
  obtain ⟨c, hexecute, hq, source, hexecute'⟩ := Cpu.execute_copied (m.cpu.decoded regs) a hi
  rw [hcpu, Cpu.decoded_remembering, hexecute, hexecute']
  exact ⟨⟨source, a, rfl⟩, hq, rfl⟩

/-! ### Calls -/

theorem runOut_resumes (h : Resumes m m') (bound events : Nat) :
    Option.Rel Resumes (m.runOut bound events) (m'.runOut bound events) := by
  induction events generalizing m m' with
  | zero => exact .none
  | succ events ih =>
      rw [runOut_succ, runOut_succ, h.clock, h.due]
      split
      · exact .some h
      · split
        · rw [idleOut_eq_idled, idleOut_eq_idled, h.clock]
          exact .some (h.idled _)
        · refine rel_bind (next_resumes h bound) fun l l' hl => ?_
          rw [hl.clock]
          split
          · exact .some hl.takeYield
          · exact ih hl

/-- Events that are alike make steps that are alike. -/
theorem rel_call_step {R : Machine β → Machine β → Prop} {bound : Nat}
    (h : Option.Rel R (m.next bound) (m'.next bound))
    (hR : ∀ l l', R l l' → R l.takeYield.2 l'.takeYield.2) :
    Option.Rel R (m.call bound .step) (m'.call bound .step) := by
  rw [call_step, call_step]
  revert h
  generalize m.next bound = m?
  generalize m'.next bound = m?'
  rintro (hl | _)
  · exact .some (hR _ _ hl)
  · exact .none

theorem call_resumes (h : Resumes m m') (bound : Nat) (c : Call) :
    Option.Rel Resumes (m.call bound c) (m'.call bound c) := by
  cases c with
  | requestInterrupt data | clearInterrupt | requestNMI | write r =>
      exact .some (h.mapCpu fun cpu v => ⟨v, rfl⟩)
  | reset => exact .some (h.mapCpu fun cpu v => ⟨0, rfl⟩)
  | restore s =>
      have hcpu := h.mapCpu (f := (·.restore s)) fun cpu v => ⟨0, rfl⟩
      exact .some ⟨hcpu.cpu, h.outside⟩
  | step => exact rel_call_step (next_resumes h bound) fun _ _ => Resumes.takeYield
  | run budget => exact runOut_resumes (h.mapClock (·.setBudget budget)) bound bound

/-- Machines that differ in what is put aside do alike whatever a host asks of them. -/
theorem calls_resumes (h : Resumes m m') (bound : Nat) (cs : List Call) :
    Option.Rel Resumes (m.calls bound cs) (m'.calls bound cs) := by
  induction cs generalizing m m' with
  | nil => exact .some h
  | cons c cs ih => exact rel_bind (call_resumes h bound c) fun _ _ hl => ih hl

/-! ### Loading back a snapshot -/

/--
**Loading back its own snapshot does not change what a machine does.**  The snapshot of a processor into
which one has been loaded is that one, with a mode that there is.  A machine that is awake and not in the
shadow of EI only loses its memory of computed flags when it loads the snapshot that it has just
made; and after a step, which may be the acceptance of an interrupt, and whatever else is asked of it,
all its registers and latches, the clock, the bus and what the bus has been asked are what they
would be, unless the step executes SCF or CCF.  Where it does, the copied bits of F and of what is
remembered can be others at the end of the step, and nothing else.
-/
theorem restore_transparent :
    (∀ (cpu : Cpu) (s : Snapshot), (cpu.restore s).snapshot = { s with im := min s.im 2 }) ∧
    ∀ m : Machine (Logged β), m.cpu.regs.im ≤ 2 → m.cpu.regs.halted = false → m.cpu.shadow = false →
      (m.restore m.cpu.snapshot).cpu = m.cpu.remembering 0 0 ∧
      (m.restore m.cpu.snapshot).outside = m.outside ∧
      ∀ bound,
        ((∀ i, m.coming? bound = some (.instruction i) → i ≠ .scf ∧ i ≠ .ccf) → ∀ cs,
          Option.Rel Resumes (m.calls bound (.step :: cs))
            ((m.restore m.cpu.snapshot).calls bound (.step :: cs))) ∧
        ∀ i, m.coming? bound = some (.instruction i) → i = .scf ∨ i = .ccf →
          Option.Rel CopiedElse (m.call bound .step) ((m.restore m.cpu.snapshot).call bound .step) := by
  refine ⟨fun cpu s => Registers.snapshot_restore cpu.regs s, fun m him hawake hlit => ?_⟩
  have hcpu : (m.restore m.cpu.snapshot).cpu = m.cpu.remembering 0 0 :=
    Cpu.restore_snapshot him hawake hlit
  refine ⟨hcpu, rfl, fun bound => ⟨fun hother cs => ?_, fun i hcoming hi => ?_⟩⟩
  · have hhalted : m.cpu.due ≠ .halted := by
      intro hdue
      exact absurd ((Cpu.due_eq_halted_iff _).mp hdue).2.2 (by rw [hawake]; decide)
    have hfirst : Option.Rel Resumes (m.next bound) ((m.restore m.cpu.snapshot).next bound) :=
      next_remembering hcpu rfl hhalted hother
    exact rel_bind (rel_call_step hfirst fun _ _ => Resumes.takeYield) fun _ _ hl =>
      calls_resumes hl bound cs
  · exact rel_call_step (next_copied hcpu rfl hcoming hi) fun _ _ => CopiedElse.takeYield

/--
SCF behind CP 28h copies the bits of A, which are clear, or those of F when the snapshot has been loaded
in between.  Loading it before CP makes no difference.
-/
theorem restore_transparent_scf :
    ∃ m m₁ m₁' m₂ m₂' : Machine (Logged (Board Memory)),
      m = (powerOn ⟨0, 0, .restart⟩ (Board.blank.load 0 [0xFE, 0x28, 0x37])).logged ∧
      m.call 2 .step = some m₁ ∧ (m.restore m.cpu.snapshot).call 2 .step = some m₁' ∧
      Resumes m₁ m₁' ∧
      m₁.call 2 .step = some m₂ ∧ (m₁.restore m₁.cpu.snapshot).call 2 .step = some m₂' ∧
      m₂.cpu.regs.main.f = 0x81 ∧ m₂'.cpu.regs.main.f = 0xA9 ∧ CopiedElse m₂ m₂' := by
  obtain ⟨m, m₁, m₁', m₂, m₂', hm, hm₁, hm₁', hm₂, hm₂', him, hawake, hlit, hcoming, him', hawake', hlit',
      hcoming', hf, hf'⟩ :
      ∃ m m₁ m₁' m₂ m₂' : Machine (Logged (Board Memory)),
        m = (powerOn ⟨0, 0, .restart⟩ (Board.blank.load 0 [0xFE, 0x28, 0x37])).logged ∧
        m.call 2 .step = some m₁ ∧ (m.restore m.cpu.snapshot).call 2 .step = some m₁' ∧
        m₁.call 2 .step = some m₂ ∧ (m₁.restore m₁.cpu.snapshot).call 2 .step = some m₂' ∧
        m.cpu.regs.im = 0 ∧ m.cpu.regs.halted = false ∧ m.cpu.shadow = false ∧
        m.coming? 2 = some (.instruction (.accumulate .cp (.immediate 0x28))) ∧
        m₁.cpu.regs.im = 0 ∧ m₁.cpu.regs.halted = false ∧ m₁.cpu.shadow = false ∧
        m₁.coming? 2 = some (.instruction .scf) ∧
        m₂.cpu.regs.main.f = 0x81 ∧ m₂'.cpu.regs.main.f = 0xA9 :=
    ⟨_, _, _, _, _, rfl, rfl, rfl, rfl, rfl, rfl, rfl, rfl, rfl, rfl, rfl, rfl, rfl, rfl, rfl⟩
  obtain ⟨-, htransparent⟩ := restore_transparent (β := Board Memory)
  obtain ⟨-, -, hlost⟩ := htransparent m (by rw [him]; decide) hawake hlit
  obtain ⟨-, -, hlost'⟩ := htransparent m₁ (by rw [him']; decide) hawake' hlit'
  have hother : ∀ i, m.coming? 2 = some (.instruction i) → i ≠ .scf ∧ i ≠ .ccf := by
    intro i hi
    obtain rfl := Event.instruction.inj (Option.some.inj (hcoming.symm.trans hi))
    exact ⟨nofun, nofun⟩
  have hresumes := (hlost 2).1 hother []
  have hcopied := (hlost' 2).2 .scf hcoming' (.inl rfl)
  simp only [calls, hm₁, hm₁', Option.bind_some] at hresumes
  rw [hm₂, hm₂'] at hcopied
  cases hresumes with
  | some hresumes =>
      cases hcopied with
      | some hcopied => exact ⟨m, m₁, m₁', m₂, m₂', hm, hm₁, hm₁', hresumes, hm₂, hm₂', hf, hf', hcopied⟩

end Machine

end Z80
