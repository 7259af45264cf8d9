/-
Programs that are interrupted.

Acceptance pushes the program counter and a return pops it, so the two undo each other wherever the
stack is (`Memory.peekWord_pushed`).  In between the handler is looked up, in mode 2 in a table which the
push may just have overwritten; but looking it up changes nothing (`Cpu.bus_run_handler`), and it is enough
to know which instruction stands where the look-up has led.  `Entered` is what an acceptance has done
to the registers and the board, and `Resumed` is what is left of it behind the return.

The flip-flops do not come back one by one.  An NMI clears IFF1 and spares IFF2, and RETN and RETI copy
IFF2 into IFF1, so it is IFF2 that keeps the value through handlers within handlers.  `Balanced` says so
along the record of a machine, with the number of handlers under way, and every event keeps it.
-/
import Z80.Proofs.Chronicle
import Z80.Proofs.Interrupts
import Z80.Proofs.Repeating
import Z80.Proofs.Yielding

namespace Z80

/-! ### The stack on the plain board -/

namespace Memory

/-- The memory after a word has been pushed. -/
def pushed (memory : Memory) (sp w : UInt16) : Memory :=
  Storage.store (Storage.store memory (sp - 1) (Word.high w)) (sp - 2) (Word.low w)

variable (memory : Memory) (sp w : UInt16)

theorem peek_pushed_of_ne {address : UInt16} (hhigh : address ≠ sp - 1) (hlow : address ≠ sp - 2) :
    peek (memory.pushed sp w) address = peek memory address := by
  rw [pushed, peek_store, if_neg hlow.symm, peek_store, if_neg hhigh.symm]

/-- What has been pushed is found on top of the stack, at whatever address that is. -/
theorem peekWord_pushed : peekWord (memory.pushed sp w) (sp - 2) = w := by
  have hnext : sp - 2 + 1 = sp - 1 := by grind
  have hne : sp - 2 ≠ sp - 1 := by grind
  rw [peekWord, pushed, hnext, peek_store, if_neg hne, peek_store, if_pos rfl, peek_store, if_pos rfl,
    Word.ofBytes_high_low]

end Memory

namespace Script

variable (t : Timed (Board Memory))

@[simp] theorem run_readWord (address : UInt16) :
    (readWord address).run t = (peekWord t.bus.memory address, t.advance 6) := by
  simp [readWord, peekWord]

@[simp] theorem run_push (sp w : UInt16) :
    (push sp w).run t =
      (sp - 2, ⟨t.clock.advance 6, { t.bus with memory := t.bus.memory.pushed sp w }⟩) := by
  simp only [push, run_bind', run_write, run_pure, Clock.advance_advance, Memory.pushed]

@[simp] theorem run_pop (sp : UInt16) :
    (pop sp).run t = ((peekWord t.bus.memory sp, sp + 2), t.advance 6) := by
  simp [pop]

end Script

/-! ### Acceptance -/

/--
A handler has been entered.  The program counter has been pushed and the processor is awake; of the other
registers WZ, R and the flip-flops can have changed.
-/
structure Entered (before : Registers) (b : Board Memory) (after : Registers) (b' : Board Memory) : Prop where
  regs : ∃ pc wz r iff1 iff2, after =
    { before with
      sp := before.sp - 2, pc := pc, wz := wz, r := r, iff1 := iff1, iff2 := iff2, halted := false }
  bus : b' = { b with memory := b.memory.pushed before.sp before.pc }

namespace Cpu

/-- Finding the handler changes nothing. -/
theorem bus_run_handler (cpu : Cpu) (data : UInt8) (t : Timed (Board Memory)) :
    ((cpu.handler data).run t).2.bus = t.bus := by
  unfold handler
  split
  · simp
  · split <;> rfl

/-- A processor that has been woken, pushes the program counter and goes to a target has entered a handler. -/
theorem entered_goto {cpu woken : Cpu} {iff2 : Bool}
    (hwoken : woken.regs = { cpu.regs.refresh 1 with halted := false, iff1 := false, iff2 := iff2 })
    (target : UInt16) (b : Board Memory) :
    Entered cpu.regs b ((woken.setSP (cpu.regs.sp - 2)).goto target).regs
      { b with memory := b.memory.pushed cpu.regs.sp cpu.regs.pc } := by
  refine ⟨⟨target, target, (cpu.regs.refresh 1).r, false, iff2, ?_⟩, rfl⟩
  simp only [goto, setPC, setWZ, setSP, hwoken, Registers.refresh]

theorem acceptNMI_enters (cpu : Cpu) (t : Timed (Board Memory)) :
    Entered cpu.regs t.bus (cpu.acceptNMI.run t).1.cpu.regs (cpu.acceptNMI.run t).2.bus := by
  simp only [acceptNMI, push, Script.run_bind', Script.run_internal, Script.run_push, Script.run_pure]
  exact entered_goto rfl _ _

theorem acceptInterrupt_enters (cpu : Cpu) (data : UInt8) (t : Timed (Board Memory)) :
    Entered cpu.regs t.bus ((cpu.acceptInterrupt data).run t).1.cpu.regs
      ((cpu.acceptInterrupt data).run t).2.bus := by
  simp only [acceptInterrupt, push, Script.run_bind', Script.run_internal, Script.run_push, Script.run_pure,
    bus_run_handler]
  exact entered_goto rfl _ _

end Cpu

/-! ### Return -/

/-- The codes of RETN and RETI behind ED. -/
def Opcode.returnCodes : List UInt8 := [0x45, 0x4D, 0x55, 0x5D, 0x65, 0x6D, 0x75, 0x7D]

/-- The code of RET, RETN or RETI stands at an address. -/
def Memory.ReturnsAt (memory : Memory) (address : UInt16) : Prop :=
  peek memory address = 0xC9 ∨
    peek memory address = 0xED ∧ peek memory (address + 1) ∈ Opcode.returnCodes

namespace Opcode

theorem extended_return {op : UInt8} (hop : op ∈ returnCodes) :
    ∃ i : Instruction, i.returns = true ∧ ∃ next, extended = .opcode next ∧ next op = pure i := by
  simp only [returnCodes, List.mem_cons, List.not_mem_nil, or_false] at hop
  rcases hop with rfl | rfl | rfl | rfl | rfl | rfl | rfl | rfl
  case inr.inl => exact ⟨.reti, rfl, _, rfl, rfl⟩
  all_goals exact ⟨.retn, rfl, _, rfl, rfl⟩

/-- Reading an instruction that returns changes the program counter, R and the clock. -/
theorem run_instruction_return {r : Registers} {t : Timed (Board Memory)}
    (hcode : t.bus.memory.ReturnsAt r.pc) (bound : Nat) :
    ∃ i : Instruction, i.returns = true ∧ ∃ pc count clock,
      ((instruction (bound + 1) none).script r).run t =
        ((some i, { r with pc := pc, r := count }), ⟨clock, t.bus⟩) := by
  rcases hcode with hop | ⟨hED, hop⟩
  · refine ⟨.ret, rfl, r.pc + 1, (r.refresh 1).r, t.clock.advance 4, ?_⟩
    have hret : unprefixed none 0xC9 = pure .ret := rfl
    have hindex : Index.ofByte? 0xC9 = none := rfl
    simp only [run_instruction_succ, perform_fetch, hop, hindex, hret]
    rfl
  · obtain ⟨i, hi, hextended⟩ := extended_return hop
    exact ⟨i, hi, _, _, _, run_instruction_extended hextended hED rfl bound⟩

end Opcode

/-- A return goes on at the address on top of the stack, and may copy one flip-flop into the other. -/
theorem Cpu.run_return (cpu : Cpu) {i : Instruction} (hi : i.returns = true) (t : Timed (Board Memory)) :
    ∃ wz iff1, ((cpu.execute i).run t).1.regs =
        { cpu.regs with pc := peekWord t.bus.memory cpu.regs.sp, sp := cpu.regs.sp + 2, wz := wz, iff1 := iff1 } ∧
      ((cpu.execute i).run t).2.bus = t.bus := by
  cases i <;> simp only [Instruction.returns, Bool.false_eq_true] at hi
  all_goals
    simp only [execute, ret, pop, Script.run_bind', Script.run_pop, Script.run_pure]
    exact ⟨_, _, rfl, rfl⟩

namespace Machine

section Return

variable {m m' : Machine (Board Memory)}

/-- An interrupt that is due is accepted, and then an instruction is due. -/
theorem next_entered (haccepts : m.cpu.due = .nmi ∨ ∃ data, m.cpu.due = .interrupt data) (bound : Nat) :
    ∃ m', m.next bound = some m' ∧ m'.cpu.due = .instruction ∧
      Entered m.cpu.regs m.bus m'.cpu.regs m'.bus := by
  have hentered : ∃ m', m.next bound = some m' ∧ Entered m.cpu.regs m.bus m'.cpu.regs m'.bus := by
    rcases haccepts with hdue | ⟨data, hdue⟩
    · exact ⟨_, next_of_nmi bound hdue, ({ m.cpu with shadow := false } : Cpu).acceptNMI_enters _⟩
    · exact ⟨_, next_of_interrupt bound hdue,
        ({ m.cpu with shadow := false } : Cpu).acceptInterrupt_enters data _⟩
  obtain ⟨m', hnext, hm'⟩ := hentered
  obtain ⟨e, -, hdue, hhappens⟩ := next_happens hnext
  refine ⟨m', hnext, due_of_accepts hdue hhappens ?_, hm'⟩
  rw [← hdue] at haccepts
  exact haccepts

/-- Where the code of a return stands, an instruction that is due returns. -/
theorem next_returned (hdue : m.cpu.due = .instruction)
    (hcode : m.bus.memory.ReturnsAt m.cpu.regs.pc) (bound : Nat) :
    ∃ m', m.next (bound + 1) = some m' ∧ m'.bus = m.bus ∧ ∃ wz r iff1, m'.cpu.regs =
      { m.cpu.regs with
        pc := peekWord m.bus.memory m.cpu.regs.sp, sp := m.cpu.regs.sp + 2, wz := wz, r := r, iff1 := iff1 } := by
  obtain ⟨i, hi, pc, count, clock, hread⟩ := Opcode.run_instruction_return hcode bound
  obtain ⟨wz, iff1, hregs, hbus⟩ := Cpu.run_return
    { ({ m.cpu with shadow := false } : Cpu).beginEvent with regs := { m.cpu.regs with pc := pc, r := count } }
    hi ⟨clock, m.outside.bus⟩
  exact ⟨_, next_of_read hdue hread, hbus, wz, count, iff1, hregs⟩

/--
What an interrupt has left of the machine as it was before.  The registers are the same, AF, BC, DE, HL,
their alternates, IX, IY, SP, PC, I and the mode; the internal WZ, R and the flip-flops may be others, and a
processor that was halted no longer is.  Memory has changed at most below the top of the stack.
-/
structure Resumed (m m' : Machine (Board Memory)) : Prop where
  regs : ∃ wz r iff1 iff2, m'.cpu.regs =
    { m.cpu.regs with wz := wz, r := r, iff1 := iff1, iff2 := iff2, halted := false }
  memory : ∀ address, address ≠ m.cpu.regs.sp - 1 → address ≠ m.cpu.regs.sp - 2 →
    peek m'.bus.memory address = peek m.bus.memory address
  ports : m'.bus.ports = m.bus.ports

/-- Return undoes acceptance, whatever has become of the latches in between. -/
theorem resumes_of_entered (h : Entered m.cpu.regs m.bus m'.cpu.regs m'.bus)
    {waiting : Machine (Board Memory)} (hregs : waiting.cpu.regs = m'.cpu.regs)
    (houtside : waiting.outside = m'.outside) (hdue : waiting.cpu.due = .instruction)
    (hcode : m'.bus.memory.ReturnsAt m'.cpu.regs.pc) (bound : Nat) :
    ∃ after, waiting.next (bound + 1) = some after ∧ Resumed m after := by
  have hbus : waiting.bus = m'.bus := congrArg Timed.bus houtside
  rw [← hbus, ← hregs] at hcode
  obtain ⟨after, hnext, hafter, wz, r, iff1, hreturned⟩ := next_returned hdue hcode bound
  obtain ⟨⟨pc, wz', r', iff1', iff2, hentered⟩, hpushed⟩ := h
  refine ⟨after, hnext, ⟨wz, r, iff1, iff2, ?_⟩, fun address hhigh hlow => ?_, ?_⟩
  · have hsp : m.cpu.regs.sp - 2 + 2 = m.cpu.regs.sp := UInt16.sub_add_cancel _ _
    rw [hreturned, hregs, hentered, hbus, hpushed]
    simp only [hsp, Memory.peekWord_pushed]
  · rw [hafter, hbus, hpushed]
    exact Memory.peek_pushed_of_ne _ _ _ hhigh hlow
  · rw [hafter, hbus, hpushed]

end Return

end Machine

/-! ### The flip-flops across non-maskable interrupts -/

section Nesting

variable {β : Type}

/-- A call that leaves the registers to the events. -/
def Call.KeepsRegisters : Call → Prop
  | reset | restore _ | write _ => False
  | _ => True

theorem Call.KeepsRegisters.regs {c : Call} (hc : c.KeepsRegisters) (cpu : Cpu) :
    (c.apply cpu).regs = cpu.regs := by
  cases c with
  | reset | restore s | write r => exact hc.elim
  | _ => rfl

namespace Item

/-- No interrupt is accepted and neither EI nor DI is executed. -/
def SparesFlipFlops : Item β → Prop
  | event p => (∀ data, p.event ≠ .interrupt data) ∧ p.event ≠ .instruction .ei ∧ p.event ≠ .instruction .di
  | call _ => True

/-- How many non-maskable interrupts are being handled behind an item, if it was `depth` in front of it. -/
def nesting (depth : Nat) : Item β → Nat
  | event p =>
    match p.event with
    | .nmi => depth + 1
    | .instruction .retn | .instruction .reti => depth - 1
    | _ => depth
  | call _ => depth

end Item

/-- How many non-maskable interrupts have been accepted of which RETN or RETI has not yet returned. -/
def nesting (past : List (Item β)) : Nat := past.foldl Item.nesting 0

theorem nesting_snoc (past : List (Item β)) (x : Item β) :
    nesting (past ++ [x]) = x.nesting (nesting past) := by
  rw [nesting, nesting, List.foldl_append]
  rfl

/--
Unless something else has changed them, IFF2 keeps the value that both flip-flops once had, and IFF1 has it
whenever no non-maskable interrupt is being handled.
-/
def Balanced (original : Bool) (past : List (Item β)) (cpu : Cpu) : Prop :=
  (∀ x ∈ past, x.SparesFlipFlops) →
    cpu.regs.iff2 = original ∧ (nesting past = 0 → cpu.regs.iff1 = original)

namespace Balanced

variable {original : Bool} {past : List (Item β)}

theorem call {cpu : Cpu} (h : Balanced original past cpu) {c : Call} (hc : c.KeepsRegisters) :
    Balanced original (past ++ [.call c]) (c.apply cpu) := by
  intro hspares
  rw [nesting_snoc, hc.regs]
  exact h fun x hx => hspares x (List.mem_append_left _ hx)

theorem event [Bus β] {m m' : Machine β} {e : Event} (h : Balanced original past m.cpu)
    (hhappens : m.Happens e m') : Balanced original (past ++ [.event ⟨m, e, m'⟩]) m'.cpu := by
  intro hspares
  obtain ⟨hinterrupt, hei, hdi⟩ := hspares (.event ⟨m, e, m'⟩) (by simp)
  obtain ⟨hiff2, hiff1⟩ := h fun x hx => hspares x (List.mem_append_left _ hx)
  have hbackground := hhappens.background
  have hiff1' : m'.cpu.regs.iff1 = (e.background m.cpu).iff1 := congrArg Background.iff1 hbackground
  have hiff2' : m'.cpu.regs.iff2 = (e.background m.cpu).iff2 := congrArg Background.iff2 hbackground
  rw [nesting_snoc, hiff1', hiff2']
  cases e with
  | nmi => exact ⟨hiff2, fun hzero => absurd hzero (Nat.succ_ne_zero _)⟩
  | interrupt data => exact absurd rfl (hinterrupt data)
  | idle n => exact ⟨hiff2, hiff1⟩
  | instruction i =>
      cases i
      case ei => exact absurd rfl hei
      case di => exact absurd rfl hdi
      -- a return copies IFF2 into IFF1, whatever it returns from
      case retn | reti => exact ⟨hiff2, fun _ => hiff2⟩
      all_goals exact ⟨hiff2, hiff1⟩

end Balanced

/-- Every event leaves the flip-flops balanced. -/
theorem balanced_inductive [Bus β] (original : Bool) :
    Chronicle.Inductive (β := β) (Balanced original)
      fun past p => Balanced original (past ++ [.event p]) p.after.cpu :=
  fun _ _ h _ hhappens _ => ⟨h.event hhappens, h.event hhappens⟩

end Nesting

namespace Machine

/--
**Interrupts resume the program that they interrupt.**  On the plain board an interrupt that is due is
accepted, and then an instruction is due.  If the code of RETN, RETI or RET stands where the handler
begins, and an instruction is still due when it is reached, whatever has been requested since, then that
instruction goes back to where the program was, with the registers and the memory that it had but for
what `Resumed` excepts.

The flip-flops are balanced.  On any bus and in any history of steps, runs and requests in which no
maskable interrupt is accepted and neither EI nor DI is executed, both have the value that they had
at the start whenever RETN or RETI has returned from as many non-maskable interrupts as have been accepted,
however these were nested.
-/
theorem interrupts_resume :
    (∀ m : Machine (Board Memory), (m.cpu.due = .nmi ∨ ∃ data, m.cpu.due = .interrupt data) → ∀ bound,
      ∃ m', m.call (bound + 1) .step = some m' ∧ m'.cpu.due = .instruction ∧
        ∀ waiting : Machine (Board Memory), waiting.cpu.regs = m'.cpu.regs → waiting.outside = m'.outside →
          waiting.cpu.due = .instruction → m'.bus.memory.ReturnsAt m'.cpu.regs.pc →
            ∃ after, waiting.call (bound + 1) .step = some after ∧ Resumed m after) ∧
    ∀ (β : Type) [Bus β] (m : Machine β) (bound : Nat) (cs : List Call),
      m.cpu.regs.iff1 = m.cpu.regs.iff2 → (∀ c ∈ cs, c.KeepsRegisters) →
        (m.record bound cs).machine? = m.calls bound cs ∧
        ∀ past p later, (m.record bound cs).items = past ++ .event p :: later →
          (∀ x ∈ past ++ [.event p], x.SparesFlipFlops) → nesting (past ++ [.event p]) = 0 →
            p.after.cpu.regs.iff1 = m.cpu.regs.iff1 ∧ p.after.cpu.regs.iff2 = m.cpu.regs.iff2 := by
  refine ⟨fun m haccepts bound => ?_, fun β _ m bound cs hflip hcs => ?_⟩
  · obtain ⟨m₁, hnext, hdue, hentered⟩ := next_entered haccepts (bound + 1)
    refine ⟨m₁.takeYield.2, by rw [call_step, hnext]; rfl, hdue, fun waiting hregs houtside hwaits hcode => ?_⟩
    have hentered' : Entered m.cpu.regs m.bus m₁.takeYield.2.cpu.regs m₁.takeYield.2.bus := hentered
    obtain ⟨after, hreturns, hresumed⟩ := resumes_of_entered hentered' hregs houtside hwaits hcode bound
    exact ⟨after.takeYield.2, by rw [call_step, hreturns]; rfl, hresumed.regs, hresumed.memory, hresumed.ports⟩
  · have hstart : Balanced m.cpu.regs.iff2 ([] : List (Item β)) m.cpu := fun _ => ⟨rfl, fun _ => hflip⟩
    have hkeeps := (balanced_inductive m.cpu.regs.iff2).keeps_record
      (fun c hc _ _ h => h.call (hcs c hc)) hstart bound
    refine ⟨machine?_record bound m cs, fun past p later hitems hspares hzero => ?_⟩
    obtain ⟨hiff2, hiff1⟩ := hkeeps.lawful past p later hitems hspares
    exact ⟨(hiff1 hzero).trans hflip.symm, hiff2⟩

/--
EI has run and the processor is halted, with the stack pointer at 1, when an NMI comes; the program counter is
pushed across the top of memory.  Another NMI comes before the handler has begun.  Both handlers are RETN,
and behind the second the flip-flops are set again.
-/
theorem interrupts_resume_nested :
    ∃ m m₁ m₂ : Machine (Board Memory), ∃ p₁ p₂ p₃ p₄ : Passage (Board Memory),
      (powerOn ⟨0xFFFF, 1, .restart⟩ ((Board.blank.load 0 [0xFB, 0x76]).load 0x66 [0xED, 0x45])).calls 1
        [.step, .step, .requestNMI] = some m ∧
      m.cpu.regs.halted = true ∧ m.call 1 .step = some m₁ ∧ m₁.cpu.regs.sp = 0xFFFF ∧
      m₁.call 1 .step = some m₂ ∧ Resumed m m₂ ∧
      (m.record 1 [.step, .requestNMI, .step, .step, .step]).items =
        [.call .step, .event p₁, .call .requestNMI, .call .step, .event p₂, .call .step, .event p₃,
          .call .step, .event p₄] ∧
      p₁.event = .nmi ∧ p₂.event = .nmi ∧ p₂.after.cpu.regs.iff1 = false ∧
      p₃.event = .instruction .retn ∧ p₄.event = .instruction .retn ∧
      p₄.after.cpu.regs.iff1 = true ∧ p₄.after.cpu.regs.iff2 = true := by
  obtain ⟨m, m₁, m₂, p₁, p₂, p₃, p₄, hm, hhalted, hnmi, hiff1, hiff2, hm₁, hsp, hdue, hED, hop, hm₂, hitems,
      h₁, h₂, hclosed, h₃, h₄⟩ :
      ∃ m m₁ m₂ : Machine (Board Memory), ∃ p₁ p₂ p₃ p₄ : Passage (Board Memory),
        (powerOn ⟨0xFFFF, 1, .restart⟩ ((Board.blank.load 0 [0xFB, 0x76]).load 0x66 [0xED, 0x45])).calls 1
          [.step, .step, .requestNMI] = some m ∧
        m.cpu.regs.halted = true ∧ m.cpu.due = .nmi ∧ m.cpu.regs.iff1 = true ∧ m.cpu.regs.iff2 = true ∧
        m.call 1 .step = some m₁ ∧ m₁.cpu.regs.sp = 0xFFFF ∧ m₁.cpu.due = .instruction ∧
        peek m₁.bus.memory m₁.cpu.regs.pc = 0xED ∧ peek m₁.bus.memory (m₁.cpu.regs.pc + 1) = 0x45 ∧
        m₁.call 1 .step = some m₂ ∧
        (m.record 1 [.step, .requestNMI, .step, .step, .step]).items =
          [.call .step, .event p₁, .call .requestNMI, .call .step, .event p₂, .call .step, .event p₃,
            .call .step, .event p₄] ∧
        p₁.event = .nmi ∧ p₂.event = .nmi ∧ p₂.after.cpu.regs.iff1 = false ∧
        p₃.event = .instruction .retn ∧ p₄.event = .instruction .retn :=
    ⟨_, _, _, ⟨_, _, _⟩, ⟨_, _, _⟩, ⟨_, _, _⟩, ⟨_, _, _⟩, rfl, rfl, rfl, rfl, rfl, rfl, rfl, rfl, rfl, rfl,
      rfl, rfl, rfl, rfl, rfl, rfl, rfl⟩
  obtain ⟨hresume, hbalance⟩ := interrupts_resume
  obtain ⟨m₁', hm₁', -, hreturn⟩ := hresume m (.inl hnmi) 0
  obtain rfl : m₁ = m₁' := Option.some.inj (hm₁.symm.trans hm₁')
  obtain ⟨m₂', hm₂', hresumed⟩ := hreturn m₁ rfl rfl hdue (.inr ⟨hED, by rw [hop]; decide⟩)
  obtain rfl : m₂ = m₂' := Option.some.inj (hm₂.symm.trans hm₂')
  have hcs : ∀ c ∈ [Call.step, .requestNMI, .step, .step, .step], c.KeepsRegisters := by
    simp [Call.KeepsRegisters]
  obtain ⟨-, hlaw⟩ := hbalance _ m 1 _ (hiff1.trans hiff2.symm) hcs
  obtain ⟨hset1, hset2⟩ := hlaw [_, _, _, _, _, _, _, _] p₄ [] hitems
    (by simp [Item.SparesFlipFlops, h₁, h₂, h₃, h₄]) (by simp [nesting, Item.nesting, h₁, h₂, h₃, h₄])
  exact ⟨m, m₁, m₂, p₁, p₂, p₃, p₄, hm, hhalted, hm₁, hsp, hm₂, hresumed, hitems, h₁, h₂, hclosed, h₃, h₄,
    hset1.trans hiff1, hset2.trans hiff2⟩

end Machine

end Z80
