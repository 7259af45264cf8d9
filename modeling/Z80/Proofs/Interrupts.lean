/-
The interrupt state that a processor can be in.

Not every combination of interrupt mode, flip-flops, EI shadow and halt state is one that a
processor gets into.  `Cpu.Orderly` says which are: there are three modes, IFF1 is set only
together with IFF2, and the shadow of EI lies on a processor that is awake with interrupts
enabled.  What an event does to the latches is known, and what it does to the rest of the interrupt
state is `Event.background`; so the question is answered event by event (`Happens.orderly`), for a
run by induction over its events, and for everything a host can do by going through the calls.

Two calls could spoil it.  A snapshot must itself have IFF1 only with IFF2, and registers that
are written without regard to it are left out.  The bus plays no part, and a host may put another
one in its place between two calls.
-/
import Z80.Proofs.Calls
import Z80.Proofs.Frame

namespace Z80

/-! ### What events do to the background -/

namespace Cpu

@[simp] theorem background_refresh (cpu : Cpu) (n : Nat) :
    ({ cpu with regs := cpu.regs.refresh n } : Cpu).background = cpu.background := rfl

theorem acceptNMI_background (cpu : Cpu) :
    cpu.acceptNMI.Ensures fun _ o => o.cpu.background = { cpu.background with iff1 := false } := by
  simp [acceptNMI]
  rfl

theorem acceptInterrupt_background (cpu : Cpu) (data : UInt8) :
    (cpu.acceptInterrupt data).Ensures fun _ o =>
      o.cpu.background = { cpu.background with iff1 := false, iff2 := false } := by
  simp only [acceptInterrupt, Script.ensures_bind, Script.ensures_internal, ensures_push,
    Script.ensures_pure]
  refine (handler_ensures _ data).mono fun n p hn => ?_
  rw [background_goto, background_setSP]
  rfl

end Cpu

/-- What an event makes of the background, which it finds in the processor. -/
def Event.background (cpu : Cpu) : Event → Background
  | nmi => { cpu.background with iff1 := false }
  | interrupt _ => { cpu.background with iff1 := false, iff2 := false }
  | idle _ => cpu.background
  | instruction i => i.background cpu

/-- There are three interrupt modes that an instruction can choose. -/
theorem Opcode.instruction_mode (bound : Nat) (index : Option Index) :
    (instruction bound index).All fun i => ∀ mode, i = some (.im mode) → mode ≤ 2 := by
  induction bound generalizing index with
  | zero => exact fun mode h => by simp at h
  | succ bound ih =>
      intro op
      dsimp only
      split
      · exact ih _
      · rw [Encoding.all_map]
        exact (unprefixed_formed index op).mono fun i hi mode h => hi.mode mode (Option.some.inj h)

namespace Machine

variable {β : Type} [Bus β] {m m' : Machine β} {e : Event}

/-- An event does to the background what it must and nothing else. -/
theorem Happens.background (h : m.Happens e m') : m'.cpu.background = e.background m.cpu := by
  cases h with
  | nmi =>
      obtain ⟨-, ho⟩ := ({ m.cpu with shadow := false } : Cpu).acceptNMI_background.run m.outside
      exact ho
  | interrupt data =>
      obtain ⟨-, ho⟩ :=
        (({ m.cpu with shadow := false } : Cpu).acceptInterrupt_background data).run m.outside
      exact ho
  | idle nops => rfl
  | @instruction bound i regs t t' cpu read executed =>
      obtain ⟨-, pc, count, hmoved⟩ := ((Opcode.instruction bound none).script_moved m.cpu.regs).run m.outside
      rw [read] at hmoved
      obtain rfl : regs = { m.cpu.regs with pc := pc, r := count } := hmoved
      obtain ⟨-, hc⟩ := (Cpu.execute_background _ i).run t
      rw [executed] at hc
      exact hc.trans (by cases i <;> rfl)

theorem Happens.mode {mode : UInt8} (h : m.Happens (.instruction (.im mode)) m') : mode ≤ 2 := by
  obtain _ | _ | _ | @⟨bound, _, regs, t, t', cpu, read, -⟩ := h
  obtain ⟨-, hmode⟩ := ((Opcode.instruction_mode bound none).ensures m.cpu.regs).run m.outside
  rw [read] at hmode
  exact hmode mode rfl

end Machine

/-! ### Orderly processors -/

/-- A processor has an interrupt state that it can get into. -/
structure Cpu.Orderly (cpu : Cpu) : Prop where
  mode : cpu.regs.im = 0 ∨ cpu.regs.im = 1 ∨ cpu.regs.im = 2
  flipFlops : cpu.regs.iff1 = true → cpu.regs.iff2 = true
  shadow : cpu.shadow = true → cpu.regs.iff1 = true ∧ cpu.regs.iff2 = true ∧ cpu.regs.halted = false

namespace Machine

variable {β : Type} [Bus β] {m m' : Machine β} {e : Event}

/-- An event that was due leaves an orderly processor orderly. -/
theorem Happens.orderly (h : m.Happens e m') (hdue : e.due = m.cpu.due) (hm : m.cpu.Orderly) :
    m'.cpu.Orderly := by
  have hbackground := h.background
  have hlatches := h.latches
  have him : m'.cpu.regs.im = (e.background m.cpu).im := congrArg Background.im hbackground
  have hiff1 : m'.cpu.regs.iff1 = (e.background m.cpu).iff1 := congrArg Background.iff1 hbackground
  have hiff2 : m'.cpu.regs.iff2 = (e.background m.cpu).iff2 := congrArg Background.iff2 hbackground
  have hshadow : m'.cpu.shadow = (e.latch m.cpu.latches).shadow := congrArg Latches.shadow hlatches
  have hhalted : m'.cpu.regs.halted = (e.latch m.cpu.latches).halted := congrArg Latches.halted hlatches
  cases e with
  | nmi | interrupt data =>
      exact ⟨him ▸ hm.mode, by simp [hiff1, Event.background], by simp [hshadow, Event.latch]⟩
  | idle nops =>
      exact ⟨him ▸ hm.mode, hiff1 ▸ hiff2 ▸ hm.flipFlops, by simp [hshadow, Event.latch]⟩
  | instruction i =>
      refine ⟨?_, ?_, fun hcast => ?_⟩
      · cases i
        case im mode =>
          have hle : mode ≤ 2 := h.mode
          rw [him]
          show mode = 0 ∨ mode = 1 ∨ mode = 2
          grind
        all_goals exact him ▸ hm.mode
      · rw [hiff1, hiff2]
        cases i
        case ei | di => simp [Event.background, Instruction.background]
        -- what RETN and RETI put into IFF1 is IFF2
        case retn | reti => exact id
        all_goals exact hm.flipFlops
      · obtain rfl : i = .ei := by
          rw [hshadow] at hcast
          simpa [Event.latch] using hcast
        have hawake := ((Cpu.due_eq_instruction_iff _).mp hdue.symm).2.2
        exact ⟨hiff1, hiff2, hhalted.trans hawake⟩

/-- So does a run. -/
theorem Ran.orderly (h : Ran m m') (hm : m.cpu.Orderly) : m'.cpu.Orderly := by
  have hevent : ∀ {m m₁ : Machine β}, Returns m.next m₁ → m.cpu.Orderly → m₁.cpu.Orderly := by
    rintro m m₁ ⟨bound, hnext⟩ hm
    obtain ⟨e, -, hdue, he⟩ := next_happens hnext
    exact he.orderly hdue hm
  induction h with
  | exhausted hex => exact hm
  | @idled m hex hdue =>
      rw [idleOut_eq_idled]
      exact (Happens.idle m.clock.haltNops.toNat).orderly hdue.symm hm
  | @yielded m m₁ hex hdue hnext hy =>
      have htaken : m₁.cpu.Orderly := hevent hnext hm
      exact htaken
  | further hex hdue hnext hy hrest ih => exact ih (hevent hnext hm)

end Machine

/-! ### Everything a host can do -/

/-- A call respects the interrupt state: it writes no registers, and a snapshot has IFF1 only with IFF2. -/
def Call.Respects : Call → Prop
  | write _ => False
  | restore s => s.iff1 = true → s.iff2 = true
  | _ => True

/-- A processor that has been switched on and to which only respectful calls have been made, each on some bus. -/
inductive Cpu.Reached : Cpu → Prop
  | powerOn (config : Config) : Reached (.powerOn config)
  | call {β : Type} [Bus β] {m m' : Machine β} {c : Call} (h : Reached m.cpu) (hc : c.Respects)
      (hcall : Returns (m.call · c) m') : Reached m'.cpu

/-- Reset and power-on leave an orderly processor. -/
theorem Cpu.orderly_reset (cpu : Cpu) : cpu.reset.Orderly :=
  ⟨.inl rfl, fun h => absurd h Bool.false_ne_true, fun h => absurd h Bool.false_ne_true⟩

theorem Cpu.orderly_restore (cpu : Cpu) {s : Snapshot} (hs : s.iff1 = true → s.iff2 = true) :
    (cpu.restore s).Orderly := by
  refine ⟨?_, hs, fun h => absurd h Bool.false_ne_true⟩
  have hmin : (cpu.restore s).regs.im = if s.im ≤ 2 then s.im else 2 := rfl
  grind

/-- A respectful call leaves an orderly processor orderly. -/
theorem Machine.call_orderly {β : Type} [Bus β] {m m' : Machine β} {c : Call} (hc : c.Respects)
    (h : Returns (m.call · c) m') (hm : m.cpu.Orderly) : m'.cpu.Orderly := by
  obtain ⟨bound, h⟩ := h
  cases c with
  | step =>
      obtain ⟨m₁, hnext, rfl⟩ := exists_next_of_call_step h
      obtain ⟨e, -, hdue, he⟩ := next_happens hnext
      have horderly : m₁.cpu.Orderly := he.orderly hdue hm
      exact horderly
  | run budget => exact (ran_of_runOut h).orderly hm
  | write r => exact hc.elim
  | restore s =>
      obtain rfl := Option.some.inj h
      exact m.cpu.orderly_restore hc
  | reset =>
      obtain rfl := Option.some.inj h
      exact m.cpu.orderly_reset
  | requestInterrupt data | clearInterrupt | requestNMI =>
      obtain rfl := Option.some.inj h
      exact ⟨hm.mode, hm.flipFlops, hm.shadow⟩

/--
**The interrupt state of a processor is always orderly.**  Whatever a host has asked of a processor
since it was switched on, and whatever buses it has run on, its interrupt mode is 0, 1 or 2, IFF1 is
set only together with IFF2, and the shadow of EI lies on it only while both are set and it is awake;
provided that the host writes no registers and loads no snapshot in which IFF1 is set and IFF2 is not.
-/
theorem Cpu.orderly_of_reached {cpu : Cpu} (h : cpu.Reached) : cpu.Orderly := by
  induction h with
  | powerOn config => exact orderly_reset _
  | call h hc hcall ih => exact Machine.call_orderly hc hcall ih

/-- After IM 2 and EI the mode is 2 and the shadow of EI lies on the processor, with interrupts enabled. -/
theorem Cpu.orderly_of_reached_ei :
    ∃ cpu : Cpu, cpu.Reached ∧ cpu.regs.im = 2 ∧ cpu.shadow = true ∧ cpu.Orderly := by
  have hsteps : ∃ m₁ m₂ : Machine (Board Memory), (Machine.powerOn .standard
      (Board.blank.load 0 [0xED, 0x5E, 0xFB])).call 2 .step = some m₁ ∧
      m₁.call 2 .step = some m₂ ∧ m₂.cpu.regs.im = 2 ∧ m₂.cpu.shadow = true :=
    ⟨_, _, rfl, rfl, rfl, rfl⟩
  obtain ⟨m₁, m₂, hmode, hei, him, hshadow⟩ := hsteps
  have hreached₁ : m₁.cpu.Reached := .call (c := .step) (.powerOn .standard) trivial ⟨2, hmode⟩
  have hreached₂ : m₂.cpu.Reached := .call (c := .step) hreached₁ trivial ⟨2, hei⟩
  exact ⟨_, hreached₂, him, hshadow, orderly_of_reached hreached₂⟩

end Z80
