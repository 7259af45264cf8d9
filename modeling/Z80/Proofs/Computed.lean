/-
The memory of computed flags.

SCF and CCF copy two bits of A into F, mixed with those of the old F unless the event before them
computed flags.  The processor has a byte for this, `q`: every event but idling sets it to zero, and what
computes flags puts F there (`Cpu.execute_q`, `Happens.q`).

The law is about histories again.  Whether the latest event computed flags is read off the record
(`Computed`), and `Remembers` is the invariant that `q` is F if so and zero if not.  Idling leaves `q`
alone, so it needs the third part of the invariant: a halted processor remembers nothing.
-/
import Z80.Proofs.Acceptance
import Z80.Proofs.Frame

namespace Z80

/-! ### What instructions remember -/

/-- Does an instruction compute flags? -/
def Instruction.computesFlags : Instruction → Bool
  | loadAI | loadAR | accumulate .. | increment _ | incrementAt _ | decrement _ | decrementAt _ => true
  | addPair .. | adcPair _ | sbcPair _ | rotateA _ | daa | cpl | scf | ccf | neg | rrd | rld => true
  | modify (.shift _) _ | modifyAt (.shift _) .. | test .. | testAt .. | inputC _ | block .. => true
  | _ => false

/-- The others leave F alone, or bring in flags that were computed before. -/
theorem Instruction.computesFlags_eq_false_iff (i : Instruction) :
    i.computesFlags = false ↔ i.keepsFlags = true ∨ i = .pop .af ∨ i = .exchangeAF := by
  cases i
  case pop target => cases target <;> simp <;> rfl
  case modify op target => cases op <;> simp <;> rfl
  case modifyAt op target copy => cases op <;> simp <;> rfl
  case exchangeAF => simp; rfl
  all_goals simp
  all_goals rfl

namespace Cpu

section Updates

variable (cpu : Cpu)

@[simp] theorem q_set8 (r : Reg8) (v : UInt8) : (cpu.set8 r v).q = cpu.q := rfl

@[simp] theorem q_set16 (p : Pair) (w : UInt16) : (cpu.set16 p w).q = cpu.q := rfl

@[simp] theorem q_setSP (w : UInt16) : (cpu.setSP w).q = cpu.q := rfl

@[simp] theorem q_setPC (w : UInt16) : (cpu.setPC w).q = cpu.q := rfl

@[simp] theorem q_setWZ (w : UInt16) : (cpu.setWZ w).q = cpu.q := rfl

@[simp] theorem q_goto (w : UInt16) : (cpu.goto w).q = cpu.q := rfl

@[simp] theorem q_storedA (w : UInt16) : (cpu.storedA w).q = cpu.q := rfl

@[simp] theorem q_setFlags (f : Flags) : (cpu.setFlags f).q = f.toByte := rfl

@[simp] theorem f_setFlags (f : Flags) : (cpu.setFlags f).regs.main.f = f.toByte := rfl

end Updates

/-- An instruction remembers the flags that it has computed. -/
theorem execute_q (cpu : Cpu) (i : Instruction) :
    (cpu.execute i).Ensures fun _ c =>
      c.q = if i.computesFlags then c.regs.main.f else cpu.q := by
  cases i
  case accumulate op operand =>
    cases operand with
    | register r => simp [execute, setResult, Instruction.computesFlags]
    | immediate n => simp [execute, setResult, Instruction.computesFlags]
    | memory p => cases p <;> simp [execute, setResult, Instruction.computesFlags]
  case block op d repeats =>
    cases op <;>
      simp [execute, blockLoad, blockCompare, blockInput, blockOutput, Instruction.computesFlags]
  case loadFrom target p => cases p <;> simp [execute, Instruction.computesFlags]
  case storeTo p source => cases p <;> simp [execute, Instruction.computesFlags]
  case storeImmediate p n => cases p <;> simp [execute, Instruction.computesFlags]
  case incrementAt p => cases p <;> simp [execute, Instruction.computesFlags]
  case decrementAt p => cases p <;> simp [execute, Instruction.computesFlags]
  case testAt n p => cases p <;> simp [execute, Instruction.computesFlags]
  case modify op target => cases op <;> simp [execute, BitOp.apply, setFlags?, Instruction.computesFlags]
  case modifyAt op p copy =>
    cases op <;> cases p <;> cases copy <;>
      simp [execute, BitOp.apply, setFlags?, Instruction.computesFlags]
  case inputC target => cases target <;> simp [execute, Instruction.computesFlags]
  case jumpIf condition target =>
    simp only [execute, Script.ensures_pure]
    split <;> simp [Instruction.computesFlags]
  case callIf condition target =>
    simp only [execute]
    split <;> simp [Instruction.computesFlags]
  all_goals simp [execute, setResult, Instruction.computesFlags]
  all_goals rfl

/-- The copied bits of F are those of a byte. -/
def Copies (cpu : Cpu) (source : UInt8) : Prop :=
  cpu.flags.y = bit source 5 ∧ cpu.flags.x = bit source 3

theorem acceptNMI_q (cpu : Cpu) : cpu.acceptNMI.Ensures fun _ o => o.cpu.q = 0 := by
  simp [acceptNMI]
  rfl

theorem acceptInterrupt_q (cpu : Cpu) (data : UInt8) :
    (cpu.acceptInterrupt data).Ensures fun _ o => o.cpu.q = 0 := by
  simp only [acceptInterrupt, Script.ensures_bind, Script.ensures_internal, ensures_push,
    Script.ensures_pure]
  exact (handler_ensures _ data).mono fun n p _ => rfl

end Cpu

/-! ### What events remember -/

/-- An event is an instruction that computes flags. -/
def Event.computesFlags : Event → Bool
  | instruction i => i.computesFlags
  | _ => false

namespace Machine

variable {β : Type} [Bus β] {m m' : Machine β} {e : Event}

/-- After any event but idling, the processor remembers the flags it has computed, or none. -/
theorem Happens.q (h : m.Happens e m') (hidle : ∀ n, e ≠ .idle n) :
    m'.cpu.q = if e.computesFlags then m'.cpu.regs.main.f else 0 := by
  cases h with
  | nmi =>
      obtain ⟨-, hq⟩ := (Cpu.acceptNMI_q { m.cpu with shadow := false }).run m.outside
      exact hq
  | interrupt data =>
      obtain ⟨-, hq⟩ := (Cpu.acceptInterrupt_q { m.cpu with shadow := false } data).run m.outside
      exact hq
  | idle n => exact absurd rfl (hidle n)
  | @instruction bound i regs t t' cpu read executed =>
      obtain ⟨-, hq⟩ := (Cpu.execute_q
        { ({ m.cpu with shadow := false } : Cpu).beginEvent with regs } i).run t
      rw [executed] at hq
      exact hq

/-- SCF and CCF copy two bits of A, and of F as far as it differs from what is remembered. -/
theorem Happens.copied {i : Instruction} (h : m.Happens (.instruction i) m') (hi : i = .scf ∨ i = .ccf) :
    m'.cpu.Copies ((m.cpu.q ^^^ m.cpu.regs.main.f) ||| m.cpu.a) := by
  obtain _ | _ | _ | @⟨bound, _, regs, t, t', cpu, read, executed⟩ := h
  obtain ⟨-, pc, count, hmoved⟩ := ((Opcode.instruction bound none).script_moved m.cpu.regs).run m.outside
  rw [read] at hmoved
  obtain rfl : regs = { m.cpu.regs with pc := pc, r := count } := hmoved
  have hflags : ∀ f : Flags, (Flags.ofByte f.toByte).y = f.y ∧ (Flags.ofByte f.toByte).x = f.x := by
    intro f
    rw [Flags.ofByte_toByte]
    exact ⟨rfl, rfl⟩
  rcases hi with rfl | rfl
  · obtain ⟨rfl, -⟩ := Prod.mk.inj executed
    exact hflags _
  · obtain ⟨rfl, -⟩ := Prod.mk.inj executed
    exact hflags _

end Machine

/-! ### Histories -/

section Histories

variable {β : Type}

namespace Item

def computesFlags : Item β → Prop
  | event p => p.event.computesFlags = true
  | call _ => False

/-- What was before an event, a reset or a snapshot that is loaded is no longer the latest. -/
def intervenes : Item β → Prop
  | call .reset | call (.restore _) => True
  | event _ => True
  | _ => False

end Item

/-- The latest event computed flags, and no state has been loaded and no reset made since. -/
def Computed (past : List (Item β)) : Prop := Since Item.computesFlags Item.intervenes past

theorem computed_snoc (past : List (Item β)) (x : Item β) :
    Computed (past ++ [x]) ↔ x.computesFlags ∨ (Computed past ∧ ¬ x.intervenes) :=
  Since.snoc_iff x

/-- A processor remembers what the record says, and nothing while it is halted. -/
structure Remembers (past : List (Item β)) (cpu : Cpu) : Prop where
  computed : Computed past → cpu.q = cpu.regs.main.f
  otherwise : ¬ Computed past → cpu.q = 0
  halted : cpu.regs.halted = true → ¬ Computed past

namespace Remembers

variable {past : List (Item β)} {cpu : Cpu}

theorem powerOn (config : Config) : Remembers ([] : List (Item β)) (.powerOn config) where
  computed h := (Since.nil_iff.mp h).elim
  otherwise _ := rfl
  halted h := absurd h Bool.false_ne_true

/-- A processor that remembers nothing, where nothing has been computed. -/
theorem of_not_computed (hcomputed : ¬ Computed past) (hq : cpu.q = 0) : Remembers past cpu :=
  ⟨fun h => absurd h hcomputed, fun _ => hq, fun _ => hcomputed⟩

theorem zero_or_eq (h : Remembers past cpu) : cpu.q = 0 ∨ cpu.q = cpu.regs.main.f := by
  by_cases hcomputed : Computed past
  · exact .inr (h.computed hcomputed)
  · exact .inl (h.otherwise hcomputed)

theorem call (h : Remembers past cpu) {c : Call} (hc : ∀ r, c ≠ .write r) :
    Remembers (past ++ [.call c]) (c.apply cpu) := by
  cases c with
  | write r => exact absurd rfl (hc r)
  | reset | restore s =>
      refine of_not_computed ?_ rfl
      simp [computed_snoc, Item.computesFlags, Item.intervenes]
  | requestInterrupt data | clearInterrupt | requestNMI | step | run budget =>
      refine ⟨fun hc => h.computed ?_, fun hc => h.otherwise ?_, fun hasleep hc => h.halted hasleep ?_⟩ <;>
        simpa [computed_snoc, Item.computesFlags, Item.intervenes] using hc

variable [Bus β]

/-- A halted processor remembers nothing, so idling preserves what is remembered like any other event. -/
theorem event {m m' : Machine β} {e : Event} (h : Remembers past m.cpu) (hdue : e.due = m.cpu.due)
    (hhappens : m.Happens e m') : Remembers (past ++ [.event ⟨m, e, m'⟩]) m'.cpu := by
  have hcomputed : Computed (past ++ [.event ⟨m, e, m'⟩]) ↔ e.computesFlags = true := by
    simp [computed_snoc, Item.computesFlags, Item.intervenes]
  have hlatches := hhappens.latches
  have hhalted : m'.cpu.regs.halted = (e.latch m.cpu.latches).halted := congrArg Latches.halted hlatches
  cases e with
  | idle n =>
      refine of_not_computed (mt hcomputed.mp Bool.false_ne_true) ?_
      have hasleep := ((Cpu.due_eq_halted_iff _).mp hdue.symm).2.2
      cases hhappens
      exact h.otherwise (h.halted hasleep)
  | nmi | interrupt data =>
      exact of_not_computed (mt hcomputed.mp Bool.false_ne_true) (hhappens.q (by simp))
  | instruction i =>
      have hq := hhappens.q (by simp)
      refine ⟨fun hc => ?_, fun hc => ?_, fun hasleep hc => ?_⟩
      · rw [hq, if_pos (hcomputed.mp hc)]
      · rw [hq, if_neg (mt hcomputed.mpr hc)]
      · have hawake := ((Cpu.due_eq_instruction_iff _).mp hdue.symm).2.2
        -- only HALT can have put it to sleep, which computes no flags
        obtain rfl : i = .halt := by
          rw [hhalted] at hasleep
          cases i <;> simp [Event.latch, Instruction.latch, Cpu.latches, hawake] at hasleep ⊢
        exact absurd (hcomputed.mp hc) Bool.false_ne_true

end Remembers

/--
An event finds flags remembered or none at all, and if it is SCF or CCF it copies bits of A, or of
A and F together where the latest event computed no flags.
-/
structure Passage.Copies (past : List (Item β)) (p : Passage β) : Prop where
  remembered : p.before.cpu.q = 0 ∨ p.before.cpu.q = p.before.cpu.regs.main.f
  computed : p.event = .instruction .scf ∨ p.event = .instruction .ccf → Computed past →
    p.after.cpu.Copies p.before.cpu.a
  otherwise : p.event = .instruction .scf ∨ p.event = .instruction .ccf → ¬ Computed past →
    p.after.cpu.Copies (p.before.cpu.a ||| p.before.cpu.regs.main.f)

section Records

variable [Bus β]

/-- What is remembered decides what SCF and CCF copy. -/
theorem Remembers.lawful {past : List (Item β)} {p : Passage β} (h : Remembers past p.before.cpu)
    (hhappens : p.before.Happens p.event p.after) : p.Copies past := by
  have hcopies : p.event = .instruction .scf ∨ p.event = .instruction .ccf →
      p.after.cpu.Copies ((p.before.cpu.q ^^^ p.before.cpu.regs.main.f) ||| p.before.cpu.a) := by
    rintro (he | he)
    · exact Machine.Happens.copied (he ▸ hhappens) (.inl rfl)
    · exact Machine.Happens.copied (he ▸ hhappens) (.inr rfl)
  refine ⟨h.zero_or_eq, fun he hc => ?_, fun he hc => ?_⟩
  · have hafter := hcopies he
    rwa [h.computed hc, UInt8.xor_self, UInt8.zero_or] at hafter
  · have hafter := hcopies he
    rwa [h.otherwise hc, UInt8.zero_xor, UInt8.or_comm] at hafter

theorem remembers_inductive :
    Chronicle.Inductive (Remembers (β := β)) (fun past p => p.Copies past) :=
  fun _ _ h hdue hhappens _ => ⟨h.lawful hhappens, h.event hdue hhappens⟩

/--
**What SCF and CCF copy.**  In the history of any calls but the writing of registers, from power-on and
as far as a bound lets it be followed: where SCF or CCF is executed, bits 5 and 3 of F become those of
A if the event before it was an instruction that computes flags, and those of A and F together if it
was anything else or a snapshot has been loaded or a reset made since.  At every boundary the
processor remembers the flags in F or none.
-/
theorem record_copies (config : Config) (bus : β) (bound : Nat) {cs : List Call}
    (hcs : ∀ c ∈ cs, ∀ r, c ≠ .write r) :
    ((Machine.powerOn config bus).record bound cs).machine? =
        (Machine.powerOn config bus).calls bound cs ∧
      (∀ past p later,
        ((Machine.powerOn config bus).record bound cs).items = past ++ .event p :: later →
          p.Copies past) ∧
      ∀ m, (Machine.powerOn config bus).calls bound cs = some m →
        m.cpu.q = 0 ∨ m.cpu.q = m.cpu.regs.main.f := by
  have hkeeps := remembers_inductive.keeps_record (m := Machine.powerOn config bus)
    (fun c hc _ _ h => h.call (hcs c hc)) (.powerOn config) bound
  refine ⟨Machine.machine?_record bound _ cs, hkeeps.lawful, fun m hm => ?_⟩
  exact (hkeeps.tracks m ((Machine.machine?_record bound _ cs).trans hm)).zero_or_eq

/--
SCF behind LD A,0 copies bits of F, which were set at power-on.  Behind CP 28h, which sets them again,
it copies those of A, which are clear.
-/
theorem record_copies_both :
    ∃ p p₁ p₂ p₃ : Passage (Board Memory),
      ((Machine.powerOn .standard (Board.blank.load 0 [0x3E, 0x00, 0x37, 0xFE, 0x28, 0x37])).record 4
        [.step, .step, .step, .step]).items =
          [.call .step, .event p, .call .step, .event p₁, .call .step, .event p₂, .call .step, .event p₃] ∧
      p₁.event = .instruction .scf ∧ p₁.before.cpu.a = 0x00 ∧ p₁.before.cpu.regs.main.f = 0xFF ∧
      p₁.after.cpu.Copies (0x00 ||| 0xFF) ∧
      p₃.event = .instruction .scf ∧ p₃.before.cpu.a = 0x00 ∧ p₃.before.cpu.regs.main.f = 0xBB ∧
      p₃.after.cpu.Copies 0x00 := by
  have hcs : ∀ c ∈ [Call.step, .step, .step, .step], ∀ r, c ≠ .write r := by simp
  obtain ⟨-, hlaw, -⟩ := record_copies .standard
    (Board.blank.load 0 [0x3E, 0x00, 0x37, 0xFE, 0x28, 0x37]) 4 hcs
  obtain ⟨p, p₁, p₂, p₃, hitems, hload, hscf, ha, hf, hcompare, hscf', ha', hf'⟩ :
      ∃ p p₁ p₂ p₃ : Passage (Board Memory),
        ((Machine.powerOn .standard (Board.blank.load 0 [0x3E, 0x00, 0x37, 0xFE, 0x28, 0x37])).record 4
          [.step, .step, .step, .step]).items =
            [.call .step, .event p, .call .step, .event p₁, .call .step, .event p₂, .call .step, .event p₃] ∧
        p.event = .instruction (.loadImmediate .a 0x00) ∧
        p₁.event = .instruction .scf ∧ p₁.before.cpu.a = 0x00 ∧ p₁.before.cpu.regs.main.f = 0xFF ∧
        p₂.event = .instruction (.accumulate .cp (.immediate 0x28)) ∧
        p₃.event = .instruction .scf ∧ p₃.before.cpu.a = 0x00 ∧ p₃.before.cpu.regs.main.f = 0xBB :=
    ⟨⟨_, _, _⟩, ⟨_, _, _⟩, ⟨_, _, _⟩, ⟨_, _, _⟩, rfl, rfl, rfl, rfl, rfl, rfl, rfl, rfl, rfl⟩
  have hloaded : ¬ Computed [.call .step, .event p, .call .step] := by
    show ¬ Computed (([.call .step] ++ [.event p]) ++ [.call .step])
    rw [computed_snoc, computed_snoc]
    simp [Item.computesFlags, Item.intervenes, hload, Event.computesFlags, Instruction.computesFlags]
  have hcompared : Computed
      [.call .step, .event p, .call .step, .event p₁, .call .step, .event p₂, .call .step] := by
    refine ⟨[_, _, _, _, _], .event p₂, [.call .step], rfl, ?_, by simp [Item.intervenes]⟩
    simp [Item.computesFlags, hcompare, Event.computesFlags, Instruction.computesFlags]
  have hfirst := (hlaw _ p₁ _ hitems).otherwise (.inl hscf) hloaded
  have hsecond := (hlaw [_, _, _, _, _, _, _] p₃ [] hitems).computed (.inl hscf') hcompared
  rw [ha, hf] at hfirst
  rw [ha'] at hsecond
  exact ⟨p, p₁, p₂, p₃, hitems, hscf, ha, hf, hfirst, hscf', ha', hf', hsecond⟩

end Records

end Histories

end Z80
