/-
How a run comes to an end.

Every event takes at least four T-states, so a run has used up its budget after a quarter as many
events, if nothing else ends it before.  That is the argument, and its induction is on the quarters
of the period that are left.  What carries it is that each event brings the count of the period
closer to the target.  The count has 32 bits, though, and an event that takes it past the top takes
it away from the target instead.  A run whose events find room below 2³² ends, then, and one with
too large a budget need not: among NOPs the count takes multiples of four only, and no multiple of
four reaches 2³² - 1.

How long an event can take is a matter of its prefixes.  On a `Plain` bus, which shows its memory
and never makes the processor wait, a chain of them that ends is shorter than memory.
-/
import Z80.Proofs.Timing

namespace Z80

/-! ### Plain buses -/

/-- Buses on which a read brings the byte in view and changes nothing, and no access has to wait. -/
class Plain (β : Type) [Bus β] [View β] : Prop where
  read : ∀ (b : β) (clock : Clock) (address : UInt16),
    Bus.respond b clock (.read address) = ⟨peek b address, 0, false, b⟩
  prompt : ∀ b : β, Bus.Prompt b

instance : Plain (Board Memory) where
  read _ _ _ := rfl
  prompt := Board.prompt

section Plain

variable {β : Type} [Bus β] [View β] [Plain β]

theorem Plain.perform_fetch (address : UInt16) (t : Timed β) :
    (Cycle.fetch address).perform t = (peek t.bus address, t.advance 4) := by
  simp only [Cycle.perform, Cycle.access?, Timed.access, Plain.read, Clock.advance_zero]
  rfl

namespace Fetches

variable {index : Option Index} {r : Registers} {t : Timed β} {f : Front β}

/-- Prefixes that are fetched from a plain bus are a chain in its memory. -/
theorem chain (h : Fetches index r t f) : Chain t.bus r.pc f.prefixes := by
  induction h with
  | opcode hfetch hb =>
      rw [Plain.perform_fetch] at hfetch
      obtain ⟨rfl, -⟩ := Prod.mk.inj hfetch
      exact .nil hb
  | another hfetch hb hrest ih =>
      rw [Plain.perform_fetch] at hfetch
      obtain ⟨rfl, rfl⟩ := Prod.mk.inj hfetch
      exact .cons (by rw [hb]; rfl) ih

/-- A chain that ends leads to an opcode. -/
theorem of_chain {k : Nat} (h : Chain t.bus r.pc k) (index : Option Index) : ∃ f, Fetches index r t f := by
  induction k generalizing index r t with
  | zero =>
      have hends : Index.ofByte? (peek t.bus r.pc) = none := by simpa using h.ends
      exact ⟨_, .opcode (Plain.perform_fetch r.pc t) hends⟩
  | succ k ih =>
      obtain ⟨i, hi⟩ := Option.isSome_iff_exists.mp h.head
      obtain ⟨f, hf⟩ := ih (r := r.fetched) (t := t.advance 4) h.tail (some i)
      exact ⟨_, .another (Plain.perform_fetch r.pc t) hi hf⟩

end Fetches

/-! ### The time of an event -/

/-- The published costs lie between four and twenty-three T-states. -/
theorem Instruction.published_bounds (extended taken : Bool) (i : Instruction) :
    4 ≤ i.published extended taken ∧ i.published extended taken ≤ 23 := by
  unfold published
  split <;> (try split) <;> (try (unfold Pointer.pick; split)) <;> omega

theorem Due.published_bounds {due : Due} {im : UInt8} {cost : Nat} (h : due.published im = some cost) :
    4 ≤ cost ∧ cost ≤ 19 := by
  unfold published at h
  split at h <;> cases h
  · omega
  · split <;> omega
  · omega

namespace Machine

variable {m m' : Machine β} {bound : Nat}

/-- An event takes at least four T-states, and on a plain bus less than 2¹⁹. -/
theorem next_lasts (hnext : m.next bound = some m') :
    ∃ n, 4 ≤ n ∧ n ≤ 2 ^ 19 ∧ Clock.Elapsed n m.clock m'.clock := by
  have hprompt : Bus.Prompt m.bus := Plain.prompt m.bus
  cases hcost : m.cpu.due.published m.cpu.regs.im with
  | some cost =>
      obtain ⟨after, hafter, helapsed, -⟩ := next_published_otherwise hprompt hcost
      obtain rfl : after = m' := Option.some.inj ((hafter bound).symm.trans hnext)
      have hbounds := Due.published_bounds hcost
      exact ⟨cost, by omega, by omega, helapsed⟩
  | none =>
      have hdue := Due.published_eq_none_iff.mp hcost
      obtain ⟨i, hread⟩ := (exists_next_iff hdue).mp ⟨m', hnext⟩
      obtain ⟨f, hf⟩ := Fetches.exists_of_read hread
      obtain ⟨i, after, hafter, helapsed, -⟩ := next_published hprompt hdue hf
      obtain rfl := Returns.unique (fun hle h => next_mono hle h) ⟨bound, hnext⟩ hafter
      have hlength := hf.chain.lt
      have hbounds := i.published_bounds (f.op == 0xED) (m.cpu.transfers i || m'.cpu.repeats i)
      exact ⟨_, by omega, by omega, helapsed⟩

/-- An instruction that is due is carried out where some byte in view is no prefix. -/
theorem exists_next_of_readable (hdue : m.cpu.due = .instruction) {address : UInt16}
    (h : peek m.bus address ≠ 0xDD ∧ peek m.bus address ≠ 0xFD) : ∃ after, Returns m.next after := by
  obtain ⟨k, hchain⟩ := Chain.exists_of_mem ((Index.ofByte?_eq_none_iff _).mpr h) m.cpu.regs.pc
  have hchain' : Chain m.outside.bus m.cpu.regs.pc k := hchain
  obtain ⟨f, hf⟩ := Fetches.of_chain hchain' none
  obtain ⟨i, after, hafter, -⟩ := next_published (Plain.prompt m.bus) hdue hf
  exact ⟨after, hafter⟩

end Machine

end Plain

/-- Time takes no more off what is left of a period than it counts, whether the count wraps or not. -/
theorem Clock.Elapsed.left_le {n : Nat} {c c' : Clock} (h : Clock.Elapsed n c c') :
    c.target.toNat - c.current.toNat ≤ n + (c'.target.toNat - c'.current.toNat) := by
  have hcurrent : c'.current.toNat = (c.current.toNat + n) % 2 ^ 32 := by
    rw [h.current, UInt32.toNat_add, UInt32.toNat_ofNat', Nat.add_mod_mod]
  have htarget := c.target.toNat_lt
  rw [h.target, hcurrent]
  omega

/-! ### The boundaries of a run -/

namespace Machine

section Boundaries

variable {β : Type} [Bus β]

/-- A run that stands at the first machine comes to stand at the second. -/
inductive Reaches (m : Machine β) : Machine β → Prop
  | start : Reaches m m
  | further {m₁ m₂ : Machine β} (h : Reaches m m₁) (hex : ¬ m₁.clock.exhausted = true)
      (hawake : ¬ m₁.cpu.due = .halted) (hnext : Returns m₁.next m₂)
      (hy : ¬ (m₁.cpu.due = .instruction ∧ m₂.clock.yieldRequested = true)) : Reaches m m₂

/-- How a run that stands at a machine comes to its end there. -/
inductive Ends (m : Machine β) : Machine β → Prop
  | exhausted (hex : m.clock.exhausted = true) : Ends m m
  | idled (hex : ¬ m.clock.exhausted = true) (hdue : m.cpu.due = .halted) : Ends m m.idleOut
  | yielded {m₁ : Machine β} (hex : ¬ m.clock.exhausted = true) (hdue : m.cpu.due = .instruction)
      (hnext : Returns m.next m₁) (hy : m₁.clock.yieldRequested = true) : Ends m m₁.takeYield.2

/-- No event of a run takes the count of the period past its top. -/
def Roomy (m : Machine β) : Prop :=
  ∀ m₁ m₂, Reaches m m₁ → ¬ m₁.clock.exhausted = true → Returns m₁.next m₂ →
    m₁.clock.current.toNat + (m₂.clock.total - m₁.clock.total) < 2 ^ 32

/-- Wherever a run stands, the event that is due happens. -/
def Ready (m : Machine β) : Prop :=
  ∀ m₁, Reaches m m₁ → ¬ m₁.clock.exhausted = true → ∃ after, Returns m₁.next after

/-- Wherever an instruction of a run is due, some byte in view is no prefix. -/
def Readable [View β] (m : Machine β) : Prop :=
  ∀ m₁, Reaches m m₁ → ¬ m₁.clock.exhausted = true → m₁.cpu.due = .instruction →
    ∃ address, peek m₁.bus address ≠ 0xDD ∧ peek m₁.bus address ≠ 0xFD

variable {m m₁ m₂ : Machine β}

theorem Reaches.trans (h : Reaches m m₁) (h' : Reaches m₁ m₂) : Reaches m m₂ := by
  induction h' with
  | start => exact h
  | further _ hex hawake hnext hy ih => exact .further ih hex hawake hnext hy

/-- A run comes to its end at a machine that it reaches. -/
theorem Ran.exists_ends (h : Ran m m₂) : ∃ m₁, Reaches m m₁ ∧ Ends m₁ m₂ := by
  induction h with
  | exhausted hex => exact ⟨_, .start, .exhausted hex⟩
  | idled hex hdue => exact ⟨_, .start, .idled hex hdue⟩
  | yielded hex hdue hnext hy => exact ⟨_, .start, .yielded hex hdue hnext hy⟩
  | further hex hawake hnext hy _ ih =>
      obtain ⟨m₁, hreaches, hends⟩ := ih
      exact ⟨m₁, .trans (.further .start hex hawake hnext hy) hreaches, hends⟩

theorem Reaches.target (h : Reaches m m₁) : m₁.clock.target = m.clock.target := by
  induction h with
  | start => rfl
  | further _ _ _ hnext _ ih =>
      obtain ⟨bound, hnext⟩ := hnext
      obtain ⟨n, helapsed⟩ := next_elapsed hnext
      rw [helapsed.target, ih]

end Boundaries

section Stops

variable {β : Type} [Bus β] [View β] [Plain β] {m m' : Machine β}

theorem Readable.ready (h : m.Readable) : m.Ready := by
  intro m₁ hreaches hex
  cases hdue : m₁.cpu.due with
  | nmi => exact ⟨_, 0, next_of_nmi 0 hdue⟩
  | interrupt data => exact ⟨_, 0, next_of_interrupt 0 hdue⟩
  | halted => exact ⟨_, 0, next_of_halted 0 hdue⟩
  | instruction =>
      obtain ⟨address, haddress⟩ := h m₁ hreaches hex hdue
      exact exists_next_of_readable hdue haddress

/-- **A run stops after a quarter as many events as its period has T-states left**, if they find room. -/
theorem runOut_stops (hready : m.Ready) (hroomy : m.Roomy) {quarters : Nat}
    (hleft : m.clock.target.toNat ≤ m.clock.current.toNat + 4 * quarters) :
    ∃ bound m', m.runOut bound (quarters + 1) = some m' := by
  induction quarters generalizing m with
  | zero =>
      have hex : m.clock.exhausted = true := m.clock.exhausted_iff.mpr (by omega)
      exact ⟨0, m, by rw [runOut_succ, if_pos hex]⟩
  | succ quarters ih =>
      by_cases hex : m.clock.exhausted = true
      · exact ⟨0, m, by rw [runOut_succ, if_pos hex]⟩
      by_cases hhalted : m.cpu.due = .halted
      · exact ⟨0, m.idleOut, by rw [runOut_succ, if_neg hex, if_pos hhalted]⟩
      obtain ⟨m₁, bound, hreturns⟩ := hready m .start hex
      have hnext : m.next bound = some m₁ := hreturns
      by_cases hy : m.cpu.due = .instruction ∧ m₁.clock.yieldRequested = true
      · exact ⟨bound, m₁.takeYield.2,
          by rw [runOut_succ, if_neg hex, if_neg hhalted, hnext, Option.bind_some, if_pos hy]⟩
      -- the event brings the count four T-states closer to the target at least
      obtain ⟨n, hn, -, helapsed⟩ := next_lasts hnext
      have hfirst := hroomy m m₁ .start hex ⟨bound, hnext⟩
      rw [helapsed.total, Nat.add_sub_cancel_left] at hfirst
      have hleft₁ : m₁.clock.target.toNat ≤ m₁.clock.current.toNat + 4 * quarters := by
        rw [helapsed.target, helapsed.toNat_current hfirst]
        omega
      have hon : ∀ {m₂}, Reaches m₁ m₂ → Reaches m m₂ :=
        fun h => .trans (.further .start hex hhalted ⟨bound, hnext⟩ hy) h
      obtain ⟨bound', m', hrest⟩ := ih (fun m₂ h => hready m₂ (hon h))
        (fun m₂ m₃ h => hroomy m₂ m₃ (hon h)) hleft₁
      refine ⟨max bound bound', m', ?_⟩
      rw [runOut_succ, if_neg hex, if_neg hhalted, next_mono (Nat.le_max_left _ _) hnext,
        Option.bind_some, if_neg hy]
      exact runOut_mono (Nat.le_max_right _ _) (Nat.le_refl _) hrest

/-- A period whose target lies far enough from the top leaves room. -/
theorem roomy_of_target (htarget : m.clock.target.toNat + 2 ^ 19 ≤ 2 ^ 32) : m.Roomy := by
  rintro m₁ m₂ hreaches hex ⟨bound, hnext⟩
  obtain ⟨n, -, hn, helapsed⟩ := next_lasts hnext
  have hlt := m₁.clock.not_exhausted_iff.mp (Bool.eq_false_iff.mpr hex)
  rw [hreaches.target] at hlt
  rw [helapsed.total]
  omega

end Stops

/-- What a run that nobody interrupts has counted is at least what was left of its period. -/
theorem Ran.total_le {β : Type} [Bus β] {m m' : Machine β} (h : Ran m m') (hquiet : Bus.Quiet m.bus)
    (hunasked : m.clock.yieldRequested = false) :
    m.clock.total + (m.clock.target.toNat - m.clock.current.toNat) ≤ m'.clock.total := by
  induction h with
  | @exhausted m hex =>
      rw [Clock.exhausted_iff] at hex
      omega
  | @idled m hex hdue =>
      have hnops := m.clock.toNat_haltNops
      have htotal : m.idleOut.clock.total = m.clock.total + m.clock.haltNops.toNat * 4 := rfl
      omega
  | yielded _ _ hnext hy =>
      obtain ⟨bound, hnext⟩ := hnext
      exact absurd hy (Bool.eq_false_iff.mp (next_quiet hnext hquiet hunasked))
  | @further m m₁ m' hex hdue hnext _ _ ih =>
      obtain ⟨bound, hnext⟩ := hnext
      obtain ⟨n, helapsed⟩ := next_elapsed hnext
      have hrest := ih (next_always hnext hquiet) (next_quiet hnext hquiet hunasked)
      have hleft := helapsed.left_le
      rw [helapsed.total] at hrest
      omega

/-- Where a run has counted four T-states, the NOPs that use up its period are fewer than 2³⁰. -/
theorem Reaches.haltNops_lt {β : Type} [Bus β] [View β] [Plain β] {m m₁ : Machine β}
    (h : Reaches m m₁) (hroomy : m.Roomy) (hawake : ¬ m.cpu.due = .halted)
    (hdue : m₁.cpu.due = .halted) : m₁.clock.haltNops.toNat * 4 < 2 ^ 32 := by
  cases h with
  | start => exact absurd hdue hawake
  | @further m₀ _ hbefore hex _ hnext _ =>
      have hfits := hroomy _ _ hbefore hex hnext
      obtain ⟨bound, hnext⟩ := hnext
      obtain ⟨n, hn, -, helapsed⟩ := next_lasts hnext
      rw [helapsed.total, Nat.add_sub_cancel_left] at hfits
      have hcurrent := helapsed.toNat_current hfits
      have htarget := m₁.clock.target.toNat_lt
      rw [Clock.haltNops_fits_iff]
      omega

/-- A run with a budget that the overrun covers returns as soon as it has begun. -/
theorem returns_run_iff_of_covered {β : Type} [Bus β] {m m' : Machine β} {budget : UInt32}
    (hcovered : budget.toNat ≤ m.clock.overrun.toNat) :
    Returns (m.run · budget) m' ↔ m' = m.begun budget := by
  have hex : (m.begun budget).clock.exhausted = true := (Clock.exhausted_iff _).mpr hcovered
  rw [returns_run_iff_ran]
  constructor
  · intro hran
    exact hran.of_exhausted hex
  · rintro rfl
    exact .exhausted hex

/--
**A run whose events find room below 2³² stops.**  On the plain board, from a processor that is awake
and on instructions that can be read, it returns after 2³⁰ events at most, and the NOPs of a halt in
it are a number of T-states that the count can hold.  There is room for every event if the budget is
at most 2³² less 2¹⁹.  With any budget, what a run has counted when it returns is at least the budget
less the overrun that it began with, and it is nothing if the overrun covers the budget: then the run
returns as soon as it has begun.
-/
theorem run_stops (m : Machine (Board Memory)) (budget : UInt32) (hawake : m.cpu.regs.halted = false)
    (hunasked : m.clock.yieldRequested = false) (hreadable : (m.begun budget).Readable) :
    ((m.begun budget).Roomy →
      (∃ bound m', (m.begun budget).runOut bound (2 ^ 30 + 1) = some m' ∧
        Returns (m.run · budget) m') ∧
      ∀ m₁, Reaches (m.begun budget) m₁ → m₁.cpu.due = .halted →
        m₁.clock.haltNops.toNat * 4 < 2 ^ 32) ∧
      (budget.toNat + 2 ^ 19 ≤ 2 ^ 32 → (m.begun budget).Roomy) ∧
      (∀ m', Returns (m.run · budget) m' →
        m.clock.total + (budget.toNat - m.clock.overrun.toNat) ≤ m'.clock.total) ∧
      (budget.toNat ≤ m.clock.overrun.toNat → (m.begun budget).clock.total = m.clock.total ∧
        ∀ m', Returns (m.run · budget) m' ↔ m' = m.begun budget) := by
  refine ⟨fun hroomy => ⟨?_, ?_⟩, ?_, ?_, ?_⟩
  · have hlt := budget.toNat_lt
    have hleft : (m.begun budget).clock.target.toNat ≤
        (m.begun budget).clock.current.toNat + 4 * 2 ^ 30 := by
      show budget.toNat ≤ _
      omega
    obtain ⟨bound, m', hrun⟩ := runOut_stops hreadable.ready hroomy hleft
    exact ⟨bound, m', hrun, returns_run_iff_ran.mpr (ran_of_runOut hrun)⟩
  · intro m₁ hreaches hdue
    refine hreaches.haltNops_lt hroomy ?_ hdue
    intro hhalted
    have hstart := ((Cpu.due_eq_halted_iff _).mp hhalted).2.2
    exact absurd hstart (Bool.eq_false_iff.mp hawake)
  · exact fun hbudget => roomy_of_target hbudget
  · intro m' hreturns
    exact (returns_run_iff_ran.mp hreturns).total_le (Board.quiet _) hunasked
  · exact fun hcovered => ⟨rfl, fun m' => returns_run_iff_of_covered hcovered⟩

/-! ### A run without an end -/

/-- Nothing but NOPs in memory, and nothing but instructions due. -/
structure Blank (m : Machine (Board Memory)) : Prop where
  bus : m.bus = Board.blank
  nmi : m.cpu.nmi = false
  interrupt : m.cpu.interrupt = none
  halted : m.cpu.regs.halted = false
  unasked : m.clock.yieldRequested = false

namespace Blank

variable {m m' : Machine (Board Memory)} {bound : Nat}

theorem peek_eq (h : m.Blank) (address : UInt16) : peek m.bus address = 0 := by
  rw [h.bus]
  exact Store.get_uniform _ _ _

theorem due (h : m.Blank) : m.cpu.due = .instruction := by
  refine (Cpu.due_eq_instruction_iff _).mpr ⟨h.nmi, ?_, h.halted⟩
  rw [Cpu.acceptable?, h.interrupt, ite_self]

/-- A NOP takes four T-states and leaves everything blank. -/
theorem next (h : m.Blank) (hnext : m.next bound = some m') :
    m'.Blank ∧ Clock.Elapsed 4 m.clock m'.clock := by
  have hread : ((Opcode.instruction 1 none).script m.cpu.regs).run m.outside =
      ((some .nop, m.cpu.regs.fetched), m.outside.advance 4) := by
    have hbyte : peek m.outside.bus m.cpu.regs.pc = 0 := h.peek_eq _
    have hnop : Opcode.unprefixed none 0 = pure .nop := rfl
    have hplain : Index.ofByte? 0 = none := rfl
    simp only [Opcode.run_instruction_succ, Plain.perform_fetch, hbyte, hplain, hnop]
    rfl
  have hnop : Returns m.next _ := ⟨1, next_of_read h.due hread⟩
  obtain rfl := Returns.unique (fun hle h => next_mono hle h) ⟨bound, hnext⟩ hnop
  exact ⟨⟨h.bus, h.nmi, h.interrupt, h.halted, h.unasked⟩, .advance _ 4⟩

theorem of_reaches (h : m.Blank) (hreaches : Reaches m m') : m'.Blank := by
  induction hreaches with
  | start => exact h
  | further _ _ _ hnext _ ih =>
      obtain ⟨bound, hnext⟩ := hnext
      exact (ih.next hnext).1

theorem readable (h : m.Blank) : m.Readable := by
  intro m₁ hreaches _ _
  refine ⟨0, ?_⟩
  rw [(h.of_reaches hreaches).peek_eq]
  decide

/-- A count that takes multiples of four only never reaches the top of 32 bits. -/
theorem not_ran (h : m.Blank) (htarget : m.clock.target = 0xFFFFFFFF)
    (hcount : m.clock.current.toNat % 4 = 0) : ¬ Ran m m' := by
  intro hran
  induction hran with
  | @exhausted m hex =>
      have hlt := m.clock.current.toNat_lt
      have hreached := m.clock.exhausted_iff.mp hex
      rw [htarget, show (0xFFFFFFFF : UInt32).toNat = 4294967295 from rfl] at hreached
      omega
  | idled _ hdue => exact absurd (h.due.symm.trans hdue) (by simp)
  | yielded _ _ hnext hy =>
      obtain ⟨bound, hnext⟩ := hnext
      exact absurd hy (Bool.eq_false_iff.mp (h.next hnext).1.unasked)
  | further _ _ hnext _ _ ih =>
      obtain ⟨bound, hnext⟩ := hnext
      obtain ⟨hblank, helapsed⟩ := h.next hnext
      refine ih hblank (by rw [helapsed.target, htarget]) ?_
      rw [helapsed.current, UInt32.toNat_add, show (UInt32.ofNat 4).toNat = 4 from rfl]
      omega

end Blank

/-- The machine as it is switched on, on a blank board. -/
theorem blank_powerOn (budget : UInt32) : ((powerOn .standard Board.blank).begun budget).Blank :=
  ⟨rfl, rfl, rfl, rfl, rfl⟩

/-- A hundred T-states of NOPs come to an end. -/
theorem run_stops_nops :
    ∃ m m' : Machine (Board Memory), m.bus = Board.blank ∧ m.cpu.regs.halted = false ∧
      m.clock.yieldRequested = false ∧ (m.begun 100).Readable ∧ Returns (m.run · 100) m' ∧
      m.clock.total + (100 - m.clock.overrun.toNat) ≤ m'.clock.total := by
  have hreadable := (blank_powerOn 100).readable
  obtain ⟨hstops, hroomy, hcounted, -⟩ := run_stops (powerOn .standard Board.blank) 100 rfl rfl hreadable
  obtain ⟨⟨bound, m', -, hreturns⟩, -⟩ := hstops (hroomy (by decide))
  exact ⟨_, m', rfl, rfl, rfl, hreadable, hreturns, hcounted m' hreturns⟩

/-- Among NOPs a run with the largest budget never comes to an end. -/
theorem run_endless :
    ¬ ∀ (m : Machine (Board Memory)) (budget : UInt32), m.cpu.regs.halted = false →
      m.clock.yieldRequested = false → (m.begun budget).Readable → ∃ m', Returns (m.run · budget) m' := by
  intro hstops
  obtain ⟨m', hreturns⟩ := hstops (powerOn .standard Board.blank) 0xFFFFFFFF rfl rfl
    (blank_powerOn 0xFFFFFFFF).readable
  exact (blank_powerOn 0xFFFFFFFF).not_ran rfl rfl (returns_run_iff_ran.mp hreturns)

end Machine

end Z80
