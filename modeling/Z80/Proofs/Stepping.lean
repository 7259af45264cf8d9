/-
A budget in one run and in single steps.

There are two loops that let a machine go on until its budget period is over.  `runOut`
checks for interrupts, lets a halted processor use up the rest of the period at once and
returns; `stepOut` calls `step` again and again and knows nothing of halting.  They agree:
from a machine on a quiet bus, whichever of them returns, the other returns the same
machine, down to the clock and the log of accesses.

Both are compared with a third thing, which has no fuel: `Until P m m'` says that `m'` is
the first machine at which `P` holds when events happen one after the other from `m` on.
What makes the bulk step of the run right is `Steady`: a halted processor is never in the
shadow of EI, and then no event but a NOP can be due before the host is back, since NOPs
change no latch.  `until_idleOut` is that argument, an induction on the number of NOPs in
which four T-states are always left below 2³².
-/
import Z80.Proofs.Log

namespace Z80

/-! ### Refreshing -/

namespace Registers

@[simp] theorem refresh_zero (r : Registers) : r.refresh 0 = r := by
  have hcount : UInt8.ofNat (r.r.toNat / 128 * 128 + (r.r.toNat + 0) % 128) = r.r := by
    apply UInt8.toNat_inj.mp
    rw [UInt8.toNat_ofNat']
    have := r.r.toNat_lt
    omega
  unfold refresh
  rw [hcount]

/-- The refresh register counts fetches in one go as it does in two. -/
theorem refresh_refresh (r : Registers) (m n : Nat) :
    (r.refresh m).refresh n = r.refresh (m + n) := by
  have hcount : (UInt8.ofNat (r.r.toNat / 128 * 128 + (r.r.toNat + m) % 128)).toNat =
      r.r.toNat / 128 * 128 + (r.r.toNat + m) % 128 := by
    rw [UInt8.toNat_ofNat']
    have := r.r.toNat_lt
    omega
  have hsum : (r.r.toNat / 128 * 128 + (r.r.toNat + m) % 128) / 128 * 128 +
      (r.r.toNat / 128 * 128 + (r.r.toNat + m) % 128 + n) % 128 =
      r.r.toNat / 128 * 128 + (r.r.toNat + (m + n)) % 128 := by
    omega
  unfold refresh
  rw [hcount, hsum]

end Registers

namespace Machine

variable {β : Type}

/-! ### Idling -/

theorem idled_zero {m : Machine β} (hshadow : m.cpu.shadow = false) : m.idled 0 = m := by
  obtain ⟨⟨regs, config, interrupt, nmi, shadow, q, previousQ⟩, outside, notices⟩ := m
  cases hshadow
  simp [idled, Timed.advance]

theorem idled_idled (m : Machine β) (n k : Nat) : (m.idled n).idled k = m.idled (n + k) := by
  simp only [idled, Registers.refresh_refresh, Timed.advance, Clock.advance_advance, Nat.add_mul]

/-- NOPs do not change what is due to a halted processor. -/
theorem due_idled {m : Machine β} (hdue : m.cpu.due = .halted) (hshadow : m.cpu.shadow = false)
    (n : Nat) : (m.idled n).cpu.due = .halted := by
  rw [← hdue]
  simp only [Cpu.due, Cpu.acceptable?, idled, hshadow]
  rfl

variable [Bus β]

/-! ### The loops -/

/-- Lets events happen in single steps until the budget period is over, but fewer than `events`. -/
def stepOut (bound : Nat) : (events : Nat) → Machine β → Option (Machine β)
  | 0, _ => none
  | events + 1, m =>
      if m.clock.exhausted then some m
      else (m.step bound).bind fun r => r.2.stepOut bound events

/-- Spends a budget of T-states in single steps. -/
def stepThrough (bound : Nat) (budget : UInt32) (m : Machine β) : Option (Machine β) :=
  (m.begun budget).stepOut bound bound

/-- Takes a number of steps. -/
def steps (bound : Nat) : (n : Nat) → Machine β → Option (Machine β)
  | 0, m => some m
  | n + 1, m => (m.step bound).bind fun r => r.2.steps bound n

/-- `m'` is the first machine at which `P` holds when events happen from `m` on. -/
inductive Until (P : Machine β → Prop) : Machine β → Machine β → Prop
  | here {m : Machine β} (h : P m) : Until P m m
  | next {m m₁ m' : Machine β} (h : ¬ P m) (hnext : Returns m.next m₁) (hrest : Until P m₁ m') :
      Until P m m'

/-- A machine that the host may leave to itself: the bus lets it be, and a halt is not fresh from EI. -/
structure Steady (m : Machine β) : Prop where
  calm : ¬ (m.cpu.regs.halted = true ∧ m.cpu.shadow = true)
  quiet : Bus.Quiet m.bus
  unasked : m.clock.yieldRequested = false

namespace Steady

variable {m m' : Machine β} {bound : Nat}

theorem shadow_of_halted (h : m.Steady) (hdue : m.cpu.due = .halted) : m.cpu.shadow = false := by
  have hhalted := ((Cpu.due_eq_halted_iff _).mp hdue).2.2
  exact Bool.eq_false_iff.mpr fun hshadow => h.calm ⟨hhalted, hshadow⟩

theorem begun (h : m.Steady) (budget : UInt32) : (m.begun budget).Steady :=
  ⟨h.calm, h.quiet, h.unasked⟩

theorem next (h : m.Steady) (hnext : m.next bound = some m') : m'.Steady := by
  obtain ⟨e, -, hdue, hhappens⟩ := next_happens hnext
  exact ⟨hhappens.calm hdue, next_always hnext h.quiet, next_quiet hnext h.quiet h.unasked⟩

/-- For a steady machine a step is an event and nothing else. -/
theorem step_bind (h : m.Steady) {α : Type} (f : Machine β → Option α) :
    ((m.step bound).bind fun r => f r.2) = (m.next bound).bind f := by
  unfold step
  cases hnext : m.next bound with
  | none => rfl
  | some m₁ =>
      show f m₁.takeYield.2 = f m₁
      rw [takeYield_of_quiet (h.next hnext).unasked]

end Steady

namespace Until

variable {P : Machine β → Prop} {m m' m'' : Machine β}

theorem holds (h : Until P m m') : P m' := by
  induction h with
  | here h => exact h
  | next _ _ _ ih => exact ih

/-- There is at most one first machine. -/
theorem unique (h : Until P m m') (h' : Until P m m'') : m' = m'' := by
  induction h with
  | here h =>
      cases h' with
      | here _ => rfl
      | next hnot _ _ => exact absurd h hnot
  | next hnot hnext _ ih =>
      cases h' with
      | here h => exact absurd h hnot
      | next _ hnext' hrest =>
          rw [Returns.unique (fun hle h => next_mono hle h) hnext' hnext] at hrest
          exact ih hrest

/-- Two conditions that an invariant makes equivalent come true at the same machine. -/
theorem congr {P Q I : Machine β → Prop} (hPQ : ∀ m, I m → (P m ↔ Q m))
    (hI : ∀ m m₁ bound, I m → ¬ P m → m.next bound = some m₁ → I m₁) (hm : I m)
    (h : Until P m m') : Until Q m m' ∧ I m' := by
  induction h with
  | here h => exact ⟨.here ((hPQ _ hm).mp h), hm⟩
  | next hnot hnext _ ih =>
      obtain ⟨bound, hb⟩ := hnext
      obtain ⟨hrest, hend⟩ := ih (hI _ _ bound hm hnot hb)
      exact ⟨.next (fun h => hnot ((hPQ _ hm).mpr h)) ⟨bound, hb⟩ hrest, hend⟩

/-- A condition that comes true later may be waited for from an earlier stop on. -/
theorem trans {P Q : Machine β → Prop} (hQP : ∀ m, Q m → P m) (h : Until P m m')
    (h' : Until Q m' m'') : Until Q m m'' := by
  induction h with
  | here _ => exact h'
  | next hnot hnext _ ih => exact .next (fun h => hnot (hQP _ h)) hnext (ih h')

/-- On the way to a condition that comes true later there is the earlier stop. -/
theorem split {P Q : Machine β → Prop} (hQP : ∀ m, Q m → P m) (h : Until Q m m'') :
    ∃ m', Until P m m' ∧ Until Q m' m'' := by
  induction h with
  | here h => exact ⟨_, .here (hQP _ h), .here h⟩
  | @next m m₁ m'' hnot hnext hrest ih =>
      by_cases hP : P m
      · exact ⟨m, .here hP, .next hnot hnext hrest⟩
      · obtain ⟨m', h₁, h₂⟩ := ih
        exact ⟨m', .next hP hnext h₁, h₂⟩

/-- What every event keeps is kept. -/
theorem keeps {P I : Machine β → Prop} (hI : ∀ m m₁ bound, I m → m.next bound = some m₁ → I m₁)
    (hm : I m) (h : Until P m m') : I m' := by
  induction h with
  | here _ => exact hm
  | next _ hnext _ ih =>
      obtain ⟨bound, hb⟩ := hnext
      exact ih (hI _ _ bound hm hb)

end Until

/-! ### Single steps -/

theorem until_of_stepOut {m m' : Machine β} {bound events : Nat} (hm : m.Steady)
    (h : m.stepOut bound events = some m') : Until (·.clock.exhausted = true) m m' := by
  induction events generalizing m with
  | zero => simp [stepOut] at h
  | succ events ih =>
      rw [stepOut] at h
      by_cases hex : m.clock.exhausted = true
      · rw [if_pos hex, Option.some.injEq] at h
        exact h ▸ .here hex
      · rw [if_neg hex, hm.step_bind] at h
        obtain ⟨m₁, hnext, h⟩ := Option.bind_eq_some_iff.mp h
        exact .next hex ⟨bound, hnext⟩ (ih (hm.next hnext) h)

theorem stepOut_mono {m m' : Machine β} {bound bound' events events' : Nat} (hm : m.Steady)
    (hle : bound ≤ bound') (hle' : events ≤ events') (h : m.stepOut bound events = some m') :
    m.stepOut bound' events' = some m' := by
  induction events generalizing events' m with
  | zero => simp [stepOut] at h
  | succ events ih =>
      obtain ⟨events', rfl⟩ : ∃ n, events' = n + 1 := ⟨events' - 1, by omega⟩
      rw [stepOut] at h ⊢
      by_cases hex : m.clock.exhausted = true
      · rwa [if_pos hex] at h ⊢
      · rw [if_neg hex, hm.step_bind] at h ⊢
        obtain ⟨m₁, hnext, h⟩ := Option.bind_eq_some_iff.mp h
        exact Option.bind_eq_some_iff.mpr
          ⟨m₁, next_mono hle hnext, ih (hm.next hnext) (by omega) h⟩

theorem stepOut_of_until {m m' : Machine β} (hm : m.Steady)
    (h : Until (·.clock.exhausted = true) m m') : ∃ bound, m.stepOut bound bound = some m' := by
  induction h with
  | here hex => exact ⟨1, by rw [stepOut, if_pos hex]⟩
  | @next m m₁ m' hex hnext _ ih =>
      obtain ⟨b, hnext⟩ := hnext
      obtain ⟨b', hrest⟩ := ih (hm.next hnext)
      refine ⟨max b b' + 1, ?_⟩
      rw [stepOut, if_neg hex, hm.step_bind, next_mono (by omega) hnext]
      exact stepOut_mono (hm.next hnext) (by omega) (by omega) hrest

/-! ### Halting -/

/-- **Using up a period at once is idling through it NOP by NOP.** -/
theorem until_idleOut {m : Machine β} (hm : m.Steady) (hdue : m.cpu.due = .halted)
    (htarget : m.clock.target.toNat ≤ 2 ^ 32 - 4) :
    Until (·.clock.exhausted = true) m m.idleOut := by
  have hshadow := hm.shadow_of_halted hdue
  rw [idleOut_eq_idled]
  -- the induction is on the NOPs still to go, and each of them leaves one less
  generalize hn : m.clock.haltNops.toNat = n
  induction n generalizing m with
  | zero =>
      rw [idled_zero hshadow]
      refine .here ((Clock.exhausted_iff _).mpr ?_)
      rw [Clock.toNat_haltNops] at hn
      omega
  | succ n ih =>
      have hex : ¬ m.clock.exhausted = true := by
        intro hex
        rw [Clock.haltNops_of_exhausted hex] at hn
        omega
      have hnext : m.next 0 = some (m.idled 1) := next_of_halted 0 hdue
      have hgo : (m.idled 1).clock.haltNops.toNat = n := by
        have := Clock.haltNops_advance (Bool.eq_false_iff.mpr hex) htarget
        show (m.clock.advance 4).haltNops.toNat = n
        omega
      have hrest := ih (hm.next hnext) (due_idled hdue hshadow 1) htarget rfl hgo
      rw [idled_idled, Nat.add_comm] at hrest
      exact .next hex ⟨0, hnext⟩ hrest

/-- The first exhausted machine after a halt is the one with the period used up. -/
theorem Until.eq_idleOut {m m' : Machine β} (hm : m.Steady) (hdue : m.cpu.due = .halted)
    (htarget : m.clock.target.toNat ≤ 2 ^ 32 - 4)
    (h : Until (·.clock.exhausted = true) m m') : m' = m.idleOut :=
  h.unique (until_idleOut hm hdue htarget)

/-! ### Runs -/

/-- A run that nobody interrupts ends with the first exhausted machine. -/
theorem ran_iff_until {m m' : Machine β} (hm : m.Steady)
    (htarget : m.clock.target.toNat ≤ 2 ^ 32 - 4) :
    Ran m m' ↔ Until (·.clock.exhausted = true) m m' := by
  constructor
  · intro h
    induction h with
    | exhausted hex => exact .here hex
    | idled _ hdue => exact until_idleOut hm hdue htarget
    | yielded _ _ hnext hy =>
        obtain ⟨bound, hnext⟩ := hnext
        exact absurd hy (by simp [(hm.next hnext).unasked])
    | further hex _ hnext _ _ ih =>
        obtain ⟨bound, hnext⟩ := hnext
        obtain ⟨n, helapsed⟩ := next_elapsed hnext
        exact .next hex ⟨bound, hnext⟩ (ih (hm.next hnext) (by rw [helapsed.target]; exact htarget))
  · intro h
    induction h with
    | here hex => exact .exhausted hex
    | @next m m₁ m' hex hnext hrest ih =>
        obtain ⟨bound, hnext⟩ := hnext
        obtain ⟨n, helapsed⟩ := next_elapsed hnext
        have hgo := ih (hm.next hnext) (by rw [helapsed.target]; exact htarget)
        by_cases hdue : m.cpu.due = .halted
        · rw [(Until.next hex ⟨bound, hnext⟩ hrest).eq_idleOut hm hdue htarget]
          exact .idled hex hdue
        · exact .further hex hdue ⟨bound, hnext⟩ (by simp [(hm.next hnext).unasked]) hgo

/-- On a machine that may be left to itself the two loops return alike. -/
theorem returns_run_iff {m : Machine β} {budget : UInt32} (hm : m.Steady)
    (hbudget : budget.toNat ≤ 2 ^ 32 - 4) (m' : Machine β) :
    Returns (m.run · budget) m' ↔ Returns (m.stepThrough · budget) m' := by
  have hbegun := hm.begun budget
  rw [returns_run_iff_ran, ran_iff_until hbegun hbudget]
  constructor
  · exact stepOut_of_until hbegun
  · rintro ⟨b, h⟩
    exact until_of_stepOut hbegun h

/-- A halted processor idles through one NOP in each step. -/
theorem steps_idled {m : Machine β} (hm : m.Steady) (hdue : m.cpu.due = .halted) (bound n : Nat) :
    m.steps bound n = some (m.idled n) := by
  have hshadow := hm.shadow_of_halted hdue
  induction n generalizing m with
  | zero => rw [idled_zero hshadow]; rfl
  | succ n ih =>
      have hnext : m.next bound = some (m.idled 1) := next_of_halted bound hdue
      rw [steps, hm.step_bind, hnext, Option.bind_some,
        ih (hm.next hnext) (due_idled hdue hshadow 1) rfl, idled_idled, Nat.add_comm]

/--
**A budget in one run is the budget in single steps.**  Whichever of the two loops returns,
the other returns the same machine, and on a bus that writes down what it is asked the logs
agree too.  Where the processor is halted, the run's one bulk step is `haltNops` steps of
one NOP each, of four T-states and without the bus, and at none of the boundaries between
them is anything but a NOP due.
-/
theorem returns_run_iff_stepThrough (m : Machine β) (budget : UInt32)
    (hcalm : ¬ (m.cpu.regs.halted = true ∧ m.cpu.shadow = true)) (hquiet : Bus.Quiet m.bus)
    (hunasked : m.clock.yieldRequested = false) (hbudget : budget.toNat ≤ 2 ^ 32 - 4) :
    (∀ m', Returns (m.run · budget) m' ↔ Returns (m.stepThrough · budget) m') ∧
      (∀ r, Returns (m.logged.run · budget) r ↔ Returns (m.logged.stepThrough · budget) r) ∧
      (m.cpu.due = .halted → ∀ bound,
        (m.begun budget).steps bound (m.begun budget).clock.haltNops.toNat =
            some (m.begun budget).idleOut ∧
          ∀ n, ∃ mₙ, (m.begun budget).steps bound n = some mₙ ∧ mₙ.cpu.due = .halted ∧
            mₙ.outside = (m.begun budget).outside.advance (n * 4)) := by
  have hm : m.Steady := ⟨hcalm, hquiet, hunasked⟩
  have hlogged : m.logged.Steady := ⟨hcalm, Logged.quiet hquiet, hunasked⟩
  refine ⟨returns_run_iff hm hbudget, returns_run_iff hlogged hbudget, ?_⟩
  intro hdue bound
  have hbegun := hm.begun budget
  refine ⟨steps_idled hbegun hdue bound _, fun n => ?_⟩
  exact ⟨_, steps_idled hbegun hdue bound n,
    due_idled hdue (hbegun.shadow_of_halted hdue) n, rfl⟩

/-- Ten T-states of a halted processor are three NOPs, for either loop. -/
theorem returns_stepThrough_halted :
    ∃ m : Machine (Board Memory), m.cpu.regs.halted = true ∧ m.cpu.shadow = false ∧
      m.bus = Board.blank ∧ m.clock.yieldRequested = false ∧ (10 : UInt32).toNat ≤ 2 ^ 32 - 4 ∧
      Returns (m.stepThrough · 10) ((m.begun 10).idled 3) := by
  refine ⟨(powerOn .standard Board.blank).mapCpu fun cpu =>
    { cpu with regs := { cpu.regs with halted := true } }, rfl, rfl, rfl, rfl, by decide, ?_⟩
  exact ((returns_run_iff_stepThrough _ 10 (by simp [mapCpu, powerOn, Cpu.powerOn, Cpu.reset])
    (Board.quiet _) rfl (by decide)).1 _).mp ⟨1, rfl⟩

end Machine

end Z80
