/-
Letting a machine go on.

`Machine.next` performs the script of the event that is due, so it makes that event happen
(`next_happens`), passes some time (`next_elapsed`) and keeps the promises of the bus.  A
run is a loop over it, with one bound on prefixes and one on events, and a result obtained
under some bounds is obtained under all larger ones.  So the bounds can be forgotten:
`Returns f a` says that `f` has the result `a` for some bound, and then it has no other.

`Ran` is the run without its bounds.  It has a constructor for each of the three ways in
which a run can end and one for going on, and what holds of runs is proved by induction
on it.
-/
import Z80.Proofs.Event

namespace Z80

/-! ### Results without bounds -/

/-- A computation that takes a bound has the result `a` when the bound is large enough. -/
def Returns {α : Type} (f : Nat → Option α) (a : α) : Prop := ∃ bound, f bound = some a

/-- Where a larger bound changes no result, there is only one. -/
theorem Returns.unique {α : Type} {f : Nat → Option α} {a a' : α}
    (hmono : ∀ {b b' a}, b ≤ b' → f b = some a → f b' = some a) (h : Returns f a)
    (h' : Returns f a') : a = a' := by
  obtain ⟨b, hb⟩ := h
  obtain ⟨b', hb'⟩ := h'
  have h₁ := hmono (Nat.le_max_left b b') hb
  have h₂ := hmono (Nat.le_max_right b b') hb'
  exact Option.some.inj (h₁.symm.trans h₂)

namespace Machine

variable {β : Type} {m m' : Machine β} {bound bound' : Nat}

/-! ### Taking a yield request -/

/-- Without a request there is nothing to take. -/
theorem takeYield_of_quiet (hy : m.clock.yieldRequested = false) : m.takeYield = (false, m) := by
  obtain ⟨cpu, ⟨⟨total, current, target, y⟩, bus⟩, notices⟩ := m
  cases hy
  rfl

variable [Bus β]

/-! ### One event -/

theorem next_of_nmi (bound : Nat) (hdue : m.cpu.due = .nmi) :
    m.next bound = some (m.performed ({ m.cpu with shadow := false } : Cpu).acceptNMI) := by
  simp [next, Cpu.event, hdue, performed]

theorem next_of_interrupt (bound : Nat) {data : UInt8} (hdue : m.cpu.due = .interrupt data) :
    m.next bound =
      some (m.performed (({ m.cpu with shadow := false } : Cpu).acceptInterrupt data)) := by
  simp [next, Cpu.event, hdue, performed]

theorem next_of_halted (bound : Nat) (hdue : m.cpu.due = .halted) :
    m.next bound = some (m.idled 1) := by
  simp only [next, Cpu.event, hdue, Script.run_map, Option.map_some, idled]
  simp [Cpu.idle, Script.internal, Script.run, Cycle.perform, Cycle.access?, Cycle.length]

/-- An instruction that is due has been read and executed when there is a next machine. -/
theorem next_of_instruction (hdue : m.cpu.due = .instruction) (h : m.next bound = some m') :
    ∃ i regs t cpu t',
      ((Opcode.instruction bound none).script m.cpu.regs).run m.outside = ((some i, regs), t) ∧
      (({ ({ m.cpu with shadow := false } : Cpu).beginEvent with regs } : Cpu).execute i).run t
        = (cpu, t') ∧
      m' = ⟨cpu, t', m.notices ++ (Cpu.remarks regs.pc i).toArray⟩ := by
  simp only [next, Cpu.event, hdue, Cpu.run_runInstruction] at h
  rcases hread : ((Opcode.instruction bound none).script m.cpu.regs).run m.outside with ⟨⟨i?, regs⟩, t⟩
  rw [hread] at h
  cases i? with
  | none => exact absurd h (by simp)
  | some i => exact ⟨i, regs, t, _, _, rfl, rfl, (Option.some.inj h).symm⟩

/-- The event that comes next, if a bound on prefixes lets it. -/
def coming? (bound : Nat) (m : Machine β) : Option Event :=
  match m.cpu.due with
  | .nmi => some .nmi
  | .interrupt data => some (.interrupt data)
  | .halted => some (.idle 1)
  | .instruction =>
      (((Opcode.instruction bound none).script m.cpu.regs).run m.outside).1.1.map .instruction

/-- The event that is due is the one that happens. -/
theorem next_happens (h : m.next bound = some m') :
    ∃ e, m.coming? bound = some e ∧ e.due = m.cpu.due ∧ m.Happens e m' := by
  unfold coming?
  cases hdue : m.cpu.due with
  | nmi =>
      rw [next_of_nmi bound hdue, Option.some.injEq] at h
      exact ⟨.nmi, rfl, rfl, h ▸ .nmi⟩
  | interrupt data =>
      rw [next_of_interrupt bound hdue, Option.some.injEq] at h
      exact ⟨.interrupt data, rfl, rfl, h ▸ .interrupt data⟩
  | halted =>
      rw [next_of_halted bound hdue, Option.some.injEq] at h
      exact ⟨.idle 1, rfl, rfl, h ▸ .idle 1⟩
  | instruction =>
      obtain ⟨i, regs, t, cpu, t', hread, hexec, rfl⟩ := next_of_instruction hdue h
      exact ⟨.instruction i, by rw [hread]; rfl, rfl, .instruction hread hexec⟩

/-- The bound on prefixes does not decide what happens. -/
theorem next_mono (hle : bound ≤ bound') (h : m.next bound = some m') : m.next bound' = some m' := by
  cases hdue : m.cpu.due with
  | nmi => rwa [next_of_nmi bound' hdue, ← next_of_nmi bound hdue]
  | interrupt data => rwa [next_of_interrupt bound' hdue, ← next_of_interrupt bound hdue]
  | halted => rwa [next_of_halted bound' hdue, ← next_of_halted bound hdue]
  | instruction =>
      obtain ⟨i, regs, t, cpu, t', hread, hexec, rfl⟩ := next_of_instruction hdue h
      have hmono := Opcode.instruction_mono hle (t := m.outside) (i := i) (by rw [hread])
      simp only [next, Cpu.event, hdue, Cpu.run_runInstruction]
      simp only [hmono, hread, hexec, Option.map_some]

/-- The next machine is made of the outcome of a script and of what the script did outside. -/
theorem next_eq_some_iff : m.next bound = some m' ↔
    ∃ o, ((m.cpu.event bound).run m.outside).1 = some o ∧
      m' = ⟨o.cpu, ((m.cpu.event bound).run m.outside).2, m.notices ++ o.notices.toArray⟩ := by
  constructor
  · intro h
    obtain ⟨o, ho, rfl⟩ := Option.map_eq_some_iff.mp h
    exact ⟨o, ho, rfl⟩
  · rintro ⟨o, ho, rfl⟩
    exact Option.map_eq_some_iff.mpr ⟨o, ho, rfl⟩

theorem next_outside (h : m.next bound = some m') :
    m'.outside = ((m.cpu.event bound).run m.outside).2 := by
  obtain ⟨o, -, rfl⟩ := next_eq_some_iff.mp h
  rfl

theorem next_elapsed (h : m.next bound = some m') : ∃ n, Clock.Elapsed n m.clock m'.clock := by
  obtain ⟨n, hn⟩ := Script.run_elapsed (m.cpu.event bound) m.outside
  rw [← next_outside h] at hn
  exact ⟨n, hn⟩

theorem next_always {P : Reply β → Prop} (h : m.next bound = some m') (hb : Bus.Always P m.bus) :
    Bus.Always P m'.bus := by
  have := Script.run_always (m.cpu.event bound) hb
  rw [← next_outside h] at this
  exact this

theorem next_quiet (h : m.next bound = some m') (hb : Bus.Quiet m.bus)
    (hy : m.clock.yieldRequested = false) : m'.clock.yieldRequested = false := by
  have := Script.run_quiet (m.cpu.event bound) hb hy
  rw [← next_outside h] at this
  exact this

/-! ### Runs and their bounds -/

/-- The machine at the beginning of a new budget period. -/
def begun (budget : UInt32) (m : Machine β) : Machine β := m.mapClock (·.setBudget budget)

/-- A run goes on until its period is over, or an instruction has left a request to yield. -/
theorem runOut_succ (bound events : Nat) (m : Machine β) :
    m.runOut bound (events + 1) =
      if m.clock.exhausted = true then some m
      else if m.cpu.due = .halted then some m.idleOut
      else (m.next bound).bind fun m₁ =>
        if m.cpu.due = .instruction ∧ m₁.clock.yieldRequested = true then some m₁.takeYield.2
        else m₁.runOut bound events := by
  rw [runOut]
  by_cases hex : m.clock.exhausted = true
  · rw [if_pos hex, if_pos hex]
  · rw [if_neg hex, if_neg hex]
    cases hdue : m.cpu.due with
    | halted => rfl
    | nmi | interrupt data => simp
    | instruction =>
        cases m.next bound with
        | none => rfl
        | some m₁ =>
            by_cases hy : m₁.clock.yieldRequested = true
            · have htaken : m₁.takeYield.1 = true := hy
              simp [hy, htaken]
            · simp [hy, takeYield_of_quiet (Bool.eq_false_iff.mpr hy)]

theorem runOut_mono {events events' : Nat} (hle : bound ≤ bound') (hle' : events ≤ events')
    (h : m.runOut bound events = some m') : m.runOut bound' events' = some m' := by
  induction events generalizing events' m with
  | zero => simp [runOut] at h
  | succ events ih =>
      obtain ⟨events', rfl⟩ : ∃ n, events' = n + 1 := ⟨events' - 1, by omega⟩
      rw [runOut_succ] at h ⊢
      by_cases hex : m.clock.exhausted = true
      · rwa [if_pos hex] at h ⊢
      · rw [if_neg hex] at h ⊢
        by_cases hdue : m.cpu.due = .halted
        · rwa [if_pos hdue] at h ⊢
        · rw [if_neg hdue] at h ⊢
          obtain ⟨m₁, hnext, h⟩ := Option.bind_eq_some_iff.mp h
          refine Option.bind_eq_some_iff.mpr ⟨m₁, next_mono hle hnext, ?_⟩
          by_cases hy : m.cpu.due = .instruction ∧ m₁.clock.yieldRequested = true
          · rwa [if_pos hy] at h ⊢
          · rw [if_neg hy] at h ⊢
            exact ih (by omega) h

theorem run_mono {budget : UInt32} (hle : bound ≤ bound') (h : m.run bound budget = some m') :
    m.run bound' budget = some m' := runOut_mono hle hle h

/-- How a run that has begun comes to its end. -/
inductive Ran : Machine β → Machine β → Prop
  | exhausted {m : Machine β} (hex : m.clock.exhausted = true) : Ran m m
  | idled {m : Machine β} (hex : ¬ m.clock.exhausted = true) (hdue : m.cpu.due = .halted) :
      Ran m m.idleOut
  | yielded {m m₁ : Machine β} (hex : ¬ m.clock.exhausted = true) (hdue : m.cpu.due = .instruction)
      (hnext : Returns m.next m₁) (hy : m₁.clock.yieldRequested = true) : Ran m m₁.takeYield.2
  | further {m m₁ m' : Machine β} (hex : ¬ m.clock.exhausted = true) (hdue : ¬ m.cpu.due = .halted)
      (hnext : Returns m.next m₁)
      (hy : ¬ (m.cpu.due = .instruction ∧ m₁.clock.yieldRequested = true)) (hrest : Ran m₁ m') :
      Ran m m'

/-- In an exhausted period nothing happens. -/
theorem Ran.of_exhausted (h : Ran m m') (hex : m.clock.exhausted = true) : m' = m := by
  cases h with
  | exhausted _ => rfl
  | idled hnot _ => exact absurd hex hnot
  | yielded hnot _ _ _ => exact absurd hex hnot
  | further hnot _ _ _ _ => exact absurd hex hnot

theorem ran_of_runOut {events : Nat} (h : m.runOut bound events = some m') : Ran m m' := by
  induction events generalizing m with
  | zero => simp [runOut] at h
  | succ events ih =>
      rw [runOut_succ] at h
      by_cases hex : m.clock.exhausted = true
      · rw [if_pos hex, Option.some.injEq] at h
        exact h ▸ .exhausted hex
      · rw [if_neg hex] at h
        by_cases hdue : m.cpu.due = .halted
        · rw [if_pos hdue, Option.some.injEq] at h
          exact h ▸ .idled hex hdue
        · rw [if_neg hdue] at h
          obtain ⟨m₁, hnext, h⟩ := Option.bind_eq_some_iff.mp h
          by_cases hy : m.cpu.due = .instruction ∧ m₁.clock.yieldRequested = true
          · rw [if_pos hy, Option.some.injEq] at h
            exact h ▸ .yielded hex hy.1 ⟨bound, hnext⟩ hy.2
          · rw [if_neg hy] at h
            exact .further hex hdue ⟨bound, hnext⟩ hy (ih h)

theorem Ran.exists_runOut (h : Ran m m') : ∃ bound, m.runOut bound bound = some m' := by
  induction h with
  | exhausted hex => exact ⟨1, by rw [runOut_succ, if_pos hex]⟩
  | idled hex hdue => exact ⟨1, by rw [runOut_succ, if_neg hex, if_pos hdue]⟩
  | @yielded m m₁ hex hdue hnext hy =>
      obtain ⟨b, hnext⟩ := hnext
      refine ⟨b + 1, ?_⟩
      rw [runOut_succ, if_neg hex, if_neg (by simp [hdue]), next_mono (by omega) hnext]
      exact if_pos ⟨hdue, hy⟩
  | @further m m₁ m' hex hdue hnext hy _ ih =>
      obtain ⟨b, hnext⟩ := hnext
      obtain ⟨b', hrest⟩ := ih
      refine ⟨max b b' + 1, ?_⟩
      rw [runOut_succ, if_neg hex, if_neg hdue, next_mono (by omega) hnext]
      exact (if_neg hy).trans (runOut_mono (by omega) (by omega) hrest)

/-- A run, without its bounds. -/
theorem returns_run_iff_ran {budget : UInt32} :
    Returns (m.run · budget) m' ↔ Ran (m.begun budget) m' :=
  ⟨fun ⟨_, h⟩ => ran_of_runOut h, fun h => h.exists_runOut⟩

end Machine

end Z80
