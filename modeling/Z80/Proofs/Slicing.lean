/-
Slices of time.

A host hands out its T-states in slices, one `run` after the other, and how it cuts them
must not show.  On the plain board it does not: two lists of budgets with the same sum lead
from one machine to the same processor, memory, port log and lifetime count, and to the
same overrun, which is all of the budget counters that the next slice will see.

The reason is that a slice has a deadline on the lifetime count: its budget from where the
last one should have ended.  `returns_run_iff_until` says that a run stops at the first
machine that has reached the deadline, with exactly the overrun past it.  Deadlines add up
where budgets do, and reaching an earlier one on the way to a later one makes no difference
(`Until.trans`), so only the last of them counts.

What may not happen is that the 32-bit counter wraps in a slice.  It does not, because no
event on the plain board takes more than 2¹⁹ T-states, chains of prefixes included.
-/
import Z80.Proofs.Stepping

namespace Z80

namespace Cpu

/-- On the plain board an event that comes to an end is over in 2¹⁹ T-states. -/
theorem event_time {bound : Nat} {cpu : Cpu} {t : Timed (Board Memory)} {o : Outcome}
    (h : ((cpu.event bound).run t).1 = some o) :
    ∃ n, n ≤ 2 ^ 19 ∧ Clock.Elapsed n t.clock ((cpu.event bound).run t).2.clock := by
  have hshort : ∀ {s : Script Outcome} {P : Outcome → Prop}, (s.Ensures fun n o => n ≤ 19 ∧ P o) →
      ∃ n, n ≤ 2 ^ 19 ∧ Clock.Elapsed n t.clock (s.run t).2.clock := by
    intro s P hs
    obtain ⟨n, hn, helapsed⟩ := hs.run_prompt (Board.prompt t.bus)
    exact ⟨n, by omega, helapsed⟩
  unfold event at h ⊢
  cases hdue : cpu.due with
  | nmi =>
      simp only [Script.run_map]
      exact hshort (acceptNMI_ensures _)
  | interrupt data =>
      simp only [Script.run_map]
      exact hshort (acceptInterrupt_ensures _ data)
  | halted =>
      simp only [Script.run_map]
      exact hshort (idle_ensures _)
  | instruction =>
      rw [hdue] at h
      simp only [run_runInstruction] at h ⊢
      rcases hread : ((Opcode.instruction bound none).script cpu.regs).run t with ⟨⟨i?, regs⟩, t'⟩
      rw [hread] at h
      cases i? with
      | none => exact absurd h (by simp)
      | some i =>
          obtain ⟨k, hchain, n, hn, helapsed⟩ :=
            Opcode.instruction_time (t := t) (r := cpu.regs) (i := i) (by rw [hread])
          rw [hread] at helapsed
          obtain ⟨l, ⟨hl, -⟩, hexecuted⟩ := (execute_ensures
            ({ ({ cpu with shadow := false } : Cpu).beginEvent with regs } : Cpu) i).run_prompt
              (Board.prompt t'.bus)
          have hk := hchain.lt
          exact ⟨n + l, by omega, helapsed.trans hexecuted⟩

end Cpu

/-! ### Machines that differ in their budget period -/

/-- The same board at the same time, wherever the budget periods stand. -/
structure Timed.Alike (t t' : Timed (Board Memory)) : Prop where
  bus : t.bus = t'.bus
  total : t.clock.total = t'.clock.total

theorem Cycle.perform_alike (c : Cycle) {t t' : Timed (Board Memory)} (h : t.Alike t') :
    (c.perform t).1 = (c.perform t').1 ∧ (c.perform t).2.Alike (c.perform t').2 := by
  obtain ⟨⟨total, current, target, y⟩, b⟩ := t
  obtain ⟨⟨total', current', target', y'⟩, b'⟩ := t'
  obtain ⟨rfl, rfl⟩ : b = b' ∧ total = total' := ⟨h.bus, h.total⟩
  cases c <;> exact ⟨rfl, rfl, rfl⟩

/-- No script can tell where a budget period stands. -/
theorem Script.run_alike {α : Type} (s : Script α) {t t' : Timed (Board Memory)} (h : t.Alike t') :
    (s.run t).1 = (s.run t').1 ∧ (s.run t).2.Alike (s.run t').2 := by
  induction s generalizing t t' with
  | done a => exact ⟨rfl, h⟩
  | cycle c next ih =>
      obtain ⟨hdata, houtside⟩ := c.perform_alike h
      simp only [run_cycle]
      rw [← hdata]
      exact ih _ houtside

open Clock (handedOut handedOut_cons)

namespace Machine

variable {β : Type}

/-- The same machine but for where its budget period stands. -/
structure Alike (m m' : Machine (Board Memory)) : Prop where
  cpu : m.cpu = m'.cpu
  outside : m.outside.Alike m'.outside
  notices : m.notices = m'.notices

namespace Alike

variable {m m' m'' m₁ : Machine (Board Memory)}

theorem symm (h : m.Alike m') : m'.Alike m :=
  ⟨h.cpu.symm, ⟨h.outside.bus.symm, h.outside.total.symm⟩, h.notices.symm⟩

theorem trans (h : m.Alike m') (h' : m'.Alike m'') : m.Alike m'' :=
  ⟨h.cpu.trans h'.cpu, ⟨h.outside.bus.trans h'.outside.bus, h.outside.total.trans h'.outside.total⟩,
    h.notices.trans h'.notices⟩

theorem begun (m : Machine (Board Memory)) (budget : UInt32) : m.Alike (m.begun budget) :=
  ⟨rfl, ⟨rfl, rfl⟩, rfl⟩

/-- Machines that are alike go on alike. -/
theorem next (h : m.Alike m') {bound : Nat} (hnext : m.next bound = some m₁) :
    ∃ m₁', m'.next bound = some m₁' ∧ m₁.Alike m₁' := by
  obtain ⟨o, ho, rfl⟩ := next_eq_some_iff.mp hnext
  obtain ⟨hresult, houtside⟩ := (m.cpu.event bound).run_alike h.outside
  rw [h.cpu] at hresult houtside ho
  refine ⟨_, next_eq_some_iff.mpr ⟨o, hresult.symm.trans ho, rfl⟩, rfl, ?_, ?_⟩
  · rw [h.cpu]
    exact houtside
  · exact congrArg (· ++ o.notices.toArray) h.notices

end Alike

/-! ### Deadlines -/

/-- The lifetime count has reached a deadline. -/
def Reached (deadline : Int) (m : Machine (Board Memory)) : Prop := deadline ≤ m.clock.total

/-- Where a budget period that begins now ends on the lifetime count. -/
def deadline (m : Machine (Board Memory)) (budget : Nat) : Int :=
  m.clock.total + budget - m.clock.overrun.toNat

/-- The period ends at a deadline, and is too short for its counter to wrap. -/
structure Timely (deadline : Int) (m : Machine (Board Memory)) : Prop where
  synced : (m.clock.current.toNat : Int) - m.clock.target.toNat = m.clock.total - deadline
  short : m.clock.target.toNat ≤ 2 ^ 31

variable {m m' : Machine (Board Memory)} {d : Int}

theorem next_time {bound : Nat} (hnext : m.next bound = some m') :
    ∃ n, n ≤ 2 ^ 19 ∧ Clock.Elapsed n m.clock m'.clock := by
  obtain ⟨o, ho, rfl⟩ := next_eq_some_iff.mp hnext
  exact Cpu.event_time ho

namespace Timely

theorem begun (m : Machine (Board Memory)) {budget : UInt32} (hbudget : budget.toNat ≤ 2 ^ 31) :
    Timely (m.deadline budget.toNat) (m.begun budget) := by
  refine ⟨?_, hbudget⟩
  show (m.clock.overrun.toNat : Int) - budget.toNat =
    m.clock.total - (m.clock.total + budget.toNat - m.clock.overrun.toNat)
  omega

theorem exhausted_iff (h : Timely d m) : m.clock.exhausted = true ↔ m.Reached d := by
  have := h.synced
  unfold Reached
  rw [Clock.exhausted_iff]
  omega

/-- An event that begins before the deadline ends before the counter wraps. -/
theorem next {bound : Nat} (h : Timely d m) (hr : ¬ m.Reached d) (hnext : m.next bound = some m') :
    Timely d m' := by
  obtain ⟨n, hn, helapsed⟩ := next_time hnext
  have hsynced := h.synced
  have hshort := h.short
  have hcurrent := helapsed.toNat_current (by unfold Reached at hr; omega)
  refine ⟨?_, by rw [helapsed.target]; exact hshort⟩
  rw [hcurrent, helapsed.total, helapsed.target]
  omega

/-- The overrun of a period is the time past its deadline. -/
theorem overrun (h : Timely d m) (hr : m.Reached d) :
    (m.clock.overrun.toNat : Int) = m.clock.total - d := by
  have := h.synced
  unfold Reached at hr
  rw [Clock.toNat_overrun]
  omega

/-- The end of the period and the deadline are reached by the same machine. -/
theorem until_iff (h : Timely d m) :
    Until (·.clock.exhausted = true) m m' ↔ Until (Reached d) m m' := by
  constructor
  · intro huntil
    refine (Until.congr (I := Timely d) (fun _ h => h.exhausted_iff) ?_ h huntil).1
    exact fun _ _ _ h hex hnext => h.next (fun hr => hex (h.exhausted_iff.mpr hr)) hnext
  · intro huntil
    refine (Until.congr (I := Timely d) (fun _ h => h.exhausted_iff.symm) ?_ h huntil).1
    exact fun _ _ _ h hr hnext => h.next hr hnext

theorem of_until (h : Timely d m) (huntil : Until (Reached d) m m') : Timely d m' :=
  (Until.congr (fun _ h => h.exhausted_iff.symm) (fun _ _ _ h hr hnext => h.next hr hnext) h huntil).2

end Timely

/-- A run stops at the first machine that has reached its deadline. -/
theorem returns_run_iff_until {budget : UInt32} (hm : m.Steady) (hbudget : budget.toNat ≤ 2 ^ 31) :
    Returns (m.run · budget) m' ↔ Until (Reached (m.deadline budget.toNat)) (m.begun budget) m' := by
  have hbegun := hm.begun budget
  have htarget : (m.begun budget).clock.target.toNat ≤ 2 ^ 32 - 4 := by
    show budget.toNat ≤ 2 ^ 32 - 4
    omega
  rw [← (Timely.begun m hbudget).until_iff, returns_run_iff_ran, ran_iff_until hbegun htarget]

/-- Machines that are alike reach a deadline alike. -/
theorem Alike.until {m₁ : Machine (Board Memory)} (h : m.Alike m') (huntil : Until (Reached d) m m₁) :
    ∃ m₁', Until (Reached d) m' m₁' ∧ m₁.Alike m₁' := by
  have hreached : ∀ {m m' : Machine (Board Memory)}, m.Alike m' → m.Reached d → m'.Reached d := by
    intro m m' h hr
    unfold Reached at hr ⊢
    rw [show m'.clock.total = m.clock.total from h.outside.total.symm]
    exact hr
  induction huntil generalizing m' with
  | here hr => exact ⟨m', .here (hreached h hr), h⟩
  | next hr hnext _ ih =>
      obtain ⟨bound, hb⟩ := hnext
      obtain ⟨m₂', hb', h'⟩ := h.next hb
      obtain ⟨m₁', huntil', hend⟩ := ih h'
      exact ⟨m₁', .next (fun hr' => hr (hreached h.symm hr')) ⟨bound, hb'⟩ huntil', hend⟩

/-! ### Slices -/

/-- Runs for one budget after the other. -/
def runs [Bus β] (bound : Nat) : List UInt32 → Machine β → Option (Machine β)
  | [], m => some m
  | budget :: budgets, m => (m.run bound budget).bind (runs bound budgets)

theorem runs_mono [Bus β] {m m' : Machine β} {bound bound' : Nat} {budgets : List UInt32}
    (hle : bound ≤ bound') (h : m.runs bound budgets = some m') :
    m.runs bound' budgets = some m' := by
  induction budgets generalizing m with
  | nil => exact h
  | cons budget budgets ih =>
      obtain ⟨m₁, hrun, hrest⟩ := Option.bind_eq_some_iff.mp h
      exact Option.bind_eq_some_iff.mpr ⟨m₁, run_mono hle hrun, ih hrest⟩

theorem returns_runs_cons [Bus β] {m m' : Machine β} {budget : UInt32} {budgets : List UInt32} :
    Returns (m.runs · (budget :: budgets)) m' ↔
      ∃ m₁, Returns (m.run · budget) m₁ ∧ Returns (m₁.runs · budgets) m' := by
  constructor
  · rintro ⟨bound, h⟩
    obtain ⟨m₁, hrun, hrest⟩ := Option.bind_eq_some_iff.mp h
    exact ⟨m₁, ⟨bound, hrun⟩, ⟨bound, hrest⟩⟩
  · rintro ⟨m₁, ⟨bound, hrun⟩, ⟨bound', hrest⟩⟩
    exact ⟨max bound bound', Option.bind_eq_some_iff.mpr
      ⟨m₁, run_mono (Nat.le_max_left _ _) hrun, runs_mono (Nat.le_max_right _ _) hrest⟩⟩

/-- What one slice leads to: a machine that has just reached its deadline, as stepping would. -/
theorem Steady.returns_run {budget : UInt32} (hm : m.Steady) (hbudget : budget.toNat ≤ 2 ^ 31)
    (h : Returns (m.run · budget) m') :
    m'.Steady ∧ (m'.clock.overrun.toNat : Int) = m'.clock.total - m.deadline budget.toNat ∧
      ∃ a, Until (Reached (m.deadline budget.toNat)) m a ∧ m'.Alike a := by
  have huntil := (returns_run_iff_until hm hbudget).mp h
  have hsteady : m'.Steady := huntil.keeps (fun _ _ _ h hnext => h.next hnext) (hm.begun budget)
  have hoverrun := ((Timely.begun m hbudget).of_until huntil).overrun huntil.holds
  exact ⟨hsteady, hoverrun, (Alike.begun m budget).symm.until huntil⟩

/-- **The deadlines of slices add up.**  Runs lead to the first machine past the last deadline. -/
theorem Steady.returns_runs {budgets : List UInt32} (hm : m.Steady)
    (hbudgets : handedOut budgets ≤ 2 ^ 31) (h : Returns (m.runs · budgets) m') :
    (m'.clock.overrun.toNat : Int) = m'.clock.total - m.deadline (handedOut budgets) ∧
      ∃ a, Until (Reached (m.deadline (handedOut budgets))) m a ∧ m'.Alike a := by
  induction budgets generalizing m with
  | nil =>
      obtain ⟨bound, h⟩ := h
      obtain rfl := Option.some.inj h
      have hdeadline : m.deadline (handedOut []) = m.clock.total - m.clock.overrun.toNat := by
        simp [deadline, handedOut]
      rw [hdeadline]
      refine ⟨by omega, m, .here ?_, ⟨rfl, ⟨rfl, rfl⟩, rfl⟩⟩
      unfold Reached
      omega
  | cons budget budgets ih =>
      rw [handedOut_cons] at hbudgets ⊢
      obtain ⟨m₁, hrun, hrest⟩ := returns_runs_cons.mp h
      obtain ⟨hsteady, hoverrun, a, huntil, halike⟩ := hm.returns_run (by omega) hrun
      obtain ⟨hend, b, huntil', halike'⟩ := ih hsteady (by omega) hrest
      -- the second slice begins where the first should have ended, so its deadline is the last
      have hdeadline : m₁.deadline (handedOut budgets) =
          m.deadline (budget.toNat + handedOut budgets) := by
        unfold deadline at hoverrun ⊢
        omega
      rw [hdeadline] at hend huntil'
      obtain ⟨c, huntil'', halike''⟩ := halike.until huntil'
      refine ⟨hend, c, Until.trans ?_ huntil huntil'', halike'.trans halike''⟩
      intro m₂ hr
      unfold Reached deadline at hr ⊢
      omega

/-- When the last deadline can be reached, the runs return. -/
theorem Steady.exists_returns_runs {budgets : List UInt32} {a : Machine (Board Memory)}
    (hm : m.Steady) (hbudgets : handedOut budgets ≤ 2 ^ 31)
    (h : Until (Reached (m.deadline (handedOut budgets))) m a) :
    ∃ m', Returns (m.runs · budgets) m' := by
  induction budgets generalizing m a with
  | nil => exact ⟨m, 0, rfl⟩
  | cons budget budgets ih =>
      rw [handedOut_cons] at hbudgets h
      have hsooner : ∀ m₂, Reached (m.deadline (budget.toNat + handedOut budgets)) m₂ →
          Reached (m.deadline budget.toNat) m₂ := by
        intro m₂ hr
        unfold Reached deadline at hr ⊢
        omega
      obtain ⟨b, hfirst, hsecond⟩ := h.split hsooner
      obtain ⟨m₁, huntil, halike⟩ := (Alike.begun m budget).until hfirst
      have hrun := (returns_run_iff_until hm (by omega)).mpr huntil
      obtain ⟨hsteady, hoverrun, -⟩ := hm.returns_run (by omega) hrun
      have hdeadline : m₁.deadline (handedOut budgets) =
          m.deadline (budget.toNat + handedOut budgets) := by
        unfold deadline at hoverrun ⊢
        omega
      obtain ⟨c, hthird, -⟩ := halike.until hsecond
      rw [← hdeadline] at hthird
      obtain ⟨m', hrest⟩ := ih hsteady (by omega) hthird
      exact ⟨m', returns_runs_cons.mpr ⟨m₁, hrun, hrest⟩⟩

/-- Where one way to cut a stretch of time returns, any other returns an equal machine. -/
theorem Steady.runs_alike {budgets budgets' : List UInt32} (hm : m.Steady)
    (hsum : handedOut budgets = handedOut budgets') (hle : handedOut budgets ≤ 2 ^ 31)
    (h : Returns (m.runs · budgets) m') :
    ∃ m'', Returns (m.runs · budgets') m'' ∧ m'.Alike m'' ∧
      m'.clock.overrun = m''.clock.overrun := by
  obtain ⟨hoverrun, a, huntil, halike⟩ := hm.returns_runs hle h
  rw [hsum] at huntil hoverrun hle
  obtain ⟨m'', h''⟩ := hm.exists_returns_runs hle huntil
  obtain ⟨hoverrun', b, huntil', halike'⟩ := hm.returns_runs hle h''
  obtain rfl := huntil.unique huntil'
  have hall := halike.trans halike'.symm
  refine ⟨m'', h'', hall, UInt32.toNat_inj.mp ?_⟩
  have htotal : m'.clock.total = m''.clock.total := hall.outside.total
  omega

/--
**How the host slices time does not show.**  Cut a stretch of at most 2³¹ T-states into
budgets in two ways.  On the plain board the runs of the one return when those of the other
do, and then with the same processor, memory and port log, at the same lifetime count and
with the same overrun.
-/
theorem runs_slices (m : Machine (Board Memory))
    (hcalm : ¬ (m.cpu.regs.halted = true ∧ m.cpu.shadow = true))
    (hunasked : m.clock.yieldRequested = false) (budgets budgets' : List UInt32)
    (hsum : (budgets.map UInt32.toNat).sum = (budgets'.map UInt32.toNat).sum)
    (hle : (budgets.map UInt32.toNat).sum ≤ 2 ^ 31) :
    ((∃ m', Returns (m.runs · budgets) m') ↔ ∃ m', Returns (m.runs · budgets') m') ∧
      ∀ m₁ m₂, Returns (m.runs · budgets) m₁ → Returns (m.runs · budgets') m₂ →
        m₁.cpu = m₂.cpu ∧ m₁.bus = m₂.bus ∧ m₁.clock.total = m₂.clock.total ∧
          m₁.clock.overrun = m₂.clock.overrun := by
  have hm : m.Steady := ⟨hcalm, Board.quiet _, hunasked⟩
  refine ⟨⟨?_, ?_⟩, ?_⟩
  · rintro ⟨m', h⟩
    obtain ⟨m'', h'', -⟩ := hm.runs_alike hsum hle h
    exact ⟨m'', h''⟩
  · rintro ⟨m', h⟩
    have hle' : handedOut budgets' ≤ 2 ^ 31 := Nat.le_trans (Nat.le_of_eq hsum.symm) hle
    obtain ⟨m'', h'', -⟩ := hm.runs_alike hsum.symm hle' h
    exact ⟨m'', h''⟩
  · intro m₁ m₂ h₁ h₂
    obtain ⟨m₂', h₂', halike, hoverrun⟩ := hm.runs_alike hsum hle h₁
    obtain rfl : m₂' = m₂ := Returns.unique (fun hle h => runs_mono hle h) h₂' h₂
    exact ⟨halike.cpu, halike.outside.bus, halike.outside.total, hoverrun⟩

/-- Ten T-states of NOPs, once in slices of three and seven and once whole: both overrun by two. -/
theorem runs_slices_nops :
    ∃ m m₁ m₂ : Machine (Board Memory), m.cpu = .powerOn .standard ∧ m.bus = Board.blank ∧
      Returns (m.runs · [3, 7]) m₁ ∧ Returns (m.runs · [10]) m₂ ∧ m₁.clock.overrun = 2 ∧
      m₁.cpu = m₂.cpu ∧ m₁.clock.total = m₂.clock.total ∧ m₁.clock.overrun = m₂.clock.overrun := by
  have hslices := runs_slices (powerOn .standard Board.blank)
    (by simp [powerOn, Cpu.powerOn, Cpu.reset]) rfl [3, 7] [10] rfl (by decide)
  obtain ⟨m₁, hrun, hoverrun⟩ : ∃ m₁, (powerOn .standard Board.blank).runs 4 [3, 7] = some m₁ ∧
      m₁.clock.overrun = 2 := ⟨_, rfl, rfl⟩
  obtain ⟨m₂, hwhole⟩ := hslices.1.mp ⟨m₁, 4, hrun⟩
  obtain ⟨hcpu, -, htotal, hoverrun'⟩ := hslices.2 m₁ m₂ ⟨4, hrun⟩ hwhole
  exact ⟨_, m₁, m₂, rfl, rfl, ⟨4, hrun⟩, hwhole, hoverrun, hcpu, htotal, hoverrun'⟩

end Machine

end Z80
