/-
No T-state is lost or paid twice.

Each run begins a budget period with the overrun of the last, and steps go on in whatever
period they find.  The books then always balance: the lifetime count is what earlier
periods were given, plus the count of the present one.  `Balanced` is that equation, and
the argument is that it survives both things that can happen to a clock.  Time adds the
same to either side, and a new period moves its predecessor's target from the one term to
the other.

Since it survives every bit of time, it holds at every access and not only between calls.
What it needs is that the 32-bit count of a period never wraps (`Fits`), and that a period
is used up before the next begins, which is what `Driven` asks of each run.
-/
import Z80.Proofs.Calls

namespace Z80

open Clock (handedOut handedOut_snoc)

/-! ### Periods -/

/-- The budgets of the periods before the present one. -/
def earlier (calls : List Call) : List UInt32 := (budgets calls).dropLast

theorem earlier_run (calls : List Call) (budget : UInt32) :
    earlier (calls ++ [.run budget]) = budgets calls := by
  rw [earlier, budgets_run, List.dropLast_concat]

theorem earlier_of_none {c : Call} (hc : c.budget? = none) (calls : List Call) :
    earlier (calls ++ [c]) = earlier calls := by
  rw [earlier, budgets_of_none hc, earlier]

/-- The lifetime count is what earlier periods were given and what the present one has counted. -/
structure Clock.Balanced (calls : List Call) (c : Clock) : Prop where
  total : c.total = handedOut (earlier calls) + c.current.toNat
  target : handedOut (budgets calls) = handedOut (earlier calls) + c.target.toNat

namespace Clock.Balanced

variable {calls : List Call} {c c' : Clock}

theorem zero : Clock.zero.Balanced [] := ⟨rfl, rfl⟩

/-- Time that the counter of the period has room for keeps the balance. -/
theorem elapsed {n : Nat} (h : c.Balanced calls) (helapsed : Elapsed n c c')
    (hroom : c.current.toNat + n < 2 ^ 32) : c'.Balanced calls := by
  refine ⟨?_, ?_⟩
  · rw [helapsed.total, helapsed.toNat_current hroom, h.total, Nat.add_assoc]
  · rw [helapsed.target, h.target]

/-- A new period takes the overrun of a used-up one with it. -/
theorem setBudget (h : c.Balanced calls) (hex : c.exhausted = true) (budget : UInt32) :
    (c.setBudget budget).Balanced (calls ++ [.run budget]) := by
  have htotal := h.total
  have htarget := h.target
  rw [exhausted_iff] at hex
  refine ⟨?_, ?_⟩
  · show c.total = _ + c.overrun.toNat
    rw [earlier_run, toNat_overrun]
    omega
  · rw [budgets_run, earlier_run, handedOut_snoc]
    rfl

/-- Where the period is used up, what has been handed out and the overrun are all there is. -/
theorem total_eq (h : c.Balanced calls) (hex : c.exhausted = true) :
    c.total = handedOut (budgets calls) + (c.current.toNat - c.target.toNat) := by
  have htotal := h.total
  have htarget := h.target
  rw [exhausted_iff] at hex
  omega

end Clock.Balanced

namespace Machine

variable {β : Type}

/-! ### Histories -/

/-- The counter of the period has room for the time that a call takes. -/
def Fits (c : Call) (m m' : Machine β) : Prop :=
  (m.opened c).clock.current.toNat + (m'.clock.total - m.clock.total) < 2 ^ 32

instance (c : Call) (m m' : Machine β) : Decidable (Fits c m m') := Nat.decLt _ _

/-- The balance is kept up to the moment when a call starts to take time. -/
theorem opened_balanced {m : Machine β} {calls : List Call} (h : m.clock.Balanced calls)
    (hex : m.clock.exhausted = true) (c : Call) :
    (m.opened c).clock.Balanced (calls ++ [c]) := by
  cases hc : c.budget? with
  | none =>
      rw [opened_of_none hc]
      refine ⟨?_, ?_⟩
      · rw [earlier_of_none hc, h.total]
      · rw [earlier_of_none hc, budgets_of_none hc, h.target]
  | some budget =>
      obtain rfl := Call.eq_run_of_budget hc
      exact h.setBudget hex budget

variable [Bus β]

/-- A machine has been switched on and called, every run has used up its budget and no count wrapped. -/
inductive Driven (config : Config) (bus : β) : List Call → Machine β → Prop
  | powerOn : Driven config bus [] (.powerOn config bus)
  | call {calls : List Call} {c : Call} {m m' : Machine β} (h : Driven config bus calls m)
      (hcall : Returns (m.call · c) m') (hfits : m.Fits c m')
      (hexhausted : ∀ budget, c = .run budget → m'.clock.exhausted = true) :
      Driven config bus (calls ++ [c]) m'

variable {config : Config} {bus : β} {calls : List Call} {c : Call} {m m' : Machine β}

/-- A call is the same call on a bus that writes everything down, with each reading on the way. -/
theorem exists_logged (h : Returns (m.call · c) m') :
    ∃ r n, Returns (m.logged.call · c) r ∧ r.unlogged = m' ∧
      Clock.Elapsed n (m.opened c).clock m'.clock ∧
      ∀ a ∈ r.bus.log, ∃ k, k ≤ n ∧ Clock.Elapsed k (m.opened c).clock a.clock := by
  obtain ⟨bound, h⟩ := h
  obtain ⟨r, hr, rfl⟩ := Option.map_eq_some_iff.mp ((call_unlogged bound c m.logged).trans h)
  obtain ⟨n, asked, helapsed, hlog, hon⟩ := call_along hr
  have hopened : (m.logged.opened c).clock = (m.opened c).clock := by cases c <;> rfl
  have hempty : (m.logged.opened c).bus.log = [] := by cases c <;> rfl
  refine ⟨r, n, ⟨bound, hr⟩, rfl, hopened ▸ helapsed, fun a ha => ?_⟩
  rw [show r.bus.log = asked from by rw [← List.nil_append asked, ← hempty]; exact hlog] at ha
  exact hopened ▸ hon a ha

/-- A call that fits leaves the books balanced, and they balance at every access it makes. -/
theorem call_balanced (hm : m.clock.Balanced calls) (hex : m.clock.exhausted = true)
    (h : Returns (m.call · c) m') (hfits : m.Fits c m') :
    m'.clock.Balanced (calls ++ [c]) ∧ ∃ r, Returns (m.logged.call · c) r ∧ r.unlogged = m' ∧
      ∀ a ∈ r.bus.log, a.clock.Balanced (calls ++ [c]) := by
  have hopened := opened_balanced hm hex c
  obtain ⟨r, n, hr, hbare, helapsed, hon⟩ := exists_logged h
  have hroom : (m.opened c).clock.current.toNat + n < 2 ^ 32 := by
    unfold Fits at hfits
    rw [helapsed.total, total_opened] at hfits
    omega
  refine ⟨hopened.elapsed helapsed hroom, r, hr, hbare, fun a ha => ?_⟩
  obtain ⟨k, hk, hka⟩ := hon a ha
  exact hopened.elapsed hka (by omega)

/-- Between two calls of a history its period is used up and the books balance. -/
theorem Driven.balanced (h : Driven config bus calls m) :
    m.clock.exhausted = true ∧ m.clock.Balanced calls := by
  induction h with
  | powerOn => exact ⟨rfl, .zero⟩
  | @call calls c m m' _ hcall hfits hexhausted ih =>
      obtain ⟨hex, hm⟩ := ih
      have hm' := (call_balanced hm hex hcall hfits).1
      refine ⟨?_, hm'⟩
      cases hc : c.budget? with
      | some budget => exact hexhausted budget (Call.eq_run_of_budget hc)
      | none =>
          -- a call without a budget lets time pass in a period that was used up before
          obtain ⟨r, n, -, -, helapsed, -⟩ := exists_logged hcall
          rw [opened_of_none hc] at helapsed
          unfold Fits at hfits
          rw [opened_of_none hc, helapsed.total] at hfits
          rw [Clock.exhausted_iff] at hex ⊢
          rw [helapsed.target, helapsed.toNat_current (by omega)]
          omega

/--
**T-states are conserved.**  After every history in which the runs use up their budgets and
no period's count wraps, the lifetime count is the sum of the budgets and the present
overrun.  Whatever call comes next, the clock that the bus is handed at any of its accesses
is ahead of the present period's count by exactly what the earlier periods were given.
-/
theorem Driven.conserved (h : Driven config bus calls m) :
    m.clock.target ≤ m.clock.current ∧
      m.clock.total =
        handedOut (budgets calls) + (m.clock.current.toNat - m.clock.target.toNat) ∧
      ∀ c m', Returns (m.call · c) m' → m.Fits c m' →
        ∃ r, Returns (m.logged.call · c) r ∧ r.unlogged = m' ∧
          ∀ a ∈ r.bus.log,
            a.clock.total = handedOut (budgets (calls ++ [c])).dropLast + a.clock.current.toNat := by
  obtain ⟨hex, hm⟩ := h.balanced
  refine ⟨UInt32.le_iff_toNat_le.mpr (m.clock.exhausted_iff.mp hex), hm.total_eq hex, ?_⟩
  intro c m' hcall hfits
  obtain ⟨-, r, hr, hbare, hlog⟩ := call_balanced hm hex hcall hfits
  exact ⟨r, hr, hbare, fun a ha => (hlog a ha).total⟩

/-- Twelve T-states of NOPs pay for budgets of ten and one; the overrun goes into a period of eight. -/
theorem driven_nops :
    ∃ (m : Machine (Board Memory)) (r : Machine (Logged (Board Memory))),
      Driven .standard Board.blank [.requestInterrupt 0xFF, .step, .run 10, .run 1] m ∧
        m.clock.total = handedOut [10, 1] + (m.clock.current.toNat - m.clock.target.toNat) ∧
        m.clock.total = 12 ∧ Returns (m.logged.call · (.run 8)) r ∧ r.bus.log.length = 2 ∧
        ∀ a ∈ r.bus.log, a.clock.total = handedOut [10, 1] + a.clock.current.toNat := by
  have h₁ : Driven .standard Board.blank ([] ++ [.requestInterrupt 0xFF]) _ :=
    .call .powerOn ⟨1, rfl⟩ (by decide) (by simp)
  have h₂ := Driven.call (c := .step) h₁ ⟨1, rfl⟩ (by decide) (by simp)
  have h₃ := Driven.call (c := .run 10) h₂ ⟨4, rfl⟩ (by decide) (by intro _ _; rfl)
  have h₄ := Driven.call (c := .run 1) h₃ ⟨1, rfl⟩ (by decide) (by intro _ _; rfl)
  obtain ⟨-, htotal, hnext⟩ := h₄.conserved
  obtain ⟨r, hr, -, hlog⟩ := hnext (.run 8) _ ⟨4, rfl⟩ (by decide)
  have hlength : r.bus.log.length = 2 := by
    rw [Returns.unique (fun hle h => run_mono hle h) hr ⟨4, rfl⟩]
    rfl
  exact ⟨_, r, h₄, htotal, rfl, hr, hlength, hlog⟩

end Machine

end Z80
