/-
What a host asks of a machine.

A `Call` is one thing that a host can do between two boundaries: it moves an interrupt
line, resets the processor, loads a snapshot, writes registers, or lets the machine go on
for a step or a budget.  `Machine.call` carries one out and `Machine.calls` several, and a
history is no more than the list of calls since the machine was switched on.

Two of the calls take time.  `opened` is the machine at the moment the time starts to pass,
which for a run is after its budget period has begun, and from there on everything lies
`Along` the way: the clock only advances, and the bus is asked things at readings between.
-/
import Z80.Snapshot
import Z80.Proofs.Log

namespace Z80

/-- What a host can do to a machine. -/
inductive Call where
  | requestInterrupt (data : UInt8)
  | clearInterrupt
  | requestNMI
  | reset
  | restore (s : Snapshot)
  /-- The registers are overwritten, but the processor stays halted or awake. -/
  | write (r : Registers)
  | step
  | run (budget : UInt32)
deriving DecidableEq, Repr

namespace Call

/-- The budget that a call hands out, if it begins a new period. -/
def budget? : Call → Option UInt32
  | run budget => some budget
  | _ => none

theorem eq_run_of_budget {c : Call} {budget : UInt32} (hc : c.budget? = some budget) :
    c = .run budget := by
  cases c with
  | run budget' => rw [Option.some.inj hc]
  | _ => exact absurd hc (by simp [budget?])

end Call

/-- The budgets that calls hand out, one for each period they begin. -/
def budgets (calls : List Call) : List UInt32 := calls.filterMap Call.budget?

theorem budgets_run (calls : List Call) (budget : UInt32) :
    budgets (calls ++ [.run budget]) = budgets calls ++ [budget] := by
  simp [budgets, Call.budget?]

theorem budgets_of_none {c : Call} (hc : c.budget? = none) (calls : List Call) :
    budgets (calls ++ [c]) = budgets calls := by
  simp [budgets, hc]

namespace Machine

variable {β : Type}

/-- The machine when a call starts to take time. -/
def opened (c : Call) (m : Machine β) : Machine β :=
  match c with
  | .run budget => m.begun budget
  | _ => m

theorem opened_of_none {c : Call} (hc : c.budget? = none) (m : Machine β) : m.opened c = m := by
  cases c with
  | run budget => exact absurd hc (by simp [Call.budget?])
  | _ => rfl

theorem total_opened (c : Call) (m : Machine β) : (m.opened c).clock.total = m.clock.total := by
  cases c <;> rfl

variable [Bus β]

/-- Carries out a call. -/
def call (bound : Nat) (c : Call) (m : Machine β) : Option (Machine β) :=
  match c with
  | .requestInterrupt data => some (m.mapCpu (·.requestInterrupt data))
  | .clearInterrupt => some (m.mapCpu (·.clearInterrupt))
  | .requestNMI => some (m.mapCpu (·.requestNMI))
  | .reset => some (m.mapCpu (·.reset))
  | .restore s => some (m.restore s)
  | .write r =>
      some (m.mapCpu fun cpu => { cpu with regs := { r with halted := cpu.regs.halted } })
  | .step => (m.step bound).map (·.2)
  | .run budget => m.run bound budget

/-- Carries out one call after the other. -/
def calls (bound : Nat) : List Call → Machine β → Option (Machine β)
  | [], m => some m
  | c :: cs, m => (m.call bound c).bind (calls bound cs)

/-- A step lets the next event happen and takes a request to yield. -/
theorem call_step (bound : Nat) (m : Machine β) :
    m.call bound .step = (m.next bound).map fun after => after.takeYield.2 := by
  show (m.step bound).map _ = _
  simp only [step]
  cases m.next bound <;> rfl

theorem exists_next_of_call_step {m m' : Machine β} {bound : Nat} (h : m.call bound .step = some m') :
    ∃ m₁, m.next bound = some m₁ ∧ m' = m₁.takeYield.2 := by
  rw [call_step] at h
  obtain ⟨m₁, hnext, rfl⟩ := Option.map_eq_some_iff.mp h
  exact ⟨m₁, hnext, rfl⟩

/-- A log changes nothing about a call. -/
theorem call_unlogged (bound : Nat) (c : Call) (m : Machine (Logged β)) :
    (m.call bound c).map unlogged = m.unlogged.call bound c := by
  cases c with
  | step =>
      show ((m.step bound).map (·.2)).map unlogged = (m.unlogged.step bound).map (·.2)
      rw [← step_unlogged, Option.map_map, Option.map_map]
      rfl
  | run budget => exact run_unlogged bound budget m
  | _ => rfl

/-- From the moment that a call starts to take time everything lies along the way. -/
theorem call_along {c : Call} {m m' : Machine (Logged β)} {bound : Nat}
    (h : m.call bound c = some m') : Along (m.opened c).outside m'.outside := by
  cases c with
  | step =>
      obtain ⟨m₁, hnext, rfl⟩ := exists_next_of_call_step h
      exact takeYield_along (next_along hnext)
  | run budget => exact ran_along (ran_of_runOut h)
  | _ =>
      obtain rfl := Option.some.inj h
      exact .refl _

end Machine

end Z80
