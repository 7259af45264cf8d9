/-
The T-state clock.

One clock counts for the whole machine.  `total` is the lifetime count and never goes
back.  `current` counts within the present budget period and `target` is where that
period ends; whatever a period overran its target by is carried into the next, so a
long instruction that straddles the boundary is paid for exactly once.

Both counters advance together through `Clock.advance`.  `current` is a 32-bit counter
and wraps; `total` is unbounded here.  A yield request is a latch that the host's run
loop reads at the end of an instruction.
-/

namespace Z80

/-- The running T-state counters of one machine. -/
structure Clock where
  /-- Lifetime T-states. -/
  total : Nat
  /-- T-states of the present budget period, modulo 2³². -/
  current : UInt32
  /-- Where the present budget period ends. -/
  target : UInt32
  /-- Somebody has asked the run loop to return. -/
  yieldRequested : Bool
deriving DecidableEq, Repr, Inhabited

namespace Clock

/-- A clock that has counted nothing. -/
def zero : Clock := ⟨0, 0, 0, false⟩

/-- Counts `n` T-states on both counters. -/
def advance (c : Clock) (n : Nat) : Clock :=
  { c with total := c.total + n, current := c.current + UInt32.ofNat n }

@[simp] theorem advance_zero (c : Clock) : c.advance 0 = c := by
  simp [advance]

/-- Counting in two goes is counting once. -/
theorem advance_advance (c : Clock) (m n : Nat) :
    (c.advance m).advance n = c.advance (m + n) := by
  simp only [advance, UInt32.ofNat_add, Nat.add_assoc, UInt32.add_assoc]

/-- By how much the present period has run past its target. -/
def overrun (c : Clock) : UInt32 := if c.target ≤ c.current then c.current - c.target else 0

/-- Starts a new budget period of `budget` T-states that begins with the overrun of the last. -/
def setBudget (c : Clock) (budget : UInt32) : Clock :=
  { c with current := c.overrun, target := budget }

/-- Has `current` reached `target`? -/
def exhausted (c : Clock) : Bool := c.target ≤ c.current

/-- T-states left in the present period. -/
def remaining (c : Clock) : UInt32 := if c.current ≤ c.target then c.target - c.current else 0

/-- How many NOPs of four T-states it takes to use up the present period. -/
def haltNops (c : Clock) : UInt32 :=
  c.remaining / 4 + if c.remaining % 4 = 0 then 0 else 1

/--
Uses up the present period in NOPs of four T-states, rounding up; also says how many.  The T-states of
the NOPs are multiplied out in `Nat`, without a bound.  A clock that multiplies in 32 bits agrees as long
as no more than 2³² - 4 T-states remain; with more, its product does not fit, and what it makes of that
is not modelled.
-/
def consumeHalt (c : Clock) : UInt32 × Clock := (c.haltNops, c.advance (c.haltNops.toNat * 4))

/-- Asks the run loop to return at the end of the current instruction. -/
def requestYield (c : Clock) : Clock := { c with yieldRequested := true }

/-- Takes a pending yield request, if there is one. -/
def takeYield (c : Clock) : Bool × Clock := (c.yieldRequested, { c with yieldRequested := false })

end Clock

end Z80
