/-
The machine: a processor, its clock and a bus, and the two ways to let it run.

`Machine.step` lets exactly one event happen.  `Machine.run` starts a budget period and
lets events happen until the budget is exhausted, so the last one may overrun it, or until
the bus has asked to yield; a halted processor uses up the rest of the period at once.
A request to yield is looked at after an instruction; one that the bus makes while an
interrupt is accepted is seen after the instruction that follows.

Neither need come to an end, since memory may be all prefixes.  Both take a bound on the
prefixes of an instruction, and `run` also one on the number of events, and have no result
if a bound is reached; with a larger bound a result stays what it is.
-/
import Z80.Cpu.Event

namespace Z80

/-- A processor with a clock and a bus. -/
structure Machine (β : Type) where
  cpu : Cpu
  /-- The bus and the clock. -/
  outside : Timed β
  /-- What there has been to say and nobody has heard yet, oldest first. -/
  notices : Array Notice

namespace Machine

variable {β : Type}

/-- A processor that has just been switched on, on a bus, with a clock at zero. -/
def powerOn (config : Config) (bus : β) : Machine β := ⟨.powerOn config, ⟨.zero, bus⟩, #[]⟩

def clock (m : Machine β) : Clock := m.outside.clock

def bus (m : Machine β) : β := m.outside.bus

/-- Applies a function to the processor. -/
def mapCpu (m : Machine β) (f : Cpu → Cpu) : Machine β := { m with cpu := f m.cpu }

/-- Applies a function to the clock. -/
def mapClock (m : Machine β) (f : Clock → Clock) : Machine β :=
  { m with outside := { m.outside with clock := f m.outside.clock } }

/-- Applies a function to the bus. -/
def mapBus (m : Machine β) (f : β → β) : Machine β :=
  { m with outside := { m.outside with bus := f m.outside.bus } }

/-- Takes a pending request to yield, if there is one. -/
def takeYield (m : Machine β) : Bool × Machine β :=
  let (requested, clock) := m.clock.takeYield
  (requested, m.mapClock fun _ => clock)

/-- Hears the notices, which leaves none. -/
def hear (m : Machine β) : Array Notice × Machine β := (m.notices, { m with notices := #[] })

/-- Lets the event that is due happen. -/
def next [Bus β] (bound : Nat) (m : Machine β) : Option (Machine β) :=
  let (outcome, outside) := (m.cpu.event bound).run m.outside
  outcome.map fun o => ⟨o.cpu, outside, m.notices ++ o.notices.toArray⟩

/-- Lets one event happen, and says how many T-states it took, waits included. -/
def step [Bus β] (bound : Nat) (m : Machine β) : Option (UInt32 × Machine β) := do
  let after ← m.next bound
  return (.ofNat (after.clock.total - m.clock.total), after.takeYield.2)

/-- A halted processor uses up the budget period. -/
def idleOut (m : Machine β) : Machine β :=
  let (nops, clock) := m.clock.consumeHalt
  { m with
    cpu := { m.cpu with regs := m.cpu.regs.refresh nops.toNat, shadow := false }
    outside := { m.outside with clock } }

/-- Lets events happen until the budget period is over, but fewer than `events`. -/
def runOut [Bus β] (bound : Nat) : (events : Nat) → Machine β → Option (Machine β)
  | 0, _ => none
  | events + 1, m =>
      if m.clock.exhausted then some m
      else
        match m.cpu.due with
        | .halted => some m.idleOut
        | .instruction => do
            let (yields, m) := (← m.next bound).takeYield
            if yields then some m else m.runOut bound events
        | .nmi | .interrupt _ => do
            (← m.next bound).runOut bound events

/-- Runs for a budget of T-states. -/
def run [Bus β] (bound : Nat) (budget : UInt32) (m : Machine β) : Option (Machine β) :=
  (m.mapClock (·.setBudget budget)).runOut bound bound

end Machine

end Z80
