/-
What the processor is wired to.

Every byte the processor fetches, reads, writes or moves through a port is one
`Access`, and a `Bus` is whatever answers accesses.  A bus is a value: it replies with
the byte it drives, the bus it has become, the wait states it put in and whether it
wants the run loop to come back to the host.

The bus sees the clock as it stands before the machine cycle is charged, so wait states
can depend on the exact moment at which the access starts.  What a bus cannot do is turn
the clock back or change the budget: its only influence on time is `Reply.wait` and
`Reply.yields`.
-/
import Z80.Clock

namespace Z80

/-- One use of the address and data lines. -/
inductive Access where
  /-- A byte is read from memory, as an opcode or as data. -/
  | read (address : UInt16)
  /-- A byte is written to memory. -/
  | write (address : UInt16) (value : UInt8)
  /-- A byte is read from a port. -/
  | input (port : UInt16)
  /-- A byte is written to a port. -/
  | output (port : UInt16) (value : UInt8)
deriving DecidableEq, Repr

/-- What a bus of type `β` answers to an access. -/
structure Reply (β : Type) where
  /-- The byte on the data lines; nobody looks at it after a write. -/
  data : UInt8
  /-- T-states the bus inserts before the access completes. -/
  wait : Nat
  /-- The bus asks the run loop to return. -/
  yields : Bool
  /-- The bus afterwards. -/
  bus : β

/-- Things that answer accesses. -/
class Bus (β : Type) where
  /-- The answer to an access that starts at the given clock. -/
  respond : β → Clock → Access → Reply β

/-- A bus together with the clock that times it. -/
structure Timed (β : Type) where
  clock : Clock
  bus : β

namespace Timed

variable {β : Type}

/-- Lets `n` T-states pass. -/
def advance (t : Timed β) (n : Nat) : Timed β := { t with clock := t.clock.advance n }

/-- Makes an access: the bus answers, its wait states pass, its request to yield is noted. -/
def access [Bus β] (t : Timed β) (a : Access) : UInt8 × Timed β :=
  let reply := Bus.respond t.bus t.clock a
  let clock := t.clock.advance reply.wait
  (reply.data, ⟨if reply.yields then clock.requestYield else clock, reply.bus⟩)

end Timed

end Z80
