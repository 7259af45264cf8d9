/-
Probes: buses made out of buses.

A probe sits between the processor and a bus and leaves what the bus does with memory
and ports alone.  `Traced` writes down every access with the clock reading at which it
started, `Trapping` asks the run loop to return after an access to one of the places it
watches, and `Slowed` makes every port access start later.

Probes stack: a trace outside a slowed bus shows the clock before the extra wait, and a
contended memory inside it sees the clock after.
-/
import Z80.Bus
import Z80.Memory

namespace Z80

variable {β : Type}

/-- What a trace records of one access. -/
structure TraceEntry where
  access : Access
  /-- The byte that went over the data lines, in whichever direction. -/
  data : UInt8
  /-- The clock's `current` when the access started, before any wait state. -/
  start : UInt32
deriving DecidableEq, Repr

/-- A bus whose accesses are written down while recording is on. -/
structure Traced (β : Type) where
  bus : β
  recording : Bool
  /-- The recorded accesses, oldest first. -/
  entries : Array TraceEntry

/-- The byte that an access puts on the data lines, given what the bus drove. -/
def Access.byte (reply : UInt8) : Access → UInt8
  | .read _ | .input _ => reply
  | .write _ value | .output _ value => value

instance [Bus β] : Bus (Traced β) where
  respond t clock access :=
    let reply := Bus.respond t.bus clock access
    let entry : TraceEntry := ⟨access, access.byte reply.data, clock.current⟩
    let entries := if t.recording then t.entries.push entry else t.entries
    { data := reply.data, wait := reply.wait, yields := reply.yields
      bus := { t with bus := reply.bus, entries } }

/-- A bus that asks the run loop to return after accesses to watched places. -/
structure Trapping (β : Type) where
  bus : β
  /-- Low bytes of the port numbers to watch. -/
  ports : List UInt8
  /-- Memory addresses to watch. -/
  addresses : List UInt16

/-- Is an access one of those that a trapping bus watches? -/
def Trapping.watches (t : Trapping β) : Access → Bool
  | .read address | .write address _ => t.addresses.contains address
  | .input port | .output port _ => t.ports.contains (Word.low port)

instance [Bus β] : Bus (Trapping β) where
  respond t clock access :=
    let reply := Bus.respond t.bus clock access
    { data := reply.data, wait := reply.wait, yields := reply.yields || t.watches access
      bus := { t with bus := reply.bus } }

/-- A bus whose port accesses start `delay` T-states late. -/
structure Slowed (β : Type) where
  bus : β
  delay : Nat

/-- How much later an access starts on a slowed bus. -/
def Slowed.delayOf (s : Slowed β) : Access → Nat
  | .read _ | .write _ _ => 0
  | .input _ | .output _ _ => s.delay

instance [Bus β] : Bus (Slowed β) where
  respond s clock access :=
    let delay := s.delayOf access
    let reply := Bus.respond s.bus (clock.advance delay) access
    { data := reply.data, wait := delay + reply.wait, yields := reply.yields
      bus := { s with bus := reply.bus } }

end Z80
