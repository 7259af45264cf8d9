/-
A memory and a port space side by side.

Ports are numbered by the full sixteen address bits.  A port that nothing drives reads
FF.  What is written to ports is kept in the order in which it was written until somebody
collects it; it never shows up as input.

`Board μ` puts such a port space beside a memory of type `μ`, and is the bus that a
machine without further hardware has.  Only its memory makes the processor wait.
-/
import Z80.Bus
import Z80.Memory

namespace Z80

/-- The port space. -/
structure Ports where
  /-- The byte that each port drives when it is read. -/
  inputs : Store 16
  /-- What has been written and not yet collected, oldest first. -/
  writes : Array (UInt16 × UInt8)

namespace Ports

/-- Ports that nothing drives and nobody has written. -/
def unconnected : Ports := ⟨Store.uniform 16 0xFF, #[]⟩

/-- Makes a port drive a byte. -/
def connect (p : Ports) (port : UInt16) (value : UInt8) : Ports :=
  { p with inputs := p.inputs.set port.toNat value }

/-- The byte that a port drives. -/
def input (p : Ports) (port : UInt16) : UInt8 := p.inputs.get port.toNat

/-- Writes a byte to a port. -/
def output (p : Ports) (port : UInt16) (value : UInt8) : Ports :=
  { p with writes := p.writes.push (port, value) }

/-- Collects the writes, which leaves none. -/
def collect (p : Ports) : Array (UInt16 × UInt8) × Ports := (p.writes, { p with writes := #[] })

end Ports

/-- A memory with a port space beside it. -/
structure Board (μ : Type) where
  memory : μ
  ports : Ports

namespace Board

variable {μ : Type}

/-- A memory beside ports that nothing drives. -/
def ofMemory (memory : μ) : Board μ := ⟨memory, .unconnected⟩

/-- 64K of blank RAM beside ports that nothing drives. -/
def blank : Board Memory := ofMemory Memory.blank

instance [View μ] : View (Board μ) where
  peek b address := peek b.memory address

instance [Storage μ] : Bus (Board μ) where
  respond b clock access :=
    match access with
    | .read address =>
        { data := peek b.memory address
          wait := Storage.wait b.memory clock address
          yields := false
          bus := b }
    | .write address value =>
        { data := 0
          wait := Storage.wait b.memory clock address
          yields := false
          bus := { b with memory := Storage.store b.memory address value } }
    | .input port => { data := b.ports.input port, wait := 0, yields := false, bus := b }
    | .output port value =>
        { data := 0, wait := 0, yields := false, bus := { b with ports := b.ports.output port value } }

/-- Puts bytes into RAM at an address and the addresses after it, without using the bus. -/
def load (b : Board Memory) (address : UInt16) (bytes : List UInt8) : Board Memory :=
  { b with memory := b.memory.load address.toNat bytes }

/-- Puts a byte into RAM without using the bus. -/
def poke (b : Board Memory) (address : UInt16) (value : UInt8) : Board Memory :=
  { b with memory := b.memory.set address.toNat value }

end Board

end Z80
