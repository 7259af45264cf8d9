/-
Memory as seen from outside the processor.

A `View` is anything whose bytes can be looked at without disturbing it; the
disassembler needs no more.  Addresses are words, so a view is total and its address
space is a circle.  A `Storage` is a view that can also be written and that knows how
long an access keeps the processor waiting.

The plainest storage is `Memory`, 64K of RAM without wait states.
-/
import Z80.Clock
import Z80.Store
import Z80.Word

namespace Z80

/-- Memory that can be looked at without side effects. -/
class View (μ : Type) where
  /-- The byte at an address. -/
  peek : μ → UInt16 → UInt8

export View (peek)

/-- The word at an address and the address after it, low byte first. -/
def peekWord {μ : Type} [View μ] (m : μ) (address : UInt16) : UInt16 :=
  Word.ofBytes (peek m (address + 1)) (peek m address)

/-- The `count` bytes from an address on. -/
def peekBytes {μ : Type} [View μ] (m : μ) (address : UInt16) : (count : Nat) → List UInt8
  | 0 => []
  | count + 1 => peek m address :: peekBytes m (address + 1) count

/-- Memory that the processor can read and write. -/
class Storage (μ : Type) extends View μ where
  /-- The memory after a byte has been written; writes may be without effect. -/
  store : μ → UInt16 → UInt8 → μ
  /-- Wait states of an access to an address that starts at the given clock. -/
  wait : μ → Clock → UInt16 → Nat

/-- 64K of RAM. -/
abbrev Memory := Store 16

namespace Memory

/-- RAM that holds zero everywhere. -/
def blank : Memory := Store.uniform 16 0

instance : Storage Memory where
  peek m address := m.get address.toNat
  store m address value := m.set address.toNat value
  wait _ _ _ := 0

end Memory

/-- Memory of one of two kinds. -/
instance {μ ν : Type} [Storage μ] [Storage ν] : Storage (μ ⊕ ν) where
  peek
    | .inl m, address => peek m address
    | .inr m, address => peek m address
  store
    | .inl m, address, value => .inl (Storage.store m address value)
    | .inr m, address, value => .inr (Storage.store m address value)
  wait
    | .inl m, clock, address => Storage.wait m clock address
    | .inr m, clock, address => Storage.wait m clock address

/-- A run of bytes is a view in which they repeat for ever; without bytes all addresses read FF. -/
instance : View (Array UInt8) where
  peek bytes address := bytes.getD (address.toNat % bytes.size) 0xFF

end Z80
