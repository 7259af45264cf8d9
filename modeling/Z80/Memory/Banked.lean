/-
Memory in banks.

The address space is cut into four windows of 16K.  Each window shows one bank out of a
pool; two windows may show the same bank, and then a byte written through one of them is
seen through the other.  The first banks of the pool are ROM and keep their bytes
whatever is written.

A window can be contended.  An access to it waits for as long as the contention table
says for the T-state of the budget period at which the access starts; past the end of
the table nothing waits.  Contention does not depend on the bank, and a write that ROM
drops waits like any other.

That every window shows a bank that exists is part of the type: a window is a `Fin count`.
-/
import Z80.Memory

namespace Z80

/-- Wait states for each T-state of a budget period. -/
structure ContentionTable where
  delays : Array UInt8
deriving Repr

namespace ContentionTable

/-- The table without entries, in which nothing waits. -/
def empty : ContentionTable := ⟨#[]⟩

/-- The table of `length` entries given by a function of the T-state. -/
def ofFn (length : Nat) (delay : Nat → UInt8) : ContentionTable :=
  ⟨Array.ofFn fun t : Fin length => delay t⟩

/-- Wait states of an access that starts at T-state `t`. -/
def delayAt (table : ContentionTable) (t : UInt32) : UInt8 := table.delays.getD t.toNat 0

end ContentionTable

/-- The bytes of one bank. -/
abbrev Bank := Store 14

/-- How many bytes a bank holds. -/
def Bank.bytes : Nat := 0x4000

/-- A pool of banks and the four windows onto it. -/
structure BankedMemory where
  /-- How many banks the pool has. -/
  count : Nat
  /-- How many of them, from the first on, are ROM. -/
  romCount : Nat
  banks : Vector Bank count
  /-- The bank shown in each window. -/
  windows : Vector (Fin count) 4
  /-- Which windows are contended. -/
  contended : Vector Bool 4
  contention : ContentionTable

/-- Why no banked memory could be built. -/
inductive BankedMemory.Error where
  /-- There is no bank that a window could show. -/
  | noBanks
deriving DecidableEq, Repr

/-- The wording of the error. -/
def BankedMemory.Error.message : BankedMemory.Error → String
  | .noBanks => "banked memory needs at least one bank"

namespace BankedMemory

/-- Which window an address lies in. -/
def windowOf (address : UInt16) : Fin 4 :=
  ⟨address.toNat / 0x4000, by have := address.toNat_lt; omega⟩

/-- Memory of blank banks, ROM first; the windows show the first banks, or the last one. -/
def create (romCount ramCount : Nat) : Except Error BankedMemory :=
  if h : 0 < romCount + ramCount then
    .ok
      { count := romCount + ramCount
        romCount
        banks := Vector.replicate _ (Store.uniform 14 0)
        windows := Vector.ofFn fun w => ⟨min w (romCount + ramCount - 1), by omega⟩
        contended := Vector.replicate 4 false
        contention := .empty }
  else .error .noBanks

/-- The bank that a window shows. -/
def mapped (m : BankedMemory) (window : Fin 4) : Fin m.count := m.windows[window]

/-- Is a bank ROM? -/
def isROM (m : BankedMemory) (bank : Nat) : Bool := bank < m.romCount

/-- Shows a bank in a window.  Without effect if there is no such window or no such bank. -/
def map (m : BankedMemory) (window bank : Nat) : BankedMemory :=
  if hw : window < 4 then
    if hb : bank < m.count then { m with windows := m.windows.set window ⟨bank, hb⟩ } else m
  else m

/-- The bytes of a bank, if there is one of that number. -/
def bank? (m : BankedMemory) (bank : Nat) : Option Bank := m.banks[bank]?

/-- Copies bytes to the start of a bank, ROM or not; what does not fit is left out. -/
def loadBank (m : BankedMemory) (bank : Nat) (bytes : List UInt8) : BankedMemory :=
  if h : bank < m.count then
    { m with banks := m.banks.set bank (m.banks[bank].load 0 (bytes.take Bank.bytes)) }
  else m

/-- Says whether a window is contended.  Without effect if there is no such window. -/
def setContended (m : BankedMemory) (window : Nat) (contended : Bool) : BankedMemory :=
  if h : window < 4 then { m with contended := m.contended.set window contended } else m

/-- Installs the table for the contended windows. -/
def setContention (m : BankedMemory) (table : ContentionTable) : BankedMemory :=
  { m with contention := table }

/-- Wait states of an access to an address. -/
def waitAt (m : BankedMemory) (clock : Clock) (address : UInt16) : Nat :=
  if m.contended[windowOf address] then (m.contention.delayAt clock.current).toNat else 0

instance : Storage BankedMemory where
  peek m address := m.banks[m.mapped (windowOf address)].get address.toNat
  store m address value :=
    let bank := m.mapped (windowOf address)
    if m.isROM bank then m
    else { m with banks := m.banks.set bank (m.banks[bank].set address.toNat value) }
  wait := waitAt

end BankedMemory

end Z80
