/-
Machine cycles and scripts of them.

An instruction is a sequence of machine cycles in which later cycles depend on the bytes
that earlier ones brought in.  A `Script` is such a sequence as data: a cycle together
with a continuation that takes the byte the cycle delivers, or a result.  Scripts know
nothing of buses and clocks; `Script.run` performs one on a bus, and what a script does
to registers is in its result.

Splitting execution this way keeps two questions apart.  What an instruction computes is
a matter of its script and of the bytes that come back.  How long it takes is a matter of
the lengths of its cycles and of the waits the bus puts in, and no script can look at
either.
-/
import Z80.Bus
import Z80.Word

namespace Z80

/-- One machine cycle. -/
inductive Cycle where
  /-- An opcode is fetched. -/
  | fetch (address : UInt16)
  /-- A byte is read from memory. -/
  | read (address : UInt16)
  /-- A byte is written to memory. -/
  | write (address : UInt16) (value : UInt8)
  /-- A byte is read from a port. -/
  | input (port : UInt16)
  /-- A byte is written to a port. -/
  | output (port : UInt16) (value : UInt8)
  /-- The processor works without the bus. -/
  | internal (length : Nat)
deriving DecidableEq, Repr

namespace Cycle

/-- T-states of a cycle, without waits. -/
def length : Cycle → Nat
  | fetch _ => 4
  | read _ => 3
  | write _ _ => 3
  | input _ => 4
  | output _ _ => 4
  | internal n => n

/-- What a cycle asks of the bus. -/
def access? : Cycle → Option Access
  | fetch address => some (.read address)
  | read address => some (.read address)
  | write address value => some (.write address value)
  | input port => some (.input port)
  | output port value => some (.output port value)
  | internal _ => none

/-- Performs a cycle: the bus is asked first, then the length of the cycle passes. -/
def perform {β : Type} [Bus β] (c : Cycle) (t : Timed β) : UInt8 × Timed β :=
  match c.access? with
  | some a =>
      let (data, t) := t.access a
      (data, t.advance c.length)
  | none => (0, t.advance c.length)

end Cycle

/-- A sequence of machine cycles that ends in a result. -/
inductive Script (α : Type) where
  | done (result : α)
  | cycle (c : Cycle) (next : UInt8 → Script α)

namespace Script

variable {α γ δ : Type}

/-- One script after another. -/
def bind : Script α → (α → Script γ) → Script γ
  | done a, f => f a
  | cycle c next, f => cycle c fun data => (next data).bind f

instance : Monad Script where
  pure := done
  bind := bind

theorem bind_done (s : Script α) : s.bind done = s := by
  induction s with
  | done a => rfl
  | cycle c next ih =>
      simp only [bind]
      congr
      funext data
      exact ih data

theorem bind_assoc (s : Script α) (f : α → Script γ) (g : γ → Script δ) :
    (s.bind f).bind g = s.bind fun a => (f a).bind g := by
  induction s with
  | done a => rfl
  | cycle c next ih =>
      simp only [bind]
      congr
      funext data
      exact ih data

instance : LawfulMonad Script := LawfulMonad.mk' Script bind_done (fun _ _ => rfl) bind_assoc

/-- Performs a script on a bus. -/
def run {β : Type} [Bus β] : Script α → Timed β → α × Timed β
  | done a, t => (a, t)
  | cycle c next, t =>
      let (data, t) := c.perform t
      (next data).run t

/-- Performing one script after another is performing the first and then the second. -/
theorem run_bind {β : Type} [Bus β] (s : Script α) (f : α → Script γ) (t : Timed β) :
    (s.bind f).run t = (f (s.run t).1).run (s.run t).2 := by
  induction s generalizing t with
  | done a => rfl
  | cycle c next ih => exact ih _ _

/-! ### The basic scripts -/

/-- Fetches an opcode. -/
def fetch (address : UInt16) : Script UInt8 := cycle (.fetch address) done

/-- Reads a byte. -/
def read (address : UInt16) : Script UInt8 := cycle (.read address) done

/-- Writes a byte. -/
def write (address : UInt16) (value : UInt8) : Script Unit := cycle (.write address value) fun _ => done ()

/-- Reads a port. -/
def input (port : UInt16) : Script UInt8 := cycle (.input port) done

/-- Writes a port. -/
def output (port : UInt16) (value : UInt8) : Script Unit := cycle (.output port value) fun _ => done ()

/-- Works for `n` T-states without the bus. -/
def internal (n : Nat) : Script Unit := cycle (.internal n) fun _ => done ()

/-- Reads a word, low byte first. -/
def readWord (address : UInt16) : Script UInt16 := do
  let low ← read address
  let high ← read (address + 1)
  return Word.ofBytes high low

/-- Writes a word, low byte first. -/
def writeWord (address value : UInt16) : Script Unit := do
  write address (Word.low value)
  write (address + 1) (Word.high value)

/-- Pushes a word onto the stack, high byte first; the result is the new stack pointer. -/
def push (sp value : UInt16) : Script UInt16 := do
  write (sp - 1) (Word.high value)
  write (sp - 2) (Word.low value)
  return sp - 2

/-- Pops a word from the stack; the result is the word and the new stack pointer. -/
def pop (sp : UInt16) : Script (UInt16 × UInt16) := do
  let value ← readWord sp
  return (value, sp + 2)

end Script

end Z80
