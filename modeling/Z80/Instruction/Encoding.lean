/-
Reading encoded things byte by byte.

An `Encoding α` says how to read an `α` from a stream of code bytes: which bytes are
opcodes and which are operands, and what each of them leads to.  It does not say where
the bytes come from.  `Encoding.script` reads them through the bus at the program counter,
so that opcodes cost a fetch and count in the refresh register and operands cost a read.
-/
import Z80.Registers
import Z80.Script

namespace Z80

/-- How to read an `α` from code bytes. -/
inductive Encoding (α : Type) where
  | done (result : α)
  /-- The next byte is an opcode. -/
  | opcode (next : UInt8 → Encoding α)
  /-- The next byte is a displacement or an operand. -/
  | operand (next : UInt8 → Encoding α)
  /-- The processor pauses before it goes on reading. -/
  | pause (length : Nat) (next : Encoding α)

namespace Encoding

variable {α γ δ : Type}

/-- One encoding after another. -/
def bind : Encoding α → (α → Encoding γ) → Encoding γ
  | done a, f => f a
  | opcode next, f => opcode fun b => (next b).bind f
  | operand next, f => operand fun b => (next b).bind f
  | pause n next, f => pause n (next.bind f)

instance : Monad Encoding where
  pure := done
  bind := bind

theorem bind_done (e : Encoding α) : e.bind done = e := by
  induction e with
  | done a => rfl
  | opcode next ih =>
      simp only [bind]
      congr
      funext b
      exact ih b
  | operand next ih =>
      simp only [bind]
      congr
      funext b
      exact ih b
  | pause n next ih => simp only [bind, ih]

theorem bind_assoc (e : Encoding α) (f : α → Encoding γ) (g : γ → Encoding δ) :
    (e.bind f).bind g = e.bind fun a => (f a).bind g := by
  induction e with
  | done a => rfl
  | opcode next ih =>
      simp only [bind]
      congr
      funext b
      exact ih b
  | operand next ih =>
      simp only [bind]
      congr
      funext b
      exact ih b
  | pause n next ih => simp only [bind, ih]

instance : LawfulMonad Encoding :=
  LawfulMonad.mk' Encoding bind_done (fun _ _ => rfl) bind_assoc

/-- An operand byte. -/
def byte : Encoding UInt8 := operand done

/-- An operand word, low byte first. -/
def word : Encoding UInt16 := do
  let low ← byte
  let high ← byte
  return Word.ofBytes high low

/-- A signed displacement. -/
def displacement : Encoding Int8 := do
  return (← byte).toInt8

/-- Reads through the bus at the program counter, which moves past the bytes read. -/
def script : Encoding α → Registers → Script (α × Registers)
  | done a, r => .done (a, r)
  | opcode next, r => .cycle (.fetch r.pc) fun b => (next b).script (({ r with pc := r.pc + 1 }).refresh 1)
  | operand next, r => .cycle (.read r.pc) fun b => (next b).script { r with pc := r.pc + 1 }
  | pause n next, r => .cycle (.internal n) fun _ => next.script r

end Encoding

end Z80
