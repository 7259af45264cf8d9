/-
What a bus may be relied on for.

A bus is a value that changes with every answer, so a promise about it has to cover
everything it can become.  `Bus.Becomes` is that set, closed under every access at every
clock reading, and `Bus.Always` is a promise about all answers from there on.  Two
promises come up again and again: a `Quiet` bus never asks the run loop to return, and a
`Prompt` bus never makes the processor wait.

A bus whose answers cannot break a promise keeps it at once, which is how the plain board
of RAM and ports is both quiet and prompt.
-/
import Z80.Bus.Board

namespace Z80

variable {β : Type} [Bus β]

namespace Bus

/-- What a bus can become by answering accesses. -/
inductive Becomes (b : β) : β → Prop
  | refl : Becomes b b
  | respond {b' : β} (h : Becomes b b') (clock : Clock) (a : Access) :
      Becomes b (Bus.respond b' clock a).bus

/-- All answers of a bus, now and later, satisfy `P`. -/
def Always (P : Reply β → Prop) (b : β) : Prop :=
  ∀ b', Becomes b b' → ∀ (clock : Clock) (a : Access), P (Bus.respond b' clock a)

/-- A bus that never asks the run loop to return. -/
def Quiet (b : β) : Prop := Always (fun reply => reply.yields = false) b

/-- A bus that never makes the processor wait. -/
def Prompt (b : β) : Prop := Always (fun reply => reply.wait = 0) b

theorem Becomes.trans {b b' b'' : β} (h : Becomes b b') (h' : Becomes b' b'') : Becomes b b'' := by
  induction h' with
  | refl => exact h
  | respond _ clock a ih => exact .respond ih clock a

namespace Always

variable {P : Reply β → Prop} {b : β}

theorem reply (h : Always P b) (clock : Clock) (a : Access) : P (Bus.respond b clock a) :=
  h b .refl clock a

/-- A promise outlives an answer. -/
theorem respond (h : Always P b) (clock : Clock) (a : Access) :
    Always P (Bus.respond b clock a).bus :=
  fun b' hb' => h b' ((Becomes.respond .refl clock a).trans hb')

/-- A promise that no answer of the type can break holds of all its buses. -/
theorem of_forall (h : ∀ (b : β) (clock : Clock) (a : Access), P (Bus.respond b clock a)) (b : β) :
    Always P b :=
  fun b' _ => h b'

end Always

end Bus

/-! ### The plain board -/

namespace Board

theorem quiet (b : Board Memory) : Bus.Quiet b := by
  refine Bus.Always.of_forall ?_ b
  intro b clock a
  cases a <;> rfl

theorem prompt (b : Board Memory) : Bus.Prompt b := by
  refine Bus.Always.of_forall ?_ b
  intro b clock a
  cases a <;> rfl

end Board

end Z80
