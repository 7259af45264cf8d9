/-
Which answers count.

Every machine cycle hands a byte to what follows it, but only a fetch, a read and an input
bring one in.  After the other cycles nobody looks at it: all scripts that the processor
performs are `Deaf` to it.  So the byte that a bus puts into its reply to a write, and there
must be some byte in it, makes no difference to anything.

The rules follow the shape of scripts, and `simp` applies them.
-/
import Z80.Cpu.Event
import Z80.Proofs.Script

namespace Z80

/-- Does a cycle bring in a byte? -/
def Cycle.brings : Cycle → Bool
  | fetch _ | read _ | input _ => true
  | write _ _ | output _ _ | internal _ => false

namespace Script

variable {α γ : Type}

/-- The script looks at no byte but those that its cycles bring in. -/
def Deaf : Script α → Prop
  | done _ => True
  | cycle c next => (c.brings = false → ∀ b b', next b = next b') ∧ ∀ b, (next b).Deaf

@[simp] theorem deaf_pure (a : α) : (pure a : Script α).Deaf := trivial

theorem Deaf.bind {s : Script α} {f : α → Script γ} (hs : s.Deaf) (hf : ∀ a, (f a).Deaf) :
    (s >>= f).Deaf := by
  induction s with
  | done a => exact hf a
  | cycle c next ih =>
      refine ⟨fun hc b b' => ?_, fun b => ih b (hs.2 b)⟩
      show (next b).bind f = (next b').bind f
      rw [hs.1 hc b b']

@[simp] theorem Deaf.map {s : Script α} {f : α → γ} (hs : s.Deaf) : (f <$> s).Deaf := by
  rw [← bind_pure_comp]
  exact hs.bind fun a => deaf_pure (f a)

@[simp] theorem deaf_ite (p : Prop) [Decidable p] (s s' : Script α) :
    (if p then s else s').Deaf ↔ (p → s.Deaf) ∧ (¬ p → s'.Deaf) := by
  split <;> simp_all

section Basic

variable (f : UInt8 → Script α) (g : Unit → Script α)

@[simp] theorem deaf_read (address : UInt16) : (read address).Deaf := by
  simp [read, Deaf, Cycle.brings]

@[simp] theorem deaf_bind_read (address : UInt16) : (read address >>= f).Deaf ↔ ∀ b, (f b).Deaf :=
  and_iff_right fun h => absurd h (by simp [Cycle.brings])

@[simp] theorem deaf_input (port : UInt16) : (input port).Deaf := by
  simp [input, Deaf, Cycle.brings]

@[simp] theorem deaf_bind_input (port : UInt16) : (input port >>= f).Deaf ↔ ∀ b, (f b).Deaf :=
  and_iff_right fun h => absurd h (by simp [Cycle.brings])

@[simp] theorem deaf_write (address : UInt16) (v : UInt8) : (write address v).Deaf := by
  simp [write, Deaf]

@[simp] theorem deaf_bind_write (address : UInt16) (v : UInt8) :
    (write address v >>= g).Deaf ↔ (g ()).Deaf :=
  (and_iff_right fun _ _ _ => rfl).trans (forall_const UInt8)

@[simp] theorem deaf_output (port : UInt16) (v : UInt8) : (output port v).Deaf := by
  simp [output, Deaf]

@[simp] theorem deaf_bind_output (port : UInt16) (v : UInt8) :
    (output port v >>= g).Deaf ↔ (g ()).Deaf :=
  (and_iff_right fun _ _ _ => rfl).trans (forall_const UInt8)

@[simp] theorem deaf_internal (n : Nat) : (internal n).Deaf := by
  simp [internal, Deaf]

@[simp] theorem deaf_bind_internal (n : Nat) : (internal n >>= g).Deaf ↔ (g ()).Deaf :=
  (and_iff_right fun _ _ _ => rfl).trans (forall_const UInt8)

end Basic

end Script

theorem Encoding.script_deaf {α : Type} (e : Encoding α) (r : Registers) : (e.script r).Deaf := by
  induction e generalizing r with
  | done a => trivial
  | opcode next ih => exact ⟨fun h => absurd h (by simp [Cycle.brings]), fun b => ih b _⟩
  | operand next ih => exact ⟨fun h => absurd h (by simp [Cycle.brings]), fun b => ih b _⟩
  | pause n next ih => exact ⟨fun _ _ _ => rfl, fun _ => ih r⟩

namespace Cpu

@[simp] theorem deaf_push (cpu : Cpu) (w : UInt16) : (cpu.push w).Deaf := by
  simp [push, Script.push]

@[simp] theorem deaf_jumpRelative (cpu : Cpu) (d : Int8) : (cpu.jumpRelative d).Deaf := by
  simp [jumpRelative]

@[simp] theorem deaf_call (cpu : Cpu) (target : UInt16) : (cpu.call target).Deaf := by
  simp [call]

@[simp] theorem deaf_ret (cpu : Cpu) : cpu.ret.Deaf := by
  simp [ret, pop, Script.pop, Script.readWord]

@[simp] theorem deaf_repeatBlock (cpu : Cpu) : cpu.repeatBlock.Deaf := by
  simp [repeatBlock]

/-- No instruction looks at the reply to a write. -/
theorem execute_deaf (cpu : Cpu) (i : Instruction) : (cpu.execute i).Deaf := by
  have hlocate : ∀ (p : Pointer) (pause : Nat), (cpu.locate p pause).Deaf := by
    intro p pause
    cases p <;> simp [locate]
  cases i
  case accumulate op operand =>
    cases operand with
    | register r => simp [execute]
    | immediate n => simp [execute]
    | memory p => exact (hlocate p 5).bind fun found => by simp
  case loadFrom target p => exact (hlocate p 5).bind fun found => by simp
  case storeTo p source => exact (hlocate p 5).bind fun found => by simp
  case storeImmediate p n => exact (hlocate p 2).bind fun found => by simp
  case incrementAt p => exact (hlocate p 5).bind fun found => by simp
  case decrementAt p => exact (hlocate p 5).bind fun found => by simp
  case testAt n p => exact (hlocate p 2).bind fun found => by simp
  case modifyAt op p copy => exact (hlocate p 2).bind fun found => by cases copy <;> simp
  case inputC target => cases target <;> simp [execute]
  case block op d repeats =>
    cases op <;> simp [execute, blockLoad, blockCompare, blockInput, blockOutput]
  all_goals simp [execute, pop, Script.pop, Script.readWord, Script.writeWord]

/-- Nor does any other event. -/
theorem event_deaf (cpu : Cpu) (bound : Nat) : (cpu.event bound).Deaf := by
  unfold event
  cases cpu.due with
  | nmi => simp [acceptNMI]
  | interrupt data =>
      have hhandler : ∀ cpu : Cpu, (cpu.handler data).Deaf := by
        intro cpu
        unfold handler
        split
        · simp [Script.readWord]
        · simp
      refine Script.Deaf.map ((Script.deaf_internal 7).bind fun _ => ?_)
      exact (deaf_push _ _).bind fun pushed => (hhandler pushed).bind fun p => trivial
  | halted => simp [idle]
  | instruction =>
      refine (Encoding.script_deaf _ _).bind fun p => ?_
      obtain ⟨i?, regs⟩ := p
      cases i? with
      | none => exact trivial
      | some i => exact (execute_deaf _ i).bind fun c => trivial

end Cpu

end Z80
