/-
How many accesses.

To count the accesses of some kind that a script makes, let it do nothing else:
`Script.tally` puts in the place of every cycle one that works for a single T-state if its access
is counted and for none if it is not.  The sum of the cycle lengths is then the count, and
`Script.Ensures` speaks about that sum already.  On a bus that writes down what it is asked the
count is that of the log.

What is counted here is bytes written to memory, of which an instruction writes at most two.
-/
import Z80.Proofs.Log

namespace Z80

/-- Is a byte written to memory? -/
def Access.stores : Access → Bool
  | write _ _ => true
  | _ => false

/-- The accesses of some kind that a cycle makes. -/
def Cycle.tally (counts : Access → Bool) (c : Cycle) : Nat := (c.access?.any counts).toNat

namespace Script

variable {α γ : Type} (counts : Access → Bool)

/-- The script in which every cycle takes as many T-states as it makes accesses of some kind. -/
def tally : Script α → Script α
  | done a => done a
  | cycle c next => cycle (.internal (c.tally counts)) fun b => (next b).tally

@[simp] theorem tally_pure (a : α) : (pure a : Script α).tally counts = pure a := rfl

@[simp] theorem tally_bind (s : Script α) (f : α → Script γ) :
    (s >>= f).tally counts = s.tally counts >>= fun a => (f a).tally counts := by
  induction s with
  | done a => rfl
  | cycle c next ih => exact congrArg (Script.cycle _) (funext ih)

@[simp] theorem tally_map (f : α → γ) (s : Script α) :
    (f <$> s).tally counts = f <$> s.tally counts := by
  simp only [← bind_pure_comp, tally_bind, tally_pure]

@[simp] theorem tally_ite (p : Prop) [Decidable p] (s s' : Script α) :
    (if p then s else s').tally counts = if p then s.tally counts else s'.tally counts := by
  split <;> rfl

/-! ### Bytes written to memory -/

section Stores

@[simp] theorem ensures_tally_read (address : UInt16) (P : Nat → UInt8 → Prop) :
    ((read address).tally Access.stores).Ensures P ↔ ∀ b, P 0 b := Iff.rfl

@[simp] theorem ensures_tally_write (address : UInt16) (v : UInt8) (P : Nat → Unit → Prop) :
    ((write address v).tally Access.stores).Ensures P ↔ P 1 () := forall_const UInt8

@[simp] theorem ensures_tally_input (port : UInt16) (P : Nat → UInt8 → Prop) :
    ((input port).tally Access.stores).Ensures P ↔ ∀ b, P 0 b := Iff.rfl

@[simp] theorem ensures_tally_output (port : UInt16) (v : UInt8) (P : Nat → Unit → Prop) :
    ((output port v).tally Access.stores).Ensures P ↔ P 0 () := forall_const UInt8

@[simp] theorem ensures_tally_internal (n : Nat) (P : Nat → Unit → Prop) :
    ((internal n).tally Access.stores).Ensures P ↔ P 0 () := forall_const UInt8

end Stores

/-! ### The log -/

/-- On a log the count is that of the accesses written down. -/
theorem Ensures.run_tally {β : Type} [Bus β] {counts : Access → Bool} {s : Script α}
    {P : Nat → α → Prop} (h : (s.tally counts).Ensures P) (t : Timed (Logged β)) :
    ∃ asked, (s.run t).2.bus.log = t.bus.log ++ asked ∧
      P (asked.countP (counts ·.access)) (s.run t).1 := by
  induction s generalizing P t with
  | done a => exact ⟨[], (List.append_nil _).symm, h⟩
  | cycle c next ih =>
      obtain ⟨asked, hlog, hP⟩ := ih (c.perform t).1 (h _) (c.perform t).2
      have hfirst : ∃ first : List Asked, (c.perform t).2.bus.log = t.bus.log ++ first ∧
          first.countP (counts ·.access) = c.tally counts := by
        unfold Cycle.perform Cycle.tally
        cases c.access? with
        | none => exact ⟨[], (List.append_nil _).symm, rfl⟩
        | some a => exact ⟨[⟨a, t.clock⟩], rfl, by cases h : counts a <;> simp [h]⟩
      obtain ⟨first, hfirst, hcount⟩ := hfirst
      refine ⟨first ++ asked, ?_, ?_⟩
      · rw [run_cycle, hlog, hfirst, List.append_assoc]
      · rw [List.countP_append, hcount]
        exact hP

end Script

/-- Reading an encoding writes nothing. -/
theorem Encoding.script_stores {α : Type} (e : Encoding α) (r : Registers) :
    ((e.script r).tally Access.stores).Ensures fun n _ => n = 0 := by
  induction e generalizing r with
  | done a => exact rfl
  | opcode next ih => exact fun b => (ih b _).mono fun n _ h => by rw [h]; rfl
  | operand next ih => exact fun b => (ih b _).mono fun n _ h => by rw [h]; rfl
  | pause n next ih => exact fun _ => (ih r).mono fun n _ h => by rw [h]; rfl

namespace Cpu

/-- An instruction writes at most two bytes to memory. -/
theorem execute_stores (cpu : Cpu) (i : Instruction) :
    ((cpu.execute i).tally Access.stores).Ensures fun n _ => n ≤ 2 := by
  cases i
  case accumulate op operand =>
    cases operand with
    | register r => simp [execute]
    | immediate n => simp [execute]
    | memory p => cases p <;> simp [execute, locate]
  case loadFrom target p => cases p <;> simp [execute, locate]
  case storeTo p source => cases p <;> simp [execute, locate]
  case storeImmediate p n => cases p <;> simp [execute, locate]
  case incrementAt p => cases p <;> simp [execute, locate]
  case decrementAt p => cases p <;> simp [execute, locate]
  case testAt n p => cases p <;> simp [execute, locate]
  case modifyAt op p copy => cases p <;> cases copy <;> simp [execute, locate]
  case inputC target => cases target <;> simp [execute]
  case block op d repeats =>
    cases op <;> simp [execute, blockLoad, blockCompare, blockInput, blockOutput, repeatBlock]
  all_goals simp [execute, pop, push, call, ret, Cpu.jumpRelative, Script.push, Script.pop, Script.readWord,
    Script.writeWord]

end Cpu

end Z80
