/-
Scripts on the plain board.

The plain board answers at once, so on it a basic script is one look at memory or at a port, or
one change of them, and a fixed number of T-states.  The rules below say so, and with them `simp`
performs the script of an instruction.
-/
import Z80.Proofs.Script

namespace Z80

/-- A byte written to memory is seen at its address and at no other. -/
theorem Memory.peek_store (memory : Memory) (address address' : UInt16) (v : UInt8) :
    peek (Storage.store memory address v) address' =
      if address = address' then v else peek memory address' := by
  have hmod : ∀ a : UInt16, a.toNat % 1 <<< 16 = a.toNat := fun a => Nat.mod_eq_of_lt a.toNat_lt
  show (memory.set address.toNat v).get address'.toNat = _
  rw [Store.get_set, hmod, hmod]
  simp only [UInt16.toNat_inj]
  rfl

namespace Timed

variable {β : Type} (t : Timed β)

@[simp] theorem clock_advance (n : Nat) : (t.advance n).clock = t.clock.advance n := rfl

@[simp] theorem bus_advance (n : Nat) : (t.advance n).bus = t.bus := rfl

@[simp] theorem advance_advance (m n : Nat) : (t.advance m).advance n = t.advance (m + n) := by
  simp only [advance, Clock.advance_advance]

/-- On the plain board an access takes no time and asks for nothing. -/
@[simp] theorem access_board (t : Timed (Board Memory)) (a : Access) :
    t.access a =
      ((Bus.respond t.bus t.clock a).data,
        { t with bus := (Bus.respond t.bus t.clock a).bus }) := by
  cases a <;> simp [access, Bus.respond, Storage.wait]

end Timed

namespace Script

variable (t : Timed (Board Memory))

@[simp] theorem run_read (address : UInt16) :
    (read address).run t = (peek t.bus.memory address, t.advance 3) := by
  simp [read, Cycle.perform, Cycle.access?, Cycle.length]
  rfl

@[simp] theorem run_write (address : UInt16) (v : UInt8) :
    (write address v).run t =
      ((), ⟨t.clock.advance 3, { t.bus with memory := Storage.store t.bus.memory address v }⟩) := by
  simp [write, Cycle.perform, Cycle.access?, Cycle.length]
  rfl

@[simp] theorem run_input (port : UInt16) :
    (input port).run t = (t.bus.ports.input port, t.advance 4) := by
  simp [input, Cycle.perform, Cycle.access?, Cycle.length]
  rfl

@[simp] theorem run_output (port : UInt16) (v : UInt8) :
    (output port v).run t =
      ((), ⟨t.clock.advance 4, { t.bus with ports := t.bus.ports.output port v }⟩) := by
  simp [output, Cycle.perform, Cycle.access?, Cycle.length]
  rfl

@[simp] theorem run_internal (n : Nat) : (internal n).run t = ((), t.advance n) := rfl

end Script

end Z80
