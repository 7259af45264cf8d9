/-
What goes out.

An instruction writes at most one byte to a port, and no other event writes any.  `Script.Sends`
bounds the bytes that a script writes to ports, whatever it reads, and since most parts of
instructions send nothing the bound is carried through them as it is.  On a bus that writes down
what it is asked, the bound is one on the log.
-/
import Z80.Proofs.Log

namespace Z80

/-- Is a byte written to a port? -/
def Access.sends : Access → Bool
  | output _ _ => true
  | _ => false

/-- How many bytes a cycle writes to ports. -/
def Cycle.sends : Cycle → Nat
  | output _ _ => 1
  | _ => 0

namespace Script

variable {α γ : Type}

/-- The script writes at most `n` bytes to ports. -/
def Sends (n : Nat) : Script α → Prop
  | done _ => True
  | cycle c next => c.sends ≤ n ∧ ∀ b, (next b).Sends (n - c.sends)

@[simp] theorem sends_pure (n : Nat) (a : α) : (pure a : Script α).Sends n := trivial

theorem Sends.mono {s : Script α} {m n : Nat} (h : s.Sends m) (hle : m ≤ n) : s.Sends n := by
  induction s generalizing m n with
  | done a => trivial
  | cycle c next ih => exact ⟨Nat.le_trans h.1 hle, fun b => ih b (h.2 b) (by omega)⟩

/-- After a script that sends nothing the bound is what it was. -/
theorem Sends.bind {s : Script α} {f : α → Script γ} {n : Nat} (hs : s.Sends 0)
    (hf : ∀ a, (f a).Sends n) : (s >>= f).Sends n := by
  induction s with
  | done a => exact hf a
  | cycle c next ih =>
      obtain ⟨hc, hnext⟩ := hs
      have hnone : c.sends = 0 := Nat.le_zero.mp hc
      rw [hnone] at hnext
      refine ⟨by omega, fun b => ?_⟩
      rw [hnone]
      exact ih b (hnext b)

@[simp] theorem Sends.map {s : Script α} {f : α → γ} {n : Nat} (hs : s.Sends n) :
    (f <$> s).Sends n := by
  induction s generalizing n with
  | done a => trivial
  | cycle c next ih => exact ⟨hs.1, fun b => ih b (hs.2 b)⟩

@[simp] theorem sends_ite (n : Nat) (p : Prop) [Decidable p] (s s' : Script α) :
    (if p then s else s').Sends n ↔ (p → s.Sends n) ∧ (¬ p → s'.Sends n) := by
  split <;> simp_all

section Basic

variable (n : Nat) (f : UInt8 → Script α) (g : Unit → Script α)

@[simp] theorem sends_read (address : UInt16) : (read address).Sends n :=
  ⟨Nat.zero_le n, fun _ => trivial⟩

@[simp] theorem sends_bind_read (address : UInt16) :
    (read address >>= f).Sends n ↔ ∀ b, (f b).Sends n :=
  and_iff_right (Nat.zero_le n)

@[simp] theorem sends_input (port : UInt16) : (input port).Sends n :=
  ⟨Nat.zero_le n, fun _ => trivial⟩

@[simp] theorem sends_bind_input (port : UInt16) :
    (input port >>= f).Sends n ↔ ∀ b, (f b).Sends n :=
  and_iff_right (Nat.zero_le n)

@[simp] theorem sends_write (address : UInt16) (v : UInt8) : (write address v).Sends n :=
  ⟨Nat.zero_le n, fun _ => trivial⟩

@[simp] theorem sends_bind_write (address : UInt16) (v : UInt8) :
    (write address v >>= g).Sends n ↔ (g ()).Sends n :=
  (and_iff_right (Nat.zero_le n)).trans (forall_const UInt8)

@[simp] theorem sends_output (port : UInt16) (v : UInt8) : (output port v).Sends n ↔ 1 ≤ n :=
  and_iff_left fun _ => trivial

@[simp] theorem sends_bind_output (port : UInt16) (v : UInt8) :
    (output port v >>= g).Sends n ↔ 1 ≤ n ∧ (g ()).Sends (n - 1) :=
  and_congr_right fun _ => forall_const UInt8

@[simp] theorem sends_internal (length : Nat) : (internal length).Sends n :=
  ⟨Nat.zero_le n, fun _ => trivial⟩

@[simp] theorem sends_bind_internal (length : Nat) :
    (internal length >>= g).Sends n ↔ (g ()).Sends n :=
  (and_iff_right (Nat.zero_le n)).trans (forall_const UInt8)

end Basic

/-- On a log no more is sent than the script may send. -/
theorem Sends.run_logged {β : Type} [Bus β] {s : Script α} {n : Nat} (h : s.Sends n)
    (t : Timed (Logged β)) :
    ∃ asked, (s.run t).2.bus.log = t.bus.log ++ asked ∧ asked.countP (·.access.sends) ≤ n := by
  induction s generalizing n t with
  | done a => exact ⟨[], (List.append_nil _).symm, Nat.zero_le n⟩
  | cycle c next ih =>
      obtain ⟨asked, hlog, hcount⟩ := ih (c.perform t).1 (h.2 _) (c.perform t).2
      have hc := h.1
      have hfirst : ∃ first : List Asked, (c.perform t).2.bus.log = t.bus.log ++ first ∧
          first.countP (·.access.sends) = c.sends := by
        cases c with
        | internal length => exact ⟨[], (List.append_nil _).symm, rfl⟩
        | fetch address => exact ⟨[⟨.read address, t.clock⟩], rfl, rfl⟩
        | read address => exact ⟨[⟨.read address, t.clock⟩], rfl, rfl⟩
        | write address v => exact ⟨[⟨.write address v, t.clock⟩], rfl, rfl⟩
        | input port => exact ⟨[⟨.input port, t.clock⟩], rfl, rfl⟩
        | output port v => exact ⟨[⟨.output port v, t.clock⟩], rfl, rfl⟩
      obtain ⟨first, hfirst, hone⟩ := hfirst
      refine ⟨first ++ asked, ?_, ?_⟩
      · rw [run_cycle, hlog, hfirst, List.append_assoc]
      · rw [List.countP_append, hone]
        omega

end Script

theorem Encoding.script_sends {α : Type} (e : Encoding α) (r : Registers) : (e.script r).Sends 0 := by
  induction e generalizing r with
  | done a => trivial
  | opcode next ih => exact ⟨Nat.le_refl 0, fun b => ih b _⟩
  | operand next ih => exact ⟨Nat.le_refl 0, fun b => ih b _⟩
  | pause n next ih => exact ⟨Nat.le_refl 0, fun _ => ih r⟩

namespace Cpu

@[simp] theorem sends_push (n : Nat) (cpu : Cpu) (w : UInt16) : (cpu.push w).Sends n := by
  simp [push, Script.push]

@[simp] theorem sends_jumpRelative (n : Nat) (cpu : Cpu) (d : Int8) : (cpu.jumpRelative d).Sends n := by
  simp [jumpRelative]

@[simp] theorem sends_call (n : Nat) (cpu : Cpu) (target : UInt16) : (cpu.call target).Sends n := by
  simp [call]

@[simp] theorem sends_ret (n : Nat) (cpu : Cpu) : cpu.ret.Sends n := by
  simp [ret, pop, Script.pop, Script.readWord]

@[simp] theorem sends_repeatBlock (n : Nat) (cpu : Cpu) : cpu.repeatBlock.Sends n := by
  simp [repeatBlock]

/-- An instruction writes at most one byte to a port. -/
theorem execute_sends (cpu : Cpu) (i : Instruction) : (cpu.execute i).Sends 1 := by
  have hlocate : ∀ (p : Pointer) (pause : Nat), (cpu.locate p pause).Sends 0 := by
    intro p pause
    cases p <;> simp [locate]
  cases i
  case accumulate op operand =>
    cases operand with
    | register r => simp [execute]
    | immediate n => simp [execute]
    | memory p => exact (hlocate p 5).bind fun found => by simp
  case loadFrom target p => exact (hlocate p 5).bind fun found => by simp
  case storeTo p source => exact (hlocate p 5).bind fun found => by simp
  case storeImmediate p n => exact (hlocate p 2).bind fun found => by simp
  case incrementAt p => exact (hlocate p 5).bind fun found => by simp
  case decrementAt p => exact (hlocate p 5).bind fun found => by simp
  case testAt n p => exact (hlocate p 2).bind fun found => by simp
  case modifyAt op p copy => exact (hlocate p 2).bind fun found => by cases copy <;> simp
  case inputC target => cases target <;> simp [execute]
  case callIf condition target =>
    simp only [execute]
    split <;> simp
  case block op d repeats =>
    cases op <;> simp [execute, blockLoad, blockCompare, blockInput, blockOutput]
  all_goals simp [execute, pop, Script.pop, Script.readWord, Script.writeWord]

/-- So does every event. -/
theorem event_sends (cpu : Cpu) (bound : Nat) : (cpu.event bound).Sends 1 := by
  unfold event
  cases cpu.due with
  | nmi => simp [acceptNMI]
  | interrupt data =>
      have hhandler : ∀ cpu : Cpu, (cpu.handler data).Sends 0 := by
        intro cpu
        unfold handler
        split
        · simp [Script.readWord]
        · simp
      refine Script.Sends.map (Script.Sends.bind (Script.sends_internal 0 7) fun _ => ?_)
      exact (sends_push 0 _ _).bind fun pushed => (hhandler pushed).bind fun p => trivial
  | halted => simp [idle]
  | instruction =>
      refine (Encoding.script_sends _ _).bind fun p => ?_
      obtain ⟨i?, regs⟩ := p
      cases i? with
      | none => exact trivial
      | some i => exact Script.Sends.map (execute_sends _ i)

end Cpu

/-- Every event writes at most one byte to a port. -/
theorem Machine.next_sends {β : Type} [Bus β] {m m' : Machine (Logged β)} {bound : Nat}
    (h : m.next bound = some m') :
    ∃ asked, m'.bus.log = m.bus.log ++ asked ∧ asked.countP (·.access.sends) ≤ 1 := by
  obtain ⟨asked, hlog, hcount⟩ := (m.cpu.event_sends bound).run_logged m.outside
  rw [← next_outside h] at hlog
  exact ⟨asked, hlog, hcount⟩

end Z80
