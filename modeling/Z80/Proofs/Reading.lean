/-
Reading an instruction.

Reading goes through the prefixes to the opcode and its operands, and moves nothing but the
program counter and the refresh register (`Moved`).  What follows the prefixes is soon read,
whatever the bytes turn out to be: `Within` bounds the T-states of an encoding on a prompt
bus, and `unprefixed_within` finds that no opcode with its operands needs more than ten.
All that is open about the time of reading is then the number of prefixes.
-/
import Z80.Instruction.Opcode
import Z80.Proofs.Script

namespace Z80

namespace Encoding

variable {α γ : Type}

theorem script_bind (e : Encoding α) (f : α → Encoding γ) (r : Registers) :
    (e >>= f).script r = e.script r >>= fun p => (f p.1).script p.2 := by
  induction e generalizing r with
  | done a => rfl
  | opcode next ih => exact congrArg (Script.cycle _) (funext fun b => ih b _)
  | operand next ih => exact congrArg (Script.cycle _) (funext fun b => ih b _)
  | pause n next ih => exact congrArg (Script.cycle _) (funext fun _ => ih r)

theorem script_map (f : α → γ) (e : Encoding α) (r : Registers) :
    (f <$> e).script r = (fun p => (f p.1, p.2)) <$> e.script r := by
  rw [← bind_pure_comp, ← bind_pure_comp, script_bind]
  rfl

/-! ### What reading moves -/

/-- The same registers, but perhaps with another program counter and refresh count. -/
def Moved (r r' : Registers) : Prop := ∃ pc count, r' = { r with pc := pc, r := count }

theorem Moved.trans {r r' r'' : Registers} (h : Moved r r') (h' : Moved r' r'') : Moved r r'' := by
  obtain ⟨pc, count, rfl⟩ := h
  obtain ⟨pc', count', rfl⟩ := h'
  exact ⟨pc', count', rfl⟩

/-- Reading moves the program counter and the refresh register and nothing else. -/
theorem script_moved (e : Encoding α) (r : Registers) :
    (e.script r).Ensures fun _ p => Moved r p.2 := by
  induction e generalizing r with
  | done a => exact ⟨r.pc, r.r, rfl⟩
  | opcode next ih => exact fun b => (ih b _).mono fun _ _ h => Moved.trans ⟨_, _, rfl⟩ h
  | operand next ih => exact fun b => (ih b _).mono fun _ _ h => Moved.trans ⟨_, _, rfl⟩ h
  | pause n next ih => exact fun _ => ih r

/-! ### How long reading takes -/

/-- Reading takes at most `n` T-states, whatever the bytes are. -/
def Within : Encoding α → Nat → Prop
  | done _, _ => True
  | opcode next, n => 4 ≤ n ∧ ∀ b, (next b).Within (n - 4)
  | operand next, n => 3 ≤ n ∧ ∀ b, (next b).Within (n - 3)
  | pause length next, n => length ≤ n ∧ next.Within (n - length)

theorem Within.ensures {e : Encoding α} {n : Nat} (h : e.Within n) (r : Registers) :
    (e.script r).Ensures fun m _ => m ≤ n := by
  induction e generalizing n r with
  | done a => exact Nat.zero_le n
  | opcode next ih =>
      intro b
      refine (ih b (h.2 b) _).mono fun m _ hm => ?_
      have := h.1
      show 4 + m ≤ n
      omega
  | operand next ih =>
      intro b
      refine (ih b (h.2 b) _).mono fun m _ hm => ?_
      have := h.1
      show 3 + m ≤ n
      omega
  | pause length next ih =>
      intro _
      refine (ih h.2 _).mono fun m _ hm => ?_
      have := h.1
      show length + m ≤ n
      omega

theorem Within.mono {e : Encoding α} {m n : Nat} (h : e.Within m) (hle : m ≤ n) : e.Within n := by
  induction e generalizing m n with
  | done a => trivial
  | opcode next ih => exact ⟨Nat.le_trans h.1 hle, fun b => ih b (h.2 b) (by omega)⟩
  | operand next ih => exact ⟨Nat.le_trans h.1 hle, fun b => ih b (h.2 b) (by omega)⟩
  | pause length next ih => exact ⟨Nat.le_trans h.1 hle, ih h.2 (by omega)⟩

theorem Within.bind {e : Encoding α} {f : α → Encoding γ} {m n : Nat} (h : e.Within m)
    (hf : ∀ a, (f a).Within n) : (e >>= f).Within (m + n) := by
  induction e generalizing m with
  | done a => exact (hf a).mono (by omega)
  | opcode next ih =>
      have := h.1
      exact ⟨by omega, fun b => (ih b (h.2 b)).mono (by omega)⟩
  | operand next ih =>
      have := h.1
      exact ⟨by omega, fun b => (ih b (h.2 b)).mono (by omega)⟩
  | pause length next ih =>
      have := h.1
      exact ⟨by omega, (ih h.2).mono (by omega)⟩

@[simp] theorem within_pure (a : α) (n : Nat) : (pure a : Encoding α).Within n := trivial

@[simp] theorem within_map (f : α → γ) (e : Encoding α) (n : Nat) :
    (f <$> e).Within n ↔ e.Within n := by
  induction e generalizing n with
  | done a => exact Iff.rfl
  | opcode next ih => exact and_congr_right fun _ => forall_congr' fun b => ih b _
  | operand next ih => exact and_congr_right fun _ => forall_congr' fun b => ih b _
  | pause length next ih => exact and_congr_right fun _ => ih _

@[simp] theorem within_byte (n : Nat) : byte.Within n ↔ 3 ≤ n := by
  simp [byte, Within]

@[simp] theorem within_displacement (n : Nat) : displacement.Within n ↔ 3 ≤ n := by
  simp [displacement]

@[simp] theorem within_word : word.Within 6 := by
  refine Within.bind (m := 3) (n := 3) (by simp) fun low => ?_
  simp

end Encoding

namespace Opcode

open Encoding

@[simp] theorem within_pointer (index : Option Index) : (pointer index).Within 3 := by
  cases index <;> simp [pointer]

/-- The main table reads at most a displacement and a byte, or a word. -/
theorem main_within (index : Option Index) (op : UInt8) : (main index op).Within 6 := by
  have hpointer : (pointer index).Within 6 := (within_pointer index).mono (by omega)
  unfold main
  split
  · unfold firstQuarter
    split <;> (try split) <;> simp [hpointer, Within]
    refine Within.bind (m := 3) (n := 3) (within_pointer index) fun p => ?_
    simp
  · unfold secondQuarter
    split <;> simp [hpointer]
  · unfold thirdQuarter
    split <;> simp [hpointer]
  · unfold fourthQuarter
    split <;> (try split) <;> simp
    split <;> simp

theorem bits_within : bits.Within 4 := ⟨by omega, fun _ => trivial⟩

theorem indexedBits_within (base : Index) : (indexedBits base).Within 6 := by
  refine Within.bind (m := 3) (by simp) fun d => Within.bind (m := 3) (n := 0) (by simp) fun op => ?_
  exact within_pure _ 0

theorem extended_within : extended.Within 10 := by
  refine ⟨by omega, fun op => ?_⟩
  dsimp only
  split
  · unfold extendedQuarter
    split <;> simp
    all_goals split <;> simp
  · split <;> simp

/-- Behind the prefixes and the opcode there are ten T-states to read at most. -/
theorem unprefixed_within (index : Option Index) (op : UInt8) : (unprefixed index op).Within 10 := by
  unfold unprefixed
  split
  · cases index with
    | none => exact bits_within.mono (by omega)
    | some base => exact (indexedBits_within base).mono (by omega)
  · split
    · exact extended_within
    · exact (main_within index op).mono (by omega)

end Opcode

end Z80
