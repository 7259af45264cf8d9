/-
Which registers instructions name.

Most of what an instruction writes it names as its target, a register (`Instruction.target8?`) or a
pair (`Instruction.target16?`).  The opcode tables do not let it name everything: an index register
only behind its own prefix, AF only in POP and SP only where it is loaded or counted, and of
interrupt modes there are three.  `Instruction.Formed` says this of an instruction, and whatever is
read from opcodes is formed (`unprefixed_formed`), with one case for each field of the tables.
-/
import Z80.Proofs.Swapping

namespace Z80

/-! ### Targets -/

/-- The pair that a register is one half of. -/
def Reg8.whole : Reg8 → Pair
  | a => .af
  | b | c => .bc
  | d | e => .de
  | h | l => .hl
  | ixh | ixl => .ix
  | iyh | iyl => .iy

/-- A pair can be named behind a prefix: an index register only behind its own. -/
def Pair.Behind (index : Option Index) : Pair → Prop
  | ix => index = some .ix
  | iy => index = some .iy
  | _ => True

namespace Instruction

/-- The register that an instruction names as its target. -/
def target8? : Instruction → Option Reg8
  | load r _ | loadImmediate r _ | loadFrom r _ | increment r | decrement r | modify _ r => some r
  | modifyAt _ _ copy => copy
  | inputC target => target
  | _ => none

/-- The pair that an instruction names as its target. -/
def target16? : Instruction → Option Pair
  | loadPair p _ | loadPairDirect p _ | incrementPair p | decrementPair p | pop p | exchangeTop p
  | addPair p _ => some p
  | _ => none

/-- Does an instruction load SP, or count it up or down? -/
def namesSP : Instruction → Bool
  | loadPair p _ | loadPairDirect p _ | incrementPair p | decrementPair p => p == .sp
  | _ => false

end Instruction

/-! ### What is read -/

section Names

variable (index : Option Index) (code : Nat)

@[simp] theorem Pair.behind_indexed_hl : (Pair.hl.indexed index).Behind index := by
  rcases index with _ | _ | _ <;> trivial

@[simp] theorem Pair.behind_indexed_ofCode : ((ofCode code).indexed index).Behind index := by
  unfold ofCode
  split <;> rcases index with _ | _ | _ <;> trivial

@[simp] theorem Pair.behind_indexed_stackOfCode :
    ((stackOfCode code).indexed index).Behind index := by
  unfold stackOfCode
  split <;> rcases index with _ | _ | _ <;> trivial

@[simp] theorem Pair.behind_ofCode : (ofCode code).Behind index := by
  unfold ofCode
  split <;> trivial

@[simp] theorem Pair.indexed_hl_ne_af : Pair.hl.indexed index ≠ .af := by
  rcases index with _ | _ | _ <;> exact Pair.noConfusion

@[simp] theorem Pair.indexed_hl_ne_sp : Pair.hl.indexed index ≠ .sp := by
  rcases index with _ | _ | _ <;> exact Pair.noConfusion

@[simp] theorem Pair.indexed_ofCode_ne_af : (ofCode code).indexed index ≠ .af := by
  unfold ofCode
  split <;> rcases index with _ | _ | _ <;> exact Pair.noConfusion

@[simp] theorem Pair.ofCode_ne_af : ofCode code ≠ .af := by
  unfold ofCode
  split <;> exact Pair.noConfusion

@[simp] theorem Pair.indexed_stackOfCode_ne_sp : (stackOfCode code).indexed index ≠ .sp := by
  unfold stackOfCode
  split <;> rcases index with _ | _ | _ <;> exact Pair.noConfusion

variable {code} {r : Reg8}

theorem Reg8.behind_ofCode? (h : ofCode? code = some r) : r.whole.Behind index := by
  unfold ofCode? at h
  split at h <;> cases h <;> trivial

theorem Reg8.behind_indexed_ofCode? (h : ofCode? code = some r) :
    (r.indexed index).whole.Behind index := by
  unfold ofCode? at h
  split at h <;> cases h <;> rcases index with _ | _ | _ <;> trivial

end Names

/-- An instruction names only what can be named behind a prefix, and AF, SP and the modes only where it may. -/
structure Instruction.Formed (index : Option Index) (i : Instruction) : Prop where
  register : ∀ r, i.target8? = some r → r.whole.Behind index
  pair : ∀ p, i.target16? = some p → p.Behind index
  af : i.target16? = some .af → i = .pop .af
  sp : i.target16? = some .sp → i.namesSP = true
  mode : ∀ mode, i = .im mode → mode ≤ 2

theorem Instruction.formed_iff (index : Option Index) (i : Instruction) :
    i.Formed index ↔ (∀ r, i.target8? = some r → r.whole.Behind index) ∧
      (∀ p, i.target16? = some p → p.Behind index) ∧ (i.target16? = some .af → i = .pop .af) ∧
      (i.target16? = some .sp → i.namesSP = true) ∧ ∀ mode, i = .im mode → mode ≤ 2 :=
  ⟨fun ⟨h, h', h'', h₁, h₂⟩ => ⟨h, h', h'', h₁, h₂⟩, fun ⟨h, h', h'', h₁, h₂⟩ => ⟨h, h', h'', h₁, h₂⟩⟩

namespace Encoding

variable {α γ : Type}

@[simp] theorem all_bind (P : γ → Prop) (e : Encoding α) (g : α → Encoding γ) :
    (e >>= g).All P ↔ e.All fun a => (g a).All P := by
  induction e with
  | done a => exact Iff.rfl
  | opcode next ih => exact forall_congr' ih
  | operand next ih => exact forall_congr' ih
  | pause n next ih => exact ih

theorem All.mono {P Q : α → Prop} {e : Encoding α} (h : e.All P) (hPQ : ∀ a, P a → Q a) : e.All Q := by
  induction e with
  | done a => exact hPQ a h
  | opcode next ih => exact fun b => ih b (h b)
  | operand next ih => exact fun b => ih b (h b)
  | pause n next ih => exact ih h

/-- What everything read satisfies, the result of the script satisfies. -/
theorem All.ensures {P : α → Prop} {e : Encoding α} (h : e.All P) (r : Registers) :
    (e.script r).Ensures fun _ p => P p.1 := by
  induction e generalizing r with
  | done a => exact h
  | opcode next ih => exact fun b => ih b (h b) _
  | operand next ih => exact fun b => ih b (h b) _
  | pause n next ih => exact fun _ => ih h r

end Encoding

namespace Opcode

open Instruction

theorem firstQuarter_formed (index : Option Index) (y z : Nat) :
    (firstQuarter index y z).All (Formed index) := by
  have hregister : ∀ {r}, Reg8.ofCode? y = some r → (r.indexed index).whole.Behind index :=
    Reg8.behind_indexed_ofCode? index
  unfold firstQuarter
  split <;> (try split) <;> simp_all [formed_iff, target8?, target16?, namesSP]

theorem secondQuarter_formed (index : Option Index) (y z : Nat) :
    (secondQuarter index y z).All (Formed index) := by
  unfold secondQuarter
  cases hy : Reg8.ofCode? y with
  | none => cases Reg8.ofCode? z <;> simp [formed_iff, target8?, target16?]
  | some target =>
      have htarget := Reg8.behind_ofCode? index hy
      have htarget' := Reg8.behind_indexed_ofCode? index hy
      cases Reg8.ofCode? z <;> simp [formed_iff, target8?, target16?, htarget, htarget']

theorem thirdQuarter_formed (index : Option Index) (y z : Nat) :
    (thirdQuarter index y z).All (Formed index) := by
  unfold thirdQuarter
  split <;> simp [formed_iff, target8?, target16?]

theorem fourthQuarter_formed (index : Option Index) (y z : Nat) :
    (fourthQuarter index y z).All (Formed index) := by
  unfold fourthQuarter
  split <;> (try split) <;> (try split) <;> simp [formed_iff, target8?, target16?, namesSP]

theorem main_formed (index : Option Index) (op : UInt8) : (main index op).All (Formed index) := by
  unfold main
  split
  · exact firstQuarter_formed index _ _
  · exact secondQuarter_formed index _ _
  · exact thirdQuarter_formed index _ _
  · exact fourthQuarter_formed index _ _

theorem bit_formed (op : UInt8) : (bit op).Formed none := by
  unfold bit
  split <;> simp [formed_iff, target8?, target16?]
  rename_i hr
  exact Reg8.behind_ofCode? none hr

theorem indexedBit_formed (base : Index) (d : Int8) (op : UInt8) :
    (indexedBit base d op).Formed (some base) := by
  unfold indexedBit
  split <;> simp [formed_iff, target8?, target16?]
  exact fun r => Reg8.behind_ofCode? (some base)

theorem extendedQuarter_formed (op : UInt8) : (extendedQuarter op).All (Formed none) := by
  unfold extendedQuarter
  dsimp only
  split <;> (try split) <;> simp
  all_goals simp [formed_iff, target8?, target16?, namesSP]
  -- IN r,(C)
  exact fun r => Reg8.behind_ofCode? none

theorem extended_formed : extended.All (Formed none) := by
  intro op
  dsimp only
  split
  · exact extendedQuarter_formed op
  · split <;> simp [formed_iff, target8?, target16?]

/-- Behind ED the prefixes in front have no meaning. -/
theorem unprefixed_formed (index : Option Index) (op : UInt8) :
    (unprefixed index op).All (Formed (if op = 0xED then none else index)) := by
  unfold unprefixed
  by_cases hCB : op = 0xCB
  · subst hCB
    cases index with
    | none => exact fun op => bit_formed op
    | some base => exact fun d op => indexedBit_formed base d.toInt8 op
  · rw [if_neg hCB]
    by_cases hED : op = 0xED
    · rw [if_pos hED, if_pos hED]
      exact extended_formed
    · rw [if_neg hED, if_neg hED]
      exact main_formed index op

end Opcode

end Z80
