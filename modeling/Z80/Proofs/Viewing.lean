/-
What is read is what can be seen.

`Encoding.script` reads through the bus, with the program counter moving past every byte.
`Encoding.view` only looks at the same bytes in memory and counts them.  On a board they
agree: the bus is asked for the bytes that the view counts, one after the other and nothing
else, it answers what the view sees, and afterwards memory is what it was.

So what there is to know of reading can be found by looking.  A view depends on no byte but
those it counts (`view_congr`), an opcode with its operands is at most four bytes long, and
the reading of a whole instruction comes to an end exactly where a chain of prefixes does.
-/
import Z80.Proofs.Prefixes
import Z80.Proofs.Log

namespace Z80

/-- So many addresses from a first one on, round the top of memory if need be. -/
def span (address : UInt16) : (count : Nat) → List UInt16
  | 0 => []
  | count + 1 => address :: span (address + 1) count

namespace Encoding

variable {α : Type}

/-- Reads in a memory view from an address on; also says how many bytes were read. -/
def view {μ : Type} [View μ] (m : μ) : Encoding α → UInt16 → α × Nat
  | done a, _ => (a, 0)
  | opcode next, address =>
      let (a, count) := (next (peek m address)).view m (address + 1)
      (a, count + 1)
  | operand next, address =>
      let (a, count) := (next (peek m address)).view m (address + 1)
      (a, count + 1)
  | pause _ next, address => next.view m address

/-! ### Both readers on a board -/

section Board

variable {μ : Type}

/-- The bus is the one it was, and has been asked for the bytes at some addresses. -/
structure Looked (addresses : List UInt16) (t t' : Timed (Logged (Board μ))) : Prop where
  bus : t'.bus.bus = t.bus.bus
  accesses : t'.bus.log.map (·.access) = t.bus.log.map (·.access) ++ addresses.map .read

theorem Looked.trans {before after : List UInt16} {t t' t'' : Timed (Logged (Board μ))}
    (h : Looked before t t') (h' : Looked after t' t'') : Looked (before ++ after) t t'' := by
  refine ⟨h'.bus.trans h.bus, ?_⟩
  rw [h'.accesses, h.accesses, List.map_append, List.append_assoc]

variable [Storage μ]

theorem perform_fetch_looked (address : UInt16) (t : Timed (Logged (Board μ))) :
    ((Cycle.fetch address).perform t).1 = peek t.bus.bus.memory address ∧
      Looked [address] t ((Cycle.fetch address).perform t).2 :=
  ⟨rfl, rfl, List.map_append⟩

theorem perform_read_looked (address : UInt16) (t : Timed (Logged (Board μ))) :
    ((Cycle.read address).perform t).1 = peek t.bus.bus.memory address ∧
      Looked [address] t ((Cycle.read address).perform t).2 :=
  ⟨rfl, rfl, List.map_append⟩

/-- **Reading through the bus finds what a look in memory finds.** -/
theorem run_script (e : Encoding α) (r : Registers) (t : Timed (Logged (Board μ))) :
    ((e.script r).run t).1.1 = (e.view t.bus.bus.memory r.pc).1 ∧
      ((e.script r).run t).1.2.pc = r.pc + .ofNat (e.view t.bus.bus.memory r.pc).2 ∧
      Looked (span r.pc (e.view t.bus.bus.memory r.pc).2) t ((e.script r).run t).2 := by
  induction e generalizing r t with
  | done a => exact ⟨rfl, by simp [script, Script.run, view], rfl, by simp [script, Script.run, view, span]⟩
  | opcode next ih =>
      obtain ⟨hdata, hlooked⟩ := perform_fetch_looked r.pc t
      obtain ⟨hresult, hpc, hrest⟩ :=
        ih (peek t.bus.bus.memory r.pc) (({ r with pc := r.pc + 1 } : Registers).refresh 1)
          ((Cycle.fetch r.pc).perform t).2
      rw [hlooked.bus] at hresult hpc hrest
      refine ⟨hresult, hpc.trans (add_one_add_ofNat _ _), ?_⟩
      exact hlooked.trans hrest
  | operand next ih =>
      obtain ⟨hdata, hlooked⟩ := perform_read_looked r.pc t
      obtain ⟨hresult, hpc, hrest⟩ :=
        ih (peek t.bus.bus.memory r.pc) { r with pc := r.pc + 1 } ((Cycle.read r.pc).perform t).2
      rw [hlooked.bus] at hresult hpc hrest
      refine ⟨hresult, hpc.trans (add_one_add_ofNat _ _), ?_⟩
      exact hlooked.trans hrest
  | pause n next ih =>
      obtain ⟨hresult, hpc, hrest⟩ := ih r (t.advance n)
      exact ⟨hresult, hpc, hrest.bus, hrest.accesses⟩

/-- A bus that keeps no log is read in the same way. -/
theorem run_script_bare (e : Encoding α) (r : Registers) (t : Timed (Board μ)) :
    ((e.script r).run t).1.1 = (e.view t.bus.memory r.pc).1 := by
  obtain ⟨hresult, -⟩ := (e.script r).run_unlogged ⟨t.clock, ⟨t.bus, []⟩⟩
  rw [show (⟨t.clock, ⟨t.bus, []⟩⟩ : Timed (Logged (Board μ))).unlogged = t from rfl] at hresult
  rw [← hresult]
  exact (e.run_script r _).1

end Board

/-! ### What a view depends on -/

variable {μ ν : Type} [View μ] [View ν] {m : μ} {m' : ν}

/-- A view depends on the bytes that it counts and on no others. -/
theorem view_congr (e : Encoding α) {address : UInt16}
    (h : ∀ j < (e.view m address).2, peek m' (address + .ofNat j) = peek m (address + .ofNat j)) :
    e.view m' address = e.view m address := by
  have hstep : ∀ (next : UInt8 → Encoding α) (address : UInt16),
      (∀ b address, (∀ j < ((next b).view m address).2,
        peek m' (address + .ofNat j) = peek m (address + .ofNat j)) →
          (next b).view m' address = (next b).view m address) →
      (∀ j < ((next (peek m address)).view m (address + 1)).2 + 1,
        peek m' (address + .ofNat j) = peek m (address + .ofNat j)) →
      peek m' address = peek m address ∧
        (next (peek m address)).view m' (address + 1) =
          (next (peek m address)).view m (address + 1) := by
    intro next address ih h
    refine ⟨by simpa using h 0 (by omega), ih _ _ fun j hj => ?_⟩
    rw [add_one_add_ofNat]
    exact h (j + 1) (by omega)
  induction e generalizing address with
  | done a => rfl
  | opcode next ih =>
      obtain ⟨hfirst, hrest⟩ := hstep next address (fun b a h => ih b h) h
      simp only [view, hfirst, hrest]
  | operand next ih =>
      obtain ⟨hfirst, hrest⟩ := hstep next address (fun b a h => ih b h) h
      simp only [view, hfirst, hrest]
  | pause n next ih => exact ih h

/-- Every byte of a view takes three T-states to read, if not four. -/
theorem Within.view {e : Encoding α} {n : Nat} (h : e.Within n) (address : UInt16) :
    3 * (e.view m address).2 ≤ n := by
  induction e generalizing n address with
  | done a => exact Nat.zero_le n
  | opcode next ih =>
      have hrest := ih _ (h.2 (peek m address)) (address + 1)
      have hfirst := h.1
      show 3 * (((next (peek m address)).view m (address + 1)).2 + 1) ≤ n
      omega
  | operand next ih =>
      have hrest := ih _ (h.2 (peek m address)) (address + 1)
      have hfirst := h.1
      show 3 * (((next (peek m address)).view m (address + 1)).2 + 1) ≤ n
      omega
  | pause length next ih =>
      have hrest := ih h.2 address
      show 3 * (next.view m address).2 ≤ n
      omega

theorem view_map {γ : Type} (f : α → γ) (e : Encoding α) (address : UInt16) :
    (f <$> e).view m address = (f (e.view m address).1, (e.view m address).2) := by
  induction e generalizing address with
  | done a => rfl
  | opcode next ih =>
      show (((f <$> next (peek m address)).view m (address + 1)).1,
        ((f <$> next (peek m address)).view m (address + 1)).2 + 1) = _
      rw [ih]
      rfl
  | operand next ih =>
      show (((f <$> next (peek m address)).view m (address + 1)).1,
        ((f <$> next (peek m address)).view m (address + 1)).2 + 1) = _
      rw [ih]
      rfl
  | pause n next ih => exact ih address

end Encoding

/-! ### Whole instructions -/

namespace Opcode

variable {μ : Type} [View μ] {m : μ}

/-- The index register in force behind the prefixes of a chain: that of the last one, if there is one. -/
def lastIndex (m : μ) (start : UInt16) : (k : Nat) → Option Index → Option Index
  | 0, index => index
  | k + 1, _ => Index.ofByte? (peek m (start + .ofNat k))

theorem lastIndex_cons (start : UInt16) (k : Nat) (index : Option Index) :
    lastIndex m (start + 1) k (Index.ofByte? (peek m start)) = lastIndex m start (k + 1) index := by
  cases k with
  | zero => simp [lastIndex]
  | succ k =>
      show Index.ofByte? (peek m (start + 1 + .ofNat k)) = _
      rw [add_one_add_ofNat]
      rfl

/-- What the byte behind `k` prefixes begins, and how many bytes follow it. -/
def behind (m : μ) (start : UInt16) (k : Nat) (index : Option Index) : Instruction × Nat :=
  (unprefixed (lastIndex m start k index) (peek m (start + .ofNat k))).view m (start + .ofNat (k + 1))

theorem behind_cons (start : UInt16) (k : Nat) (index : Option Index) :
    behind m (start + 1) k (Index.ofByte? (peek m start)) = behind m start (k + 1) index := by
  unfold behind
  rw [lastIndex_cons start k index, add_one_add_ofNat, add_one_add_ofNat]

/-- What stands behind a chain stands behind every end of it that holds its last prefix. -/
theorem behind_drop (start : UInt16) (j : Nat) (index : Option Index) :
    behind m (start + .ofNat j) 1 index = behind m start (j + 1) index := by
  have hdrop : ∀ n, start + UInt16.ofNat j + UInt16.ofNat n = start + UInt16.ofNat (j + n) := by
    intro n
    rw [UInt16.ofNat_add, UInt16.add_assoc]
  simp only [behind, lastIndex, hdrop]
  rfl

/-- Behind the prefixes of a chain there are at most three bytes and an opcode. -/
theorem behind_length (m : μ) (start : UInt16) (k : Nat) (index : Option Index) :
    (behind m start k index).2 ≤ 3 := by
  have hwithin := (unprefixed_within (lastIndex m start k index) (peek m (start + .ofNat k))).view
    (m := m) (start + .ofNat (k + 1))
  unfold behind
  omega

/-- A whole instruction is the prefixes of a chain, a byte that is none, and what this byte begins. -/
theorem view_instruction {start : UInt16} {k bound : Nat} (h : Chain m start k) (hk : k < bound)
    (index : Option Index) :
    (instruction bound index).view m start =
      (some (behind m start k index).1, k + 1 + (behind m start k index).2) := by
  induction k generalizing start bound index with
  | zero =>
      obtain ⟨bound, rfl⟩ : ∃ n, bound = n + 1 := ⟨bound - 1, by omega⟩
      have hends : Index.ofByte? (peek m start) = none := by simpa using h.ends
      simp only [instruction, Encoding.view, hends, Encoding.view_map, behind, lastIndex]
      simp [Nat.add_comm]
  | succ k ih =>
      obtain ⟨bound, rfl⟩ : ∃ n, bound = n + 1 := ⟨bound - 1, by omega⟩
      obtain ⟨i, hi⟩ := Option.isSome_iff_exists.mp h.head
      have hbound : k < bound := by omega
      have hrest := ih h.tail hbound (Index.ofByte? (peek m start))
      rw [behind_cons start k index, hi] at hrest
      simp only [instruction, Encoding.view, hi, hrest]
      rw [Nat.add_right_comm (k + 1)]

/-- An instruction that is read stands behind a chain that its bound allows. -/
theorem exists_chain_of_view {start : UInt16} {bound : Nat} {index : Option Index} {i : Instruction}
    (h : ((instruction bound index).view m start).1 = some i) : ∃ k, k < bound ∧ Chain m start k := by
  induction bound generalizing start index with
  | zero => exact absurd h (by simp [instruction, Encoding.view])
  | succ bound ih =>
      cases hstart : Index.ofByte? (peek m start) with
      | none => exact ⟨0, by omega, .nil hstart⟩
      | some j =>
          simp only [instruction, Encoding.view, hstart] at h
          obtain ⟨k, hk, hchain⟩ := ih h
          exact ⟨k + 1, by omega, .cons (by rw [hstart]; rfl) hchain⟩

end Opcode

end Z80
