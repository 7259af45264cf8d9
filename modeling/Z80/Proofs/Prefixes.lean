/-
Chains of prefixes.

Nothing but memory limits how many DD and FD bytes stand in front of an opcode, so
`Opcode.instruction` takes a bound on them and has no result when it is reached.  The bound
decides whether there is a result and not which: a larger one reads the same instruction in
the same way (`instruction_mono`).

On the plain board the bytes read are those in memory, and reading leaves memory as it is.
A chain that comes to an end is then shorter than memory is large, because after 65536
prefixes it is back at its start and goes on for ever.  That is `Chain.lt`, and it bounds
the time that reading an instruction can take.
-/
import Z80.Proofs.Reading

namespace Z80

/-- The address `n` bytes behind the next one. -/
theorem add_one_add_ofNat (address : UInt16) (n : Nat) :
    address + 1 + UInt16.ofNat n = address + UInt16.ofNat (n + 1) := by
  rw [UInt16.ofNat_add, UInt16.add_assoc, UInt16.add_comm 1]
  rfl

/-- Exactly `k` prefixes stand from an address on, before a byte that is none. -/
structure Chain {μ : Type} [View μ] (m : μ) (start : UInt16) (k : Nat) : Prop where
  prefixes : ∀ j < k, (Index.ofByte? (peek m (start + UInt16.ofNat j))).isSome = true
  ends : Index.ofByte? (peek m (start + UInt16.ofNat k)) = none

namespace Chain

variable {μ : Type} [View μ] {m : μ} {start : UInt16} {k : Nat}

/-- A chain that ends does not go round memory. -/
theorem lt (h : Chain m start k) : k < 2 ^ 16 := by
  refine Nat.lt_of_not_le fun hge => ?_
  have hround : UInt16.ofNat k = UInt16.ofNat (k - 2 ^ 16) := by
    apply UInt16.toNat_inj.mp
    rw [UInt16.toNat_ofNat', UInt16.toNat_ofNat']
    omega
  have hindex := h.prefixes (k - 2 ^ 16) (by omega)
  rw [← hround, h.ends] at hindex
  exact absurd hindex (by simp)

theorem nil (h : Index.ofByte? (peek m start) = none) : Chain m start 0 := by
  refine ⟨fun j hj => absurd hj (Nat.not_lt_zero j), ?_⟩
  simpa using h

/-- One prefix more in front of a chain. -/
theorem cons (hindex : (Index.ofByte? (peek m start)).isSome = true) (h : Chain m (start + 1) k) :
    Chain m start (k + 1) := by
  refine ⟨?_, ?_⟩
  · intro j hj
    cases j with
    | zero => simpa using hindex
    | succ j =>
        rw [← add_one_add_ofNat]
        exact h.prefixes j (by omega)
  · rw [← add_one_add_ofNat]
    exact h.ends

/-- Behind its first prefix a chain is one shorter. -/
theorem tail (h : Chain m start (k + 1)) : Chain m (start + 1) k := by
  refine ⟨?_, ?_⟩
  · intro j hj
    rw [add_one_add_ofNat]
    exact h.prefixes (j + 1) (by omega)
  · rw [add_one_add_ofNat]
    exact h.ends

/-- A chain with prefixes begins with one. -/
theorem head (h : Chain m start (k + 1)) : (Index.ofByte? (peek m start)).isSome = true := by
  simpa using h.prefixes 0 (by omega)

/-- What is left of a chain behind its first prefixes. -/
theorem drop {j : Nat} (h : Chain m start (j + k)) : Chain m (start + UInt16.ofNat j) k := by
  induction j generalizing start with
  | zero =>
      rw [Nat.zero_add] at h
      simpa using h
  | succ j ih =>
      rw [Nat.add_right_comm] at h
      rw [← add_one_add_ofNat]
      exact ih h.tail

/-- Where memory holds a byte that is no prefix, a chain comes to an end. -/
theorem exists_of_mem {address : UInt16} (h : Index.ofByte? (peek m address) = none) (start : UInt16) :
    ∃ k, Chain m start k := by
  -- the induction is on the distance to that byte, round the top of memory if need be
  generalize hn : (address - start).toNat = n
  induction n generalizing start with
  | zero =>
      have heq : start = address := by
        have hzero : address - start = 0 := UInt16.toNat_inj.mp hn
        rw [← UInt16.sub_add_cancel address start, hzero, UInt16.zero_add]
      exact ⟨0, .nil (heq ▸ h)⟩
  | succ n ih =>
      cases hstart : Index.ofByte? (peek m start) with
      | none => exact ⟨0, .nil hstart⟩
      | some i =>
          have hnext : (address - (start + 1)).toNat = n := by
            have hsub : address - (start + 1) = (address - start) - 1 := by grind
            have hle : 1 ≤ address - start := by
              rw [UInt16.le_iff_toNat_le, hn]
              exact Nat.le_add_left 1 n
            rw [hsub, UInt16.toNat_sub_of_le _ _ hle, hn]
            rfl
          obtain ⟨k, hk⟩ := ih (start + 1) hnext
          exact ⟨k + 1, .cons (by rw [hstart]; rfl) hk⟩

end Chain

namespace Opcode

section AnyBus

variable {β : Type} [Bus β]

/-- Reading fetches a byte and goes on with a prefix or with what no prefix begins. -/
theorem run_instruction_succ (bound : Nat) (index : Option Index) (r : Registers) (t : Timed β) :
    ((instruction (bound + 1) index).script r).run t =
      ((match Index.ofByte? ((Cycle.fetch r.pc).perform t).1 with
        | some i => instruction bound (some i)
        | none => some <$> unprefixed index ((Cycle.fetch r.pc).perform t).1).script
          (({ r with pc := r.pc + 1 } : Registers).refresh 1)).run ((Cycle.fetch r.pc).perform t).2 := rfl

/-- With a larger bound on the prefixes the same instruction is read in the same way. -/
theorem instruction_mono {bound bound' : Nat} (hle : bound ≤ bound') {index : Option Index}
    {r : Registers} {t : Timed β} {i : Instruction}
    (h : (((instruction bound index).script r).run t).1.1 = some i) :
    ((instruction bound' index).script r).run t = ((instruction bound index).script r).run t := by
  induction bound generalizing bound' index r t with
  | zero => simp [instruction, Encoding.script, Script.run] at h
  | succ bound ih =>
      obtain ⟨bound', rfl⟩ : ∃ n, bound' = n + 1 := ⟨bound' - 1, by omega⟩
      rw [run_instruction_succ] at h
      rw [run_instruction_succ, run_instruction_succ]
      cases hop : Index.ofByte? ((Cycle.fetch r.pc).perform t).1 with
      | some i =>
          rw [hop] at h
          exact ih (by omega) h
      | none => rfl

end AnyBus

/-! ### Reading from the plain board -/

theorem perform_fetch (address : UInt16) (t : Timed (Board Memory)) :
    (Cycle.fetch address).perform t = (peek t.bus.memory address, t.advance 4) := by
  simp [Cycle.perform, Cycle.access?, Timed.access, Bus.respond, Storage.wait, Cycle.length,
    Timed.advance, peek]

/-- An instruction that is read at all is read in less time than memory is long. -/
theorem instruction_time {bound : Nat} {index : Option Index} {r : Registers}
    {t : Timed (Board Memory)} {i : Instruction}
    (h : (((instruction bound index).script r).run t).1.1 = some i) :
    ∃ k, Chain t.bus.memory r.pc k ∧ ∃ n, n ≤ 4 * k + 14 ∧
      Clock.Elapsed n t.clock (((instruction bound index).script r).run t).2.clock := by
  induction bound generalizing index r t with
  | zero => simp [instruction, Encoding.script, Script.run] at h
  | succ bound ih =>
      have hfetch : Clock.Elapsed 4 t.clock (t.advance 4).clock := .advance _ 4
      rw [run_instruction_succ, perform_fetch] at h ⊢
      cases hop : Index.ofByte? (peek t.bus.memory r.pc) with
      | some i =>
          simp only [hop] at h ⊢
          obtain ⟨k, hchain, n, hn, helapsed⟩ := ih h
          refine ⟨k + 1, Chain.cons (by rw [hop]; rfl) hchain, 4 + n, by omega, ?_⟩
          exact hfetch.trans helapsed
      | none =>
          simp only [hop, Encoding.script_map, Script.run_map] at h ⊢
          have hwithin := (unprefixed_within index (peek t.bus.memory r.pc)).ensures
            (({ r with pc := r.pc + 1 } : Registers).refresh 1)
          obtain ⟨n, hn, helapsed⟩ := hwithin.run_prompt (t := t.advance 4) (Board.prompt _)
          exact ⟨0, .nil hop, 4 + n, by omega, hfetch.trans helapsed⟩

end Opcode

end Z80
