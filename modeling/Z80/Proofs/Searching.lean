/-
Block searches.

CPIR and CPDR compare byte after byte with the accumulator, and end for either of two reasons, which
may come together: the byte is the one looked for, or the count has gone through.  Nothing is
written on the way, so which byte ends the search can be read off memory beforehand.  `comparisons`
counts up to it, and the zero flag tells afterwards whether it was found, the parity flag whether
some of the count is left.
-/
import Z80.Proofs.Repeating

namespace Z80

/--
How many of `n` things are looked at, one after the other, if the first with a property ends the
search.
-/
def comparisons (p : Nat → Bool) (n : Nat) : Nat :=
  match (List.range n).find? p with
  | some i => i + 1
  | none => n

theorem comparisons_of_find?_eq_some {p : Nat → Bool} {n i : Nat}
    (h : (List.range n).find? p = some i) : comparisons p n = i + 1 := by
  rw [comparisons, h]

theorem comparisons_of_find?_eq_none {p : Nat → Bool} {n : Nat}
    (h : (List.range n).find? p = none) : comparisons p n = n := by
  rw [comparisons, h]

theorem comparisons_pos {p : Nat → Bool} {n : Nat} (hn : 0 < n) : 0 < comparisons p n := by
  cases hfind : (List.range n).find? p with
  | some i =>
      rw [comparisons_of_find?_eq_some hfind]
      exact Nat.succ_pos i
  | none =>
      rw [comparisons_of_find?_eq_none hfind]
      exact hn

theorem comparisons_le (p : Nat → Bool) (n : Nat) : comparisons p n ≤ n := by
  cases hfind : (List.range n).find? p with
  | some i =>
      rw [comparisons_of_find?_eq_some hfind]
      exact List.mem_range.mp (List.mem_of_find?_eq_some hfind)
  | none => exact Nat.le_of_eq (comparisons_of_find?_eq_none hfind)

/-- Whoever looks at one after the other can tell when to stop: there are no more, or it was it. -/
theorem eq_comparisons_iff {p : Nat → Bool} {n k : Nat} (hk : 0 < k) (hle : k ≤ comparisons p n) :
    k = comparisons p n ↔ k = n ∨ p (k - 1) = true := by
  cases hfind : (List.range n).find? p with
  | some i =>
      obtain ⟨hfound, hi, hbefore⟩ := List.find?_range_eq_some.mp hfind
      rw [List.mem_range] at hi
      rw [comparisons_of_find?_eq_some hfind] at hle ⊢
      constructor
      · intro h
        rw [h]
        exact .inr hfound
      · intro h
        rcases h with h | h
        · omega
        · by_cases hlast : k - 1 = i
          · omega
          · have := hbefore (k - 1) (by omega)
            rw [h] at this
            exact absurd this Bool.false_ne_true
  | none =>
      rw [comparisons_of_find?_eq_none hfind] at hle ⊢
      constructor
      · exact .inl
      · intro h
        rcases h with h | h
        · exact h
        · exact absurd h (List.find?_eq_none.mp hfind (k - 1) (List.mem_range.mpr (by omega)))

section Rounds

variable {d : Direction} {s : RegisterSet} {b : Board Memory} {k : Nat}
  {after : RegisterSet × Board Memory}

/-- What `k` rounds of a block search make of the main registers and the board. -/
structure Searches (d : Direction) (s : RegisterSet) (b : Board Memory) (k : Nat)
    (after : RegisterSet × Board Memory) : Prop where
  board : after.2 = b
  hl : after.1.hl = d.along s.hl k
  bc : after.1.bc = s.bc - .ofNat k
  a : after.1.a = s.a
  carry : (Flags.ofByte after.1.f).carry = (Flags.ofByte s.f).carry
  zero : 0 < k →
    (Flags.ofByte after.1.f).zero = (s.a == peek b.memory (d.along s.hl (k - 1)))
  subtract : 0 < k → (Flags.ofByte after.1.f).subtract = true
  parity : 0 < k → (Flags.ofByte after.1.f).parity = (after.1.bc != 0)

theorem Searches.zero_rounds : Searches d s b 0 (s, b) where
  board := rfl
  hl := (d.along_zero _).symm
  bc := (UInt16.sub_zero _).symm
  a := rfl
  carry := rfl
  zero := fun h => absurd h (Nat.lt_irrefl 0)
  subtract := fun h => absurd h (Nat.lt_irrefl 0)
  parity := fun h => absurd h (Nat.lt_irrefl 0)

/-- One round more compares one byte more, which the zero flag tells of from then on. -/
theorem Searches.round (h : Searches d s b k after) :
    Searches d s b (k + 1) (BlockOp.compare.round d after) where
  board := h.board
  hl := by simp [BlockOp.round, h.hl]
  bc := by simp [BlockOp.round, h.bc, sub_ofNat_sub_one]
  a := h.a
  carry := by simp [BlockOp.round, Alu.blockCompared, h.carry]
  zero := by simp [BlockOp.round, Cpu.blockCompared_zero, h.a, h.board, h.hl]
  subtract := by simp [BlockOp.round, Alu.blockCompared]
  parity := by simp [BlockOp.round, Alu.blockCompared]

theorem searches_rounds (d : Direction) (s : RegisterSet) (b : Board Memory) (k : Nat) :
    Searches d s b k (BlockOp.compare.rounds d (s, b) k) := by
  induction k with
  | zero => exact Searches.zero_rounds
  | succ k ih => exact ih.round

end Rounds

namespace Machine

/-- How many bytes CPIR and CPDR compare. -/
def searchCount (m : Machine (Board Memory)) (d : Direction) : Nat :=
  comparisons (fun i => peek m.bus.memory (d.along m.cpu.regs.main.hl i) == m.cpu.regs.main.a)
    (countdown 65536 m.cpu.regs.main.bc.toNat)

/-- A block search has been carried out that has compared `n` bytes. -/
structure Searched (d : Direction) (n : Nat) (m m' : Machine (Board Memory)) : Prop where
  board : m'.bus = m.bus
  hl : m'.cpu.regs.main.hl = d.along m.cpu.regs.main.hl n
  bc : m'.cpu.regs.main.bc = m.cpu.regs.main.bc - .ofNat n
  a : m'.cpu.regs.main.a = m.cpu.regs.main.a
  carry : m'.cpu.flags.carry = m.cpu.flags.carry
  subtract : m'.cpu.flags.subtract = true
  /-- The last byte is the one looked for. -/
  zero : m'.cpu.flags.zero =
    (peek m.bus.memory (d.along m.cpu.regs.main.hl (n - 1)) == m.cpu.regs.main.a)
  /-- Some of the count is left. -/
  parity : m'.cpu.flags.parity = (m'.cpu.regs.main.bc != 0)

/--
**A block search ends at the first byte it looks for, or with its count.**  It takes one step for
each comparison.
-/
theorem Poised.searches {m : Machine (Board Memory)} {d : Direction}
    (h : m.Poised .compare d (m.searchCount d)) (bound : Nat) :
    ∃ m', m.Completes (bound + 1) .compare d (m.searchCount d) m' ∧
      m.Searched d (m.searchCount d) m' := by
  have hpos : 0 < m.searchCount d := comparisons_pos (countdown_pos (by decide) _)
  have hle : m.searchCount d ≤ countdown 65536 m.cpu.regs.main.bc.toNat := comparisons_le _ _
  have hafter := searches_rounds d m.cpu.regs.main m.bus
  have hcode : ∀ k < m.searchCount d, BlockOp.compare.StandsAt d
      (BlockOp.compare.rounds d (m.cpu.regs.main, m.bus) k).2.memory m.cpu.regs.pc := by
    intro k _
    rw [(hafter k).board]
    exact h.code
  have hends : ∀ k, 0 < k → k ≤ m.searchCount d →
      (BlockOp.compare.more (BlockOp.compare.rounds d (m.cpu.regs.main, m.bus) k).1 = false ↔
        k = m.searchCount d) := by
    intro k hk hk'
    rw [searchCount, eq_comparisons_iff hk hk', BlockOp.more, Bool.and_eq_false_iff,
      bne_eq_false_iff_eq, (hafter k).bc, sub_ofNat_eq_zero_iff hk (Nat.le_trans hk' hle),
      Bool.not_eq_false', (hafter k).zero hk, BEq.comm]
  obtain ⟨m', hcompletes, hstate⟩ := h.completes hpos hcode hends bound
  have hend := hafter (m.searchCount d)
  rw [← hstate] at hend
  exact ⟨m', hcompletes, hend.board, hend.hl, hend.bc, hend.a, hend.carry, hend.subtract hpos,
    (hend.zero hpos).trans BEq.comm, hend.parity hpos⟩

/-- A CPIR finds a byte, which is not the last one of its count. -/
theorem searches_found :
    ∃ m m' : Machine (Board Memory), m.bus = Board.blank.load 0 [0xED, 0xB1, 0x05, 0x06, 0x07] ∧
      m.cpu.regs.main.hl = 2 ∧ m.cpu.regs.main.bc = 3 ∧ m.cpu.regs.main.a = 6 ∧
      m.Completes 1 .compare .up 2 m' ∧ m.Searched .up 2 m' ∧ m'.cpu.regs.main.hl = 4 ∧
      m'.cpu.regs.main.bc = 1 ∧ m'.cpu.flags.zero = true ∧ m'.cpu.flags.parity = true := by
  obtain ⟨m', hcompletes, hsearched⟩ := Poised.searches (d := .up)
    (m := (powerOn .standard (Board.blank.load 0 [0xED, 0xB1, 0x05, 0x06, 0x07])).mapCpu fun cpu =>
      ((cpu.set16 .hl 2).set16 .bc 3).set8 .a 6)
    ⟨rfl, fun _ => rfl, rfl, rfl⟩ 0
  refine ⟨_, m', rfl, rfl, rfl, rfl, hcompletes, hsearched, hsearched.hl, hsearched.bc,
    hsearched.zero, ?_⟩
  rw [hsearched.parity, hsearched.bc]
  rfl

end Machine

end Z80
