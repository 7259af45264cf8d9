/-
Block copies.

LDIR and LDDR move a byte in each round, and when they come to the next byte they look at the memory
that the bytes before it have already been moved in.  So a copy onto a range that it overlaps from
behind repeats what lies in front of it: that is how programs fill memory.  `Memory.copied` says it
as assignments, one after the other, and a copy does just these, through all of memory if the count
is zero.  Nothing else is known of the ranges: they may overlap, go round the end of memory, or hold
the instruction itself, as long as its two bytes are not altered before the last round.
-/
import Z80.Proofs.Repeating

namespace Z80

/-- The memory after `n` bytes have been assigned to others, one after the other. -/
def Memory.copied (d : Direction) (source target : UInt16) (memory : Memory) : (n : Nat) → Memory
  | 0 => memory
  | n + 1 =>
    let memory := copied d source target memory n
    Storage.store memory (d.along target n) (peek memory (d.along source n))

section Rounds

variable {d : Direction} {s : RegisterSet} {b : Board Memory} {k : Nat}
  {after : RegisterSet × Board Memory}

/-- What `k` rounds of a block copy make of the main registers and the board. -/
structure Copies (d : Direction) (s : RegisterSet) (b : Board Memory) (k : Nat)
    (after : RegisterSet × Board Memory) : Prop where
  board : after.2 = { b with memory := b.memory.copied d s.hl s.de k }
  hl : after.1.hl = d.along s.hl k
  de : after.1.de = d.along s.de k
  bc : after.1.bc = s.bc - .ofNat k
  a : after.1.a = s.a
  sign : (Flags.ofByte after.1.f).sign = (Flags.ofByte s.f).sign
  zero : (Flags.ofByte after.1.f).zero = (Flags.ofByte s.f).zero
  carry : (Flags.ofByte after.1.f).carry = (Flags.ofByte s.f).carry
  half : 0 < k → (Flags.ofByte after.1.f).half = false
  subtract : 0 < k → (Flags.ofByte after.1.f).subtract = false
  parity : 0 < k → (Flags.ofByte after.1.f).parity = (after.1.bc != 0)

theorem Copies.zero_rounds : Copies d s b 0 (s, b) where
  board := rfl
  hl := (d.along_zero _).symm
  de := (d.along_zero _).symm
  bc := (UInt16.sub_zero _).symm
  a := rfl
  sign := rfl
  zero := rfl
  carry := rfl
  half := fun h => absurd h (Nat.lt_irrefl 0)
  subtract := fun h => absurd h (Nat.lt_irrefl 0)
  parity := fun h => absurd h (Nat.lt_irrefl 0)

/-- One round more moves one byte more, and sets the flags anew. -/
theorem Copies.round (h : Copies d s b k after) :
    Copies d s b (k + 1) (BlockOp.load.round d after) where
  board := by simp [BlockOp.round, h.board, h.hl, h.de, Memory.copied]
  hl := by simp [BlockOp.round, h.hl]
  de := by simp [BlockOp.round, h.de]
  bc := by simp [BlockOp.round, h.bc, sub_ofNat_sub_one]
  a := h.a
  sign := by simp [BlockOp.round, Alu.blockLoaded, h.sign]
  zero := by simp [BlockOp.round, Alu.blockLoaded, h.zero]
  carry := by simp [BlockOp.round, Alu.blockLoaded, h.carry]
  half := by simp [BlockOp.round, Alu.blockLoaded]
  subtract := by simp [BlockOp.round, Alu.blockLoaded]
  parity := by simp [BlockOp.round, Alu.blockLoaded]

theorem copies_rounds (d : Direction) (s : RegisterSet) (b : Board Memory) (k : Nat) :
    Copies d s b k (BlockOp.load.rounds d (s, b) k) := by
  induction k with
  | zero => exact Copies.zero_rounds
  | succ k ih => exact ih.round

end Rounds

namespace Machine

/-- How many bytes LDIR and LDDR move. -/
def copyCount (m : Machine (Board Memory)) : Nat := countdown 65536 m.cpu.regs.main.bc.toNat

/-- A block copy of `n` bytes has been carried out. -/
structure Copied (d : Direction) (n : Nat) (m m' : Machine (Board Memory)) : Prop where
  board : m'.bus =
    { m.bus with memory := m.bus.memory.copied d m.cpu.regs.main.hl m.cpu.regs.main.de n }
  hl : m'.cpu.regs.main.hl = d.along m.cpu.regs.main.hl n
  de : m'.cpu.regs.main.de = d.along m.cpu.regs.main.de n
  bc : m'.cpu.regs.main.bc = 0
  a : m'.cpu.regs.main.a = m.cpu.regs.main.a
  sign : m'.cpu.flags.sign = m.cpu.flags.sign
  zero : m'.cpu.flags.zero = m.cpu.flags.zero
  carry : m'.cpu.flags.carry = m.cpu.flags.carry
  half : m'.cpu.flags.half = false
  subtract : m'.cpu.flags.subtract = false
  parity : m'.cpu.flags.parity = false
  /-- The instruction that does not repeat itself does the same if it is carried out `n` times. -/
  main_times : ((m.cpu.times (.block .load d false) n).run m.outside).1.regs.main = m'.cpu.regs.main
  bus_times : ((m.cpu.times (.block .load d false) n).run m.outside).2.bus = m'.bus

/--
**A block copy assigns byte after byte, in memory as it is by then.**  It takes one step for each
byte, all of memory if the count is zero, and leaves what as many single copies would leave.  It is
enough that no byte but the last one alters the instruction.
-/
theorem Poised.copies {m : Machine (Board Memory)} {d : Direction}
    (h : m.Poised .load d m.copyCount)
    (hspares : BlockOp.Spares (m.bus.memory.copied d m.cpu.regs.main.hl m.cpu.regs.main.de)
      m.cpu.regs.pc m.copyCount) (bound : Nat) :
    ∃ m', m.Completes (bound + 1) .load d m.copyCount m' ∧ m.Copied d m.copyCount m' := by
  have hpos : 0 < m.copyCount := countdown_pos (by decide) _
  have hafter := copies_rounds d m.cpu.regs.main m.bus
  have hcode : ∀ k < m.copyCount, BlockOp.load.StandsAt d
      (BlockOp.load.rounds d (m.cpu.regs.main, m.bus) k).2.memory m.cpu.regs.pc := by
    intro k hk
    rw [(hafter k).board]
    exact hspares.standsAt h.code k hk
  have hends : ∀ k, 0 < k → k ≤ m.copyCount →
      (BlockOp.load.more (BlockOp.load.rounds d (m.cpu.regs.main, m.bus) k).1 = false ↔
        k = m.copyCount) := by
    intro k hk hle
    rw [BlockOp.more, (hafter k).bc, bne_eq_false_iff_eq]
    exact sub_ofNat_eq_zero_iff hk hle
  obtain ⟨m', hcompletes, hstate⟩ := h.completes hpos hcode hends bound
  have hend := hafter m.copyCount
  rw [← hstate] at hend
  have hbc : m'.cpu.regs.main.bc = 0 := by
    rw [hend.bc]
    exact (sub_ofNat_eq_zero_iff hpos (Nat.le_refl _)).mpr rfl
  have hparity := hend.parity hpos
  rw [hbc] at hparity
  have htimes := (m.cpu.run_times .load d m.outside m.copyCount).trans hstate.symm
  exact ⟨m', hcompletes, hend.board, hend.hl, hend.de, hbc, hend.a, hend.sign, hend.zero,
    hend.carry, hend.half hpos, hend.subtract hpos, hparity, congrArg (·.1) htimes,
    congrArg (·.2) htimes⟩

/-- An LDIR onto the range one further on fills it with the byte in front. -/
theorem copies_filling :
    ∃ m m' : Machine (Board Memory), m.bus = Board.blank.load 0 [0xED, 0xB0, 0xAA] ∧
      m.cpu.regs.main.hl = 2 ∧ m.cpu.regs.main.de = 3 ∧ m.cpu.regs.main.bc = 3 ∧
      m.Completes 1 .load .up 3 m' ∧ m.Copied .up 3 m' ∧
      ([2, 3, 4, 5, 6].map fun a => peek m'.bus.memory a) = [0xAA, 0xAA, 0xAA, 0xAA, 0x00] := by
  have hspares : BlockOp.Spares
      ((Board.blank.load 0 [0xED, 0xB0, 0xAA]).memory.copied .up 2 3) 0 3 := by
    intro k hk
    obtain rfl | rfl : k = 0 ∨ k = 1 := by omega
    · simp [Memory.copied, Memory.peek_store, Direction.along]
    · simp [Memory.copied, Memory.peek_store, Direction.along]
  obtain ⟨m', hcompletes, hcopied⟩ := Poised.copies (d := .up)
    (m := (powerOn .standard (Board.blank.load 0 [0xED, 0xB0, 0xAA])).mapCpu fun cpu =>
      ((cpu.set16 .hl 2).set16 .de 3).set16 .bc 3)
    ⟨rfl, fun _ => rfl, rfl, rfl⟩ hspares 0
  refine ⟨_, m', rfl, rfl, rfl, rfl, hcompletes, hcopied, ?_⟩
  rw [hcopied.board]
  rfl

end Machine

end Z80
