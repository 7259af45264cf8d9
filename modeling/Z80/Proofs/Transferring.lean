/-
Block transfers between memory and ports.

INIR, INDR, OTIR and OTDR count B down, and B is also the upper half of the port address, so each
byte of a block has a port of its own.  The input forms look at B before it is counted down, the
output forms afterwards: from a B of zero, the first port that is read is that of 00, and the first
one that is written that of FF.  Otherwise both directions are alike, which is what `Transfers` is
for: it leaves open which bytes are transferred (`value`) and what becomes of the board (`board`).
-/
import Z80.Proofs.Repeating

namespace Z80

namespace Direction

/-- Addresses less than a round of memory apart are told apart. -/
theorem along_inj {d : Direction} {address : UInt16} {i j : Nat} (hi : i < 65536) (hj : j < 65536)
    (h : d.along address i = d.along address j) : i = j := by
  have h := congrArg UInt16.toNat h
  have := address.toNat_lt
  cases d with
  | up =>
      simp only [along, UInt16.toNat_add, UInt16.toNat_ofNat'] at h
      omega
  | down =>
      simp only [along, UInt16.toNat_sub, UInt16.toNat_ofNat'] at h
      omega

end Direction

/-! ### What is transferred -/

namespace Memory

variable (d : Direction) (address : UInt16) (value : Nat → UInt8) (memory : Memory)

/-- The memory after `n` bytes have been put into it side by side. -/
def filled : (n : Nat) → Memory
  | 0 => memory
  | n + 1 => Storage.store (filled n) (d.along address n) (value n)

variable {d address value memory}

theorem peek_filled_of_lt {n i : Nat} (hn : n ≤ 65536) (hi : i < n) :
    peek (memory.filled d address value n) (d.along address i) = value i := by
  induction n with
  | zero => exact absurd hi (Nat.not_lt_zero i)
  | succ n ih =>
      rw [filled, peek_store]
      by_cases hlast : i = n
      · rw [if_pos (by rw [hlast]), hlast]
      · have hother : d.along address n ≠ d.along address i := by
          intro h
          exact hlast (Direction.along_inj (by omega) (by omega) h).symm
        rw [if_neg hother]
        exact ih (by omega) (by omega)

theorem peek_filled_of_ne {n : Nat} {other : UInt16} (h : ∀ i < n, d.along address i ≠ other) :
    peek (memory.filled d address value n) other = peek memory other := by
  induction n with
  | zero => rfl
  | succ n ih =>
      rw [filled, peek_store, if_neg (h n (Nat.lt_succ_self n))]
      exact ih fun i hi => h i (Nat.lt_succ_of_lt hi)

end Memory

namespace Ports

/-- The ports after bytes have been written to `n` of them. -/
def written (ports : Ports) (port : Nat → UInt16) (value : Nat → UInt8) (n : Nat) : Ports :=
  { ports with writes := ports.writes ++ ((List.range n).map fun i => (port i, value i)).toArray }

theorem written_zero (ports : Ports) (port : Nat → UInt16) (value : Nat → UInt8) :
    ports.written port value 0 = ports := by
  simp [written]

theorem written_succ (ports : Ports) (port : Nat → UInt16) (value : Nat → UInt8) (n : Nat) :
    ports.written port value (n + 1) = (ports.written port value n).output (port n) (value n) := by
  simp [written, output, List.range_succ]

end Ports

/-! ### Rounds -/

section Rounds

variable {board : Nat → Board Memory} {value : Nat → UInt8} {d : Direction} {s : RegisterSet}
  {b : Board Memory} {k : Nat} {after : RegisterSet × Board Memory}

/--
What `k` rounds of a block transfer make of the main registers and the board, if `value` are the
bytes it transfers.
-/
structure Transfers (board : Nat → Board Memory) (value : Nat → UInt8) (d : Direction)
    (s : RegisterSet) (k : Nat) (after : RegisterSet × Board Memory) : Prop where
  board : after.2 = board k
  hl : after.1.hl = d.along s.hl k
  b : after.1.b = s.b - .ofNat k
  c : after.1.c = s.c
  zero : 0 < k → (Flags.ofByte after.1.f).zero = (after.1.b == 0)
  subtract : 0 < k → (Flags.ofByte after.1.f).subtract = bit (value (k - 1)) 7

theorem Transfers.zero_rounds (h : board 0 = b) : Transfers board value d s 0 (s, b) where
  board := h.symm
  hl := (d.along_zero _).symm
  b := (UInt8.sub_zero _).symm
  c := rfl
  zero := fun h => absurd h (Nat.lt_irrefl 0)
  subtract := fun h => absurd h (Nat.lt_irrefl 0)

/-- Both directions count B down and set the flags after the byte. -/
theorem Transfers.succ {after' : RegisterSet × Board Memory} {v : UInt8} {sum : Nat}
    (h : Transfers board value d s k after) (hvalue : v = value k)
    (hmain : after'.1 = ({ after.1.setHL (d.next after.1.hl) with b := after.1.b - 1 } :
      RegisterSet).withFlags (Alu.blockPorted v sum (after.1.b - 1)))
    (hboard : after'.2 = board (k + 1)) : Transfers board value d s (k + 1) after' := by
  refine ⟨hboard, ?_, ?_, ?_, ?_, ?_⟩
  · rw [hmain, ← d.next_along, ← h.hl]
    exact RegisterSet.hl_setHL after.1 _
  · rw [hmain, ← byte_sub_ofNat_sub_one, ← h.b]
    rfl
  · rw [hmain, ← h.c]
    rfl
  · intro _
    rw [hmain, RegisterSet.flags_withFlags]
    rfl
  · intro _
    rw [hmain, RegisterSet.flags_withFlags, Nat.add_sub_cancel, ← hvalue]
    rfl

/-- The byte that round `k` of INIR or INDR reads. -/
def received (s : RegisterSet) (ports : Ports) (k : Nat) : UInt8 :=
  ports.input (portAddress (s.b - .ofNat k) s.c)

/-- The board after `k` rounds of INIR or INDR. -/
def receiving (d : Direction) (s : RegisterSet) (b : Board Memory) (k : Nat) : Board Memory :=
  { b with memory := b.memory.filled d s.hl (received s b.ports) k }

theorem transfers_input (d : Direction) (s : RegisterSet) (b : Board Memory) (k : Nat) :
    Transfers (receiving d s b) (received s b.ports) d s k (BlockOp.input.rounds d (s, b) k) := by
  induction k with
  | zero => exact Transfers.zero_rounds rfl
  | succ k ih =>
      rw [BlockOp.rounds]
      generalize BlockOp.input.rounds d (s, b) k = after at ih ⊢
      have hvalue : after.2.ports.input after.1.bc = received s b.ports k := by
        rw [ih.board, RegisterSet.bc, ih.b, ih.c]
        rfl
      refine ih.succ hvalue rfl ?_
      show { after.2 with
        memory := Storage.store after.2.memory after.1.hl (after.2.ports.input after.1.bc) } = _
      rw [hvalue, ih.board, ih.hl]
      rfl

/-- The byte that round `k` of OTIR or OTDR writes. -/
def sent (d : Direction) (s : RegisterSet) (memory : Memory) (k : Nat) : UInt8 :=
  peek memory (d.along s.hl k)

/-- The board after `k` rounds of OTIR or OTDR. -/
def sending (d : Direction) (s : RegisterSet) (b : Board Memory) (k : Nat) : Board Memory :=
  { b with
    ports := b.ports.written (fun i => portAddress (s.b - 1 - .ofNat i) s.c) (sent d s b.memory) k }

theorem transfers_output (d : Direction) (s : RegisterSet) (b : Board Memory) (k : Nat) :
    Transfers (sending d s b) (sent d s b.memory) d s k (BlockOp.output.rounds d (s, b) k) := by
  induction k with
  | zero =>
      refine Transfers.zero_rounds ?_
      rw [sending, Ports.written_zero]
  | succ k ih =>
      rw [BlockOp.rounds]
      generalize BlockOp.output.rounds d (s, b) k = after at ih ⊢
      have hvalue : peek after.2.memory after.1.hl = sent d s b.memory k := by
        rw [ih.board, ih.hl]
        rfl
      have hport : s.b - .ofNat k - 1 = s.b - 1 - .ofNat k := by grind
      refine ih.succ hvalue rfl ?_
      show { after.2 with
        ports := after.2.ports.output (portAddress (after.1.b - 1) after.1.c)
          (peek after.2.memory after.1.hl) } = _
      rw [hvalue, ih.board, ih.b, ih.c, hport, sending, sending, Ports.written_succ]

end Rounds

/-! ### The whole block -/

namespace Machine

/-- How many bytes INIR, INDR, OTIR and OTDR transfer. -/
def transferCount (m : Machine (Board Memory)) : Nat := countdown 256 m.cpu.regs.main.b.toNat

/-- A block transfer of `n` bytes has been carried out. -/
structure Transferred (value : Nat → UInt8) (d : Direction) (n : Nat)
    (m m' : Machine (Board Memory)) : Prop where
  hl : m'.cpu.regs.main.hl = d.along m.cpu.regs.main.hl n
  b : m'.cpu.regs.main.b = 0
  c : m'.cpu.regs.main.c = m.cpu.regs.main.c
  zero : m'.cpu.flags.zero = true
  /-- Bit 7 of the last byte. -/
  subtract : m'.cpu.flags.subtract = bit (value (n - 1)) 7

/-- What holds after `n` bytes have come in from ports. -/
structure Received (d : Direction) (n : Nat) (m m' : Machine (Board Memory)) : Prop where
  ports : m'.bus.ports = m.bus.ports
  bytes : ∀ i < n, peek m'.bus.memory (d.along m.cpu.regs.main.hl i) =
    m.bus.ports.input (portAddress (m.cpu.regs.main.b - .ofNat i) m.cpu.regs.main.c)
  others : ∀ address, (∀ i < n, d.along m.cpu.regs.main.hl i ≠ address) →
    peek m'.bus.memory address = peek m.bus.memory address

/-- What holds after `n` bytes have gone out to ports. -/
structure Sent (d : Direction) (n : Nat) (m m' : Machine (Board Memory)) : Prop where
  memory : m'.bus.memory = m.bus.memory
  inputs : m'.bus.ports.inputs = m.bus.ports.inputs
  writes : m'.bus.ports.writes = m.bus.ports.writes ++ ((List.range n).map fun i =>
    (portAddress (m.cpu.regs.main.b - 1 - .ofNat i) m.cpu.regs.main.c,
      peek m.bus.memory (d.along m.cpu.regs.main.hl i))).toArray

variable {m : Machine (Board Memory)} {op : BlockOp} {d : Direction}

theorem Sent.size_writes {n : Nat} {m' : Machine (Board Memory)} (h : m.Sent d n m') :
    m'.bus.ports.writes.size = m.bus.ports.writes.size + n := by
  simp [h.writes]

/-- Whichever way the bytes go, the transfer ends when B has been counted down. -/
theorem Poised.transfers {board : Nat → Board Memory} {value : Nat → UInt8}
    (h : m.Poised op d m.transferCount) (hop : ∀ s, op.more s = (s.b != 0))
    (hrounds : ∀ k, Transfers board value d m.cpu.regs.main k
      (op.rounds d (m.cpu.regs.main, m.bus) k))
    (hspares : BlockOp.Spares (fun k => (board k).memory) m.cpu.regs.pc m.transferCount)
    (bound : Nat) :
    ∃ m', m.Completes (bound + 1) op d m.transferCount m' ∧
      m.Transferred value d m.transferCount m' ∧ m'.bus = board m.transferCount := by
  have hpos : 0 < m.transferCount := countdown_pos (by decide) _
  have hcode : ∀ k < m.transferCount, op.StandsAt d
      (op.rounds d (m.cpu.regs.main, m.bus) k).2.memory m.cpu.regs.pc := by
    intro k hk
    have hstart : m.bus = board 0 := (hrounds 0).board
    have hcode := h.code
    rw [hstart] at hcode
    rw [(hrounds k).board]
    exact hspares.standsAt hcode k hk
  have hends : ∀ k, 0 < k → k ≤ m.transferCount →
      (op.more (op.rounds d (m.cpu.regs.main, m.bus) k).1 = false ↔ k = m.transferCount) := by
    intro k hk hle
    rw [hop, (hrounds k).b, bne_eq_false_iff_eq]
    exact byte_sub_ofNat_eq_zero_iff hk hle
  obtain ⟨m', hcompletes, hstate⟩ := h.completes hpos hcode hends bound
  have hend := hrounds m.transferCount
  rw [← hstate] at hend
  have hb : m'.cpu.regs.main.b = 0 := by
    rw [hend.b]
    exact (byte_sub_ofNat_eq_zero_iff hpos (Nat.le_refl _)).mpr rfl
  have hzero := hend.zero hpos
  rw [hb] at hzero
  exact ⟨m', hcompletes, ⟨hend.hl, hb, hend.c, hzero, hend.subtract hpos⟩, hend.board⟩

/--
**A block transfer moves one byte for each value that B goes through.**  It takes one step for each
of them.  What comes in is the input of the ports from B downwards, and nothing else is altered;
what goes out is written to the ports below B, in order.  Bytes that come in may overwrite the
instruction, but only the last one may alter it.
-/
theorem transfers_block (m : Machine (Board Memory)) (d : Direction) (bound : Nat) :
    (m.Poised .input d m.transferCount →
      BlockOp.Spares (m.bus.memory.filled d m.cpu.regs.main.hl
        (received m.cpu.regs.main m.bus.ports)) m.cpu.regs.pc m.transferCount →
      ∃ m', m.Completes (bound + 1) .input d m.transferCount m' ∧
        m.Transferred (received m.cpu.regs.main m.bus.ports) d m.transferCount m' ∧
        m.Received d m.transferCount m') ∧
    (m.Poised .output d m.transferCount →
      ∃ m', m.Completes (bound + 1) .output d m.transferCount m' ∧
        m.Transferred (sent d m.cpu.regs.main m.bus.memory) d m.transferCount m' ∧
        m.Sent d m.transferCount m') := by
  constructor
  · intro h hspares
    obtain ⟨m', hcompletes, htransferred, hboard⟩ :=
      h.transfers (fun _ => rfl) (transfers_input d m.cpu.regs.main m.bus) hspares bound
    have hle : m.transferCount ≤ 256 := countdown_le m.cpu.regs.main.b.toNat_lt
    refine ⟨m', hcompletes, htransferred, ?_, ?_, ?_⟩
    · rw [hboard]
      rfl
    · intro i hi
      rw [hboard]
      exact Memory.peek_filled_of_lt (by omega) hi
    · intro address hother
      rw [hboard]
      exact Memory.peek_filled_of_ne hother
  · intro h
    obtain ⟨m', hcompletes, htransferred, hboard⟩ :=
      h.transfers (fun _ => rfl) (transfers_output d m.cpu.regs.main m.bus)
        (fun _ _ => ⟨rfl, rfl⟩) bound
    refine ⟨m', hcompletes, htransferred, ?_, ?_, ?_⟩
    · rw [hboard]
      rfl
    · rw [hboard]
      rfl
    · rw [hboard]
      rfl

/-- An INIR reads two ports, and an OTIR whose B is zero writes to all 256 ports with its C. -/
theorem transfers_block_both :
    ∃ i i' o o' : Machine (Board Memory),
      i.bus = { Board.blank.load 0 [0xED, 0xB2] with
        ports := (Ports.unconnected.connect 0x0210 0x7F).connect 0x0110 0x81 } ∧
      i.cpu.regs.main.b = 2 ∧ i.cpu.regs.main.c = 0x10 ∧ i.cpu.regs.main.hl = 4 ∧
      i.Completes 1 .input .up 2 i' ∧
      ([4, 5, 6].map fun a => peek i'.bus.memory a) = [0x7F, 0x81, 0x00] ∧
      i'.cpu.flags.subtract = true ∧
      o.bus = Board.blank.load 0 [0xED, 0xB3] ∧ o.cpu.regs.main.b = 0 ∧ o.cpu.regs.main.c = 0x10 ∧
      o.Completes 1 .output .up 256 o' ∧ o'.bus.ports.writes.size = 256 ∧
      o'.cpu.flags.subtract = false := by
  obtain ⟨i', hi, hin, hreceived⟩ := (transfers_block
    ((powerOn .standard { Board.blank.load 0 [0xED, 0xB2] with
      ports := (Ports.unconnected.connect 0x0210 0x7F).connect 0x0110 0x81 }).mapCpu fun cpu =>
        ((cpu.set8 .b 2).set8 .c 0x10).set8 .l 4) .up 0).1 ⟨rfl, fun _ => rfl, rfl, rfl⟩ (by
      intro k hk
      obtain rfl : k = 0 := Nat.lt_one_iff.mp (Nat.lt_of_succ_lt_succ hk)
      exact ⟨Memory.peek_filled_of_ne (by decide), Memory.peek_filled_of_ne (by decide)⟩)
  obtain ⟨o', ho, hout, hsent⟩ := (transfers_block
    ((powerOn .standard (Board.blank.load 0 [0xED, 0xB3])).mapCpu (·.set8 .c 0x10)) .up 0).2
    ⟨rfl, fun _ => rfl, rfl, rfl⟩
  refine ⟨_, i', _, o', rfl, rfl, rfl, rfl, hi, ?_, ?_, rfl, rfl, rfl, ho, ?_, ?_⟩
  · have h4 : peek i'.bus.memory 4 = 0x7F := hreceived.bytes 0 (by decide)
    have h5 : peek i'.bus.memory 5 = 0x81 := hreceived.bytes 1 (by decide)
    have h6 : peek i'.bus.memory 6 = 0x00 := hreceived.others 6 (by decide)
    simp only [List.map_cons, List.map_nil, h4, h5, h6]
  · exact hin.subtract
  · exact hsent.size_writes
  · exact hout.subtract

end Machine

end Z80
