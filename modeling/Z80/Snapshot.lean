/-
Snapshots.

A `Snapshot` is the part of a processor's state that snapshot files carry: the registers
a program can see, the interrupt mode and the two flip-flops.  What it leaves out is
whether the processor is halted, the internal address register, the shadow of EI and the
memory of computed flags; loading a snapshot clears all of them but the address register,
which stays.  There are only three interrupt modes, so a larger number counts as 2.
-/
import Z80.Machine

namespace Z80

/-- What snapshot files say about a processor. -/
structure Snapshot where
  af : UInt16
  bc : UInt16
  de : UInt16
  hl : UInt16
  afAlternate : UInt16
  bcAlternate : UInt16
  deAlternate : UInt16
  hlAlternate : UInt16
  ix : UInt16
  iy : UInt16
  sp : UInt16
  pc : UInt16
  i : UInt8
  r : UInt8
  im : UInt8
  iff1 : Bool
  iff2 : Bool
deriving DecidableEq, Repr

namespace RegisterSet

/-- The set that holds four given pairs. -/
def ofPairs (af bc de hl : UInt16) : RegisterSet :=
  ⟨Word.high af, Word.low af, Word.high bc, Word.low bc,
    Word.high de, Word.low de, Word.high hl, Word.low hl⟩

end RegisterSet

namespace Registers

/-- The snapshot of a register file. -/
def snapshot (r : Registers) : Snapshot :=
  { af := r.main.af, bc := r.main.bc, de := r.main.de, hl := r.main.hl
    afAlternate := r.alternate.af, bcAlternate := r.alternate.bc
    deAlternate := r.alternate.de, hlAlternate := r.alternate.hl
    ix := r.ix, iy := r.iy, sp := r.sp, pc := r.pc
    i := r.i, r := r.r, im := r.im, iff1 := r.iff1, iff2 := r.iff2 }

/-- The register file after a snapshot has been loaded. -/
def restore (r : Registers) (s : Snapshot) : Registers :=
  { r with
    main := .ofPairs s.af s.bc s.de s.hl
    alternate := .ofPairs s.afAlternate s.bcAlternate s.deAlternate s.hlAlternate
    ix := s.ix, iy := s.iy, sp := s.sp, pc := s.pc
    i := s.i, r := s.r, im := min s.im 2
    iff1 := s.iff1, iff2 := s.iff2, halted := false }

end Registers

namespace Cpu

/-- The snapshot of a processor. -/
def snapshot (cpu : Cpu) : Snapshot := cpu.regs.snapshot

/-- The processor after a snapshot has been loaded. -/
def restore (cpu : Cpu) (s : Snapshot) : Cpu :=
  { cpu with regs := cpu.regs.restore s, shadow := false, q := 0, previousQ := 0 }

end Cpu

/-- Loads a snapshot and says so. -/
def Machine.restore {β : Type} (m : Machine β) (s : Snapshot) : Machine β :=
  { m with
    cpu := m.cpu.restore s
    notices := m.notices.push (.restored s.pc s.sp s.im s.iff1) }

end Z80
