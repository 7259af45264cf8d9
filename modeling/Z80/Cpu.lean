/-
The processor between two instructions.

Beside its registers a processor has interrupt requests waiting, the shadow that EI casts
over the next boundary, and two bytes that remember flags: `q` is what the latest event
computed into F, or zero if it computed no flags, and `previousQ` is the same for the
event before.  They decide two flag bits of SCF and CCF.
-/
import Z80.Flags
import Z80.Registers.Operand

namespace Z80

/-- What an interrupt in mode 0 makes of the byte the device drives. -/
inductive ModeZero where
  /-- An RST is obeyed, anything else counts as RST 38h. -/
  | restart
  /-- Always RST 38h. -/
  | force38
deriving DecidableEq, Repr

/-- What differs between processors. -/
structure Config where
  /-- AF after power-on and reset. -/
  af : UInt16
  /-- The stack pointer after power-on and reset. -/
  sp : UInt16
  modeZero : ModeZero
deriving DecidableEq, Repr

/-- A processor as it comes. -/
def Config.standard : Config := ⟨0xFFFF, 0xFFFF, .restart⟩

/-- A processor between two instructions. -/
structure Cpu where
  regs : Registers
  config : Config
  /-- The byte on the data lines while the interrupt line is asserted. -/
  interrupt : Option UInt8
  /-- A non-maskable interrupt waits. -/
  nmi : Bool
  /-- EI has just been executed, so no interrupt is accepted at the next boundary. -/
  shadow : Bool
  /-- The flags that the latest event computed, or zero. -/
  q : UInt8
  /-- What `q` was before that event. -/
  previousQ : UInt8
deriving DecidableEq, Repr

namespace Cpu

/-! ### Registers -/

def get8 (cpu : Cpu) (r : Reg8) : UInt8 := cpu.regs.get8 r

def set8 (cpu : Cpu) (r : Reg8) (v : UInt8) : Cpu := { cpu with regs := cpu.regs.set8 r v }

def get16 (cpu : Cpu) (p : Pair) : UInt16 := cpu.regs.get16 p

def set16 (cpu : Cpu) (p : Pair) (w : UInt16) : Cpu := { cpu with regs := cpu.regs.set16 p w }

def setSP (cpu : Cpu) (w : UInt16) : Cpu := { cpu with regs := { cpu.regs with sp := w } }

def setPC (cpu : Cpu) (w : UInt16) : Cpu := { cpu with regs := { cpu.regs with pc := w } }

def setWZ (cpu : Cpu) (w : UInt16) : Cpu := { cpu with regs := { cpu.regs with wz := w } }

/-- Goes on at an address, which the internal address register comes to hold too. -/
def goto (cpu : Cpu) (w : UInt16) : Cpu := (cpu.setPC w).setWZ w

/-- The accumulator. -/
def a (cpu : Cpu) : UInt8 := cpu.regs.main.a

/-- The flags. -/
def flags (cpu : Cpu) : Flags := .ofByte cpu.regs.main.f

/-- Puts computed flags into F and remembers that they were computed. -/
def setFlags (cpu : Cpu) (f : Flags) : Cpu :=
  { cpu with regs := { cpu.regs with main := { cpu.regs.main with f := f.toByte } }, q := f.toByte }

/-- Sets or clears both interrupt flip-flops. -/
def enableInterrupts (cpu : Cpu) (on : Bool) : Cpu :=
  { cpu with regs := { cpu.regs with iff1 := on, iff2 := on } }

/-- An event that has computed no flags so far begins. -/
def beginEvent (cpu : Cpu) : Cpu := { cpu with q := 0, previousQ := cpu.q }

/-! ### From the host -/

/-- The processor in the state that power-on and reset leave it in. -/
def reset (cpu : Cpu) : Cpu :=
  { cpu with
    regs :=
      { cpu.regs with
        main := cpu.regs.main.setAF cpu.config.af
        sp := cpu.config.sp, pc := 0, wz := 0, i := 0, r := 0
        iff1 := false, iff2 := false, im := 0, halted := false }
    interrupt := none, nmi := false, shadow := false, q := 0, previousQ := 0 }

/-- A processor that has just been switched on. -/
def powerOn (config : Config) : Cpu :=
  reset ⟨.zero, config, none, false, false, 0, 0⟩

/-- Asserts the interrupt line, with the byte that the device drives. -/
def requestInterrupt (cpu : Cpu) (data : UInt8) : Cpu := { cpu with interrupt := some data }

/-- Lets go of the interrupt line. -/
def clearInterrupt (cpu : Cpu) : Cpu := { cpu with interrupt := none }

/-- Requests a non-maskable interrupt. -/
def requestNMI (cpu : Cpu) : Cpu := { cpu with nmi := true }

end Cpu

end Z80
