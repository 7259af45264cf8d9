/-
What instructions do.

`Cpu.execute` gives the script of an instruction that has been read: its machine cycles
after the last code byte, and the processor they leave behind.  The program counter
stands behind the instruction when it starts.

Internal cycles stand exactly where the processor pauses, because a bus that counts
T-states can tell.  An address that is computed from an index register costs five of
them, or two where the computation overlaps the reading of a later code byte.
-/
import Z80.Alu
import Z80.Cpu
import Z80.Instruction
import Z80.Script

namespace Z80

namespace BitOp

/-- What an operation makes of a byte, and the flags it computes, if it does. -/
def apply (op : BitOp) (value : UInt8) (f : Flags) : UInt8 × Option Flags :=
  match op with
  | shift s =>
      let result := s.apply value f.carry
      (result.value, some result.flags)
  | reset n => (value &&& ~~~(Alu.mask n), none)
  | set n => (value ||| Alu.mask n, none)

end BitOp

namespace Cpu

/-! ### Parts of instructions -/

/-- The accumulator and the flags from a result. -/
def setResult (cpu : Cpu) (result : Result) : Cpu := (cpu.set8 .a result.value).setFlags result.flags

/-- Flags that may have been computed. -/
def setFlags? (cpu : Cpu) : Option Flags → Cpu
  | some f => cpu.setFlags f
  | none => cpu

/-- Finds a memory operand; an index register takes `pause` T-states for the addition. -/
def locate (cpu : Cpu) (p : Pointer) (pause : Nat) : Script (UInt16 × Cpu) :=
  match p with
  | .hl => return (cpu.regs.main.hl, cpu)
  | .indexed base d => do
      let address := Word.displace (cpu.get16 base.pair) d
      Script.internal pause
      return (address, cpu.setWZ address)

/-- Pushes a word. -/
def push (cpu : Cpu) (w : UInt16) : Script Cpu := do
  return cpu.setSP (← Script.push cpu.regs.sp w)

/-- Pops a word. -/
def pop (cpu : Cpu) : Script (UInt16 × Cpu) := do
  let (w, sp) ← Script.pop cpu.regs.sp
  return (w, cpu.setSP sp)

/-- Jumps by a displacement from the next instruction. -/
def jumpRelative (cpu : Cpu) (d : Int8) : Script Cpu := do
  Script.internal 5
  return cpu.goto (Word.displace cpu.regs.pc d)

/-- Pushes the address of the next instruction and goes on elsewhere. -/
def call (cpu : Cpu) (target : UInt16) : Script Cpu := do
  Script.internal 1
  return (← cpu.push cpu.regs.pc).goto target

/-- Pops the address to go on at. -/
def ret (cpu : Cpu) : Script Cpu := do
  let (target, cpu) ← cpu.pop
  return cpu.goto target

/-- The internal address register after the accumulator has been stored at an address. -/
def storedA (cpu : Cpu) (address : UInt16) : Cpu :=
  cpu.setWZ (Word.ofBytes cpu.a (Word.low (address + 1)))

/-- The byte that the copied bits of SCF and CCF come from. -/
def carrySource (cpu : Cpu) : UInt8 := (cpu.previousQ ^^^ cpu.regs.main.f) ||| cpu.a

/-! ### Block instructions -/

/-- Goes back to the start of a two-byte instruction, so that it runs again. -/
def repeatBlock (cpu : Cpu) : Script Cpu := do
  Script.internal 5
  return cpu.setPC (cpu.regs.pc - 2)

/-- The byte count in BC, one less. -/
def countDown (cpu : Cpu) : Cpu := cpu.set16 .bc (cpu.get16 .bc - 1)

/-- Moves a pair to the next address. -/
def walk (cpu : Cpu) (p : Pair) (direction : Direction) : Cpu :=
  cpu.set16 p (direction.next (cpu.get16 p))

/-- Moves one byte from (HL) to (DE). -/
def blockLoad (cpu : Cpu) (direction : Direction) (repeats : Bool) : Script Cpu := do
  let value ← Script.read (cpu.get16 .hl)
  Script.write (cpu.get16 .de) value
  Script.internal 2
  let cpu := ((cpu.walk .hl direction).walk .de direction).countDown
  let more := cpu.get16 .bc != 0
  let cpu := cpu.setFlags (Alu.blockLoaded cpu.flags cpu.a value more)
  if repeats && more then
    let cpu ← cpu.repeatBlock
    return cpu.setWZ (cpu.regs.pc + 1)
  else return cpu

/-- Compares the byte at (HL) with the accumulator. -/
def blockCompare (cpu : Cpu) (direction : Direction) (repeats : Bool) : Script Cpu := do
  let value ← Script.read (cpu.get16 .hl)
  Script.internal 5
  let cpu := ((cpu.walk .hl direction).setWZ (direction.next cpu.regs.wz)).countDown
  let more := cpu.get16 .bc != 0
  let cpu := cpu.setFlags (Alu.blockCompared cpu.flags cpu.a value more)
  if repeats && more && cpu.a != value then
    let cpu ← cpu.repeatBlock
    return cpu.setWZ (cpu.regs.pc + 1)
  else return cpu

/-- Moves one byte from port C to (HL). -/
def blockInput (cpu : Cpu) (direction : Direction) (repeats : Bool) : Script Cpu := do
  Script.internal 1
  let port := cpu.get16 .bc
  let value ← Script.input port
  Script.write (cpu.get16 .hl) value
  let cpu := (cpu.setWZ (direction.next port)).walk .hl direction
  let cpu := cpu.set8 .b (cpu.get8 .b - 1)
  let sum := value.toNat + (Word.low (direction.next port)).toNat
  let cpu := cpu.setFlags (Alu.blockPorted value sum (cpu.get8 .b))
  if repeats && cpu.get8 .b != 0 then cpu.repeatBlock else return cpu

/-- Moves one byte from (HL) to port C. -/
def blockOutput (cpu : Cpu) (direction : Direction) (repeats : Bool) : Script Cpu := do
  Script.internal 1
  let value ← Script.read (cpu.get16 .hl)
  let cpu := cpu.set8 .b (cpu.get8 .b - 1)
  Script.output (cpu.get16 .bc) value
  let cpu := (cpu.walk .hl direction).setWZ (direction.next (cpu.get16 .bc))
  let sum := value.toNat + (cpu.get8 .l).toNat
  let cpu := cpu.setFlags (Alu.blockPorted value sum (cpu.get8 .b))
  if repeats && cpu.get8 .b != 0 then cpu.repeatBlock else return cpu

/-! ### Every instruction -/

/-- The script of an instruction behind which the program counter stands. -/
def execute (cpu : Cpu) : Instruction → Script Cpu
  | .nop => return cpu
  | .reserved _ => return cpu
  | .halt => return { cpu with regs := { cpu.regs with halted := true } }
  | .di => return cpu.enableInterrupts false
  | .ei => return { cpu.enableInterrupts true with shadow := true }
  | .im mode => return { cpu with regs := { cpu.regs with im := mode } }
  | .load target source => return cpu.set8 target (cpu.get8 source)
  | .loadImmediate target n => return cpu.set8 target n
  | .loadFrom target source => do
      let (address, cpu) ← cpu.locate source 5
      return cpu.set8 target (← Script.read address)
  | .storeTo target source => do
      let (address, cpu) ← cpu.locate target 5
      Script.write address (cpu.get8 source)
      return cpu
  | .storeImmediate target n => do
      let (address, cpu) ← cpu.locate target 2
      Script.write address n
      return cpu
  | .loadAIndirect source => do
      let address := cpu.get16 source
      return (cpu.set8 .a (← Script.read address)).setWZ (address + 1)
  | .storeAIndirect target => do
      let address := cpu.get16 target
      Script.write address cpu.a
      return cpu.storedA address
  | .loadADirect source => do
      return (cpu.set8 .a (← Script.read source)).setWZ (source + 1)
  | .storeADirect target => do
      Script.write target cpu.a
      return cpu.storedA target
  | .loadIA => do
      Script.internal 1
      return { cpu with regs := { cpu.regs with i := cpu.a } }
  | .loadRA => do
      Script.internal 1
      return { cpu with regs := { cpu.regs with r := cpu.a } }
  | .loadAI => do
      Script.internal 1
      return cpu.setResult ⟨cpu.regs.i, Alu.loadedSpecial cpu.regs.i cpu.regs.iff2 cpu.flags⟩
  | .loadAR => do
      Script.internal 1
      return cpu.setResult ⟨cpu.regs.r, Alu.loadedSpecial cpu.regs.r cpu.regs.iff2 cpu.flags⟩
  | .loadPair target nn => return cpu.set16 target nn
  | .loadPairDirect target source => do
      return (cpu.set16 target (← Script.readWord source)).setWZ (source + 1)
  | .storePairDirect target source => do
      Script.writeWord target (cpu.get16 source)
      return cpu.setWZ (target + 1)
  | .loadSP source => do
      Script.internal 2
      return cpu.setSP (cpu.get16 source)
  | .push source => do
      Script.internal 1
      cpu.push (cpu.get16 source)
  | .pop target => do
      let (w, cpu) ← cpu.pop
      return cpu.set16 target w
  | .exchangeAF => return { cpu with regs := cpu.regs.exchangeAF }
  | .exchangeAll => return { cpu with regs := cpu.regs.exchangeAll }
  | .exchangeDEHL => return { cpu with regs := cpu.regs.exchangeDEHL }
  | .exchangeTop target => do
      let sp := cpu.regs.sp
      let value ← Script.readWord sp
      Script.internal 1
      Script.write (sp + 1) (Word.high (cpu.get16 target))
      Script.write sp (Word.low (cpu.get16 target))
      Script.internal 2
      return (cpu.set16 target value).setWZ value
  | .accumulate op (.register r) => return cpu.setResult (op.apply cpu.a (cpu.get8 r) cpu.flags)
  | .accumulate op (.immediate n) => return cpu.setResult (op.apply cpu.a n cpu.flags)
  | .accumulate op (.memory p) => do
      let (address, cpu) ← cpu.locate p 5
      return cpu.setResult (op.apply cpu.a (← Script.read address) cpu.flags)
  | .increment target =>
      let result := Alu.increment (cpu.get8 target) cpu.flags
      return (cpu.set8 target result.value).setFlags result.flags
  | .incrementAt target => do
      let (address, cpu) ← cpu.locate target 5
      let result := Alu.increment (← Script.read address) cpu.flags
      Script.internal 1
      Script.write address result.value
      return cpu.setFlags result.flags
  | .decrement target =>
      let result := Alu.decrement (cpu.get8 target) cpu.flags
      return (cpu.set8 target result.value).setFlags result.flags
  | .decrementAt target => do
      let (address, cpu) ← cpu.locate target 5
      let result := Alu.decrement (← Script.read address) cpu.flags
      Script.internal 1
      Script.write address result.value
      return cpu.setFlags result.flags
  | .incrementPair target => do
      Script.internal 2
      return cpu.set16 target (cpu.get16 target + 1)
  | .decrementPair target => do
      Script.internal 2
      return cpu.set16 target (cpu.get16 target - 1)
  | .addPair target source => do
      Script.internal 7
      let word := cpu.get16 target
      let result := Alu.add16 word (cpu.get16 source) cpu.flags
      return ((cpu.set16 target result.value).setWZ (word + 1)).setFlags result.flags
  | .adcPair source => do
      Script.internal 7
      let word := cpu.get16 .hl
      let result := Alu.adc16 word (cpu.get16 source) cpu.flags.carry
      return ((cpu.set16 .hl result.value).setWZ (word + 1)).setFlags result.flags
  | .sbcPair source => do
      Script.internal 7
      let word := cpu.get16 .hl
      let result := Alu.sbc16 word (cpu.get16 source) cpu.flags.carry
      return ((cpu.set16 .hl result.value).setWZ (word + 1)).setFlags result.flags
  | .rotateA shift => return cpu.setResult (Alu.rotateAccumulator shift cpu.a cpu.flags)
  | .daa => return cpu.setResult (Alu.decimalAdjust cpu.a cpu.flags)
  | .cpl => return cpu.setResult (Alu.complement cpu.a cpu.flags)
  | .scf => return cpu.setFlags (Alu.setCarry cpu.flags cpu.carrySource)
  | .ccf => return cpu.setFlags (Alu.flipCarry cpu.flags cpu.carrySource)
  | .neg => return cpu.setResult (Alu.sub 0 cpu.a false)
  | .rrd => do
      let address := cpu.get16 .hl
      let m ← Script.read address
      Script.internal 4
      Script.write address (cpu.a * 16 + m / 16)
      let value := cpu.a / 16 * 16 + m % 16
      return (cpu.setWZ (address + 1)).setResult ⟨value, Alu.moved value cpu.flags⟩
  | .rld => do
      let address := cpu.get16 .hl
      let m ← Script.read address
      Script.internal 4
      Script.write address (m * 16 + cpu.a % 16)
      let value := cpu.a / 16 * 16 + m / 16
      return (cpu.setWZ (address + 1)).setResult ⟨value, Alu.moved value cpu.flags⟩
  | .modify op target =>
      let (value, f) := op.apply (cpu.get8 target) cpu.flags
      return (cpu.set8 target value).setFlags? f
  | .modifyAt op target copy => do
      let (address, cpu) ← cpu.locate target 2
      let (value, f) := op.apply (← Script.read address) cpu.flags
      Script.internal 1
      Script.write address value
      let cpu := cpu.setFlags? f
      match copy with
      | some r => return cpu.set8 r value
      | none => return cpu
  | .test n source =>
      let value := cpu.get8 source
      return cpu.setFlags (Alu.test n value value cpu.flags)
  | .testAt n source => do
      let (address, cpu) ← cpu.locate source 2
      let value ← Script.read address
      Script.internal 1
      return cpu.setFlags (Alu.test n value (Word.high cpu.regs.wz) cpu.flags)
  | .jump target => return cpu.goto target
  | .jumpIf condition target =>
      let cpu := cpu.setWZ target
      return if condition.holds cpu.flags then cpu.setPC target else cpu
  | .jumpPair target => return cpu.setPC (cpu.get16 target)
  | .jumpRelative d => cpu.jumpRelative d
  | .jumpRelativeIf condition d => if condition.holds cpu.flags then cpu.jumpRelative d else return cpu
  | .djnz d =>
      let cpu := cpu.set8 .b (cpu.get8 .b - 1)
      if cpu.get8 .b != 0 then cpu.jumpRelative d else return cpu
  | .call target => cpu.call target
  | .callIf condition target =>
      let cpu := cpu.setWZ target
      if condition.holds cpu.flags then cpu.call target else return cpu
  | .ret => cpu.ret
  | .retIf condition => do
      Script.internal 1
      if condition.holds cpu.flags then cpu.ret else return cpu
  | .retn => ({ cpu with regs := { cpu.regs with iff1 := cpu.regs.iff2 } } : Cpu).ret
  | .reti => ({ cpu with regs := { cpu.regs with iff1 := cpu.regs.iff2 } } : Cpu).ret
  | .rst vector => cpu.call vector.toUInt16
  | .inputA low => do
      let port := portAddress cpu.a low
      return (cpu.set8 .a (← Script.input port)).setWZ (port + 1)
  | .outputA low => do
      Script.output (portAddress cpu.a low) cpu.a
      return cpu.setWZ (Word.ofBytes cpu.a (low + 1))
  | .inputC target => do
      let port := cpu.get16 .bc
      let value ← Script.input port
      let cpu := cpu.setWZ (port + 1)
      let f := Alu.moved value cpu.flags
      match target with
      | some r => return (cpu.set8 r value).setFlags f
      | none => return cpu.setFlags f
  | .outputC source => do
      let port := cpu.get16 .bc
      Script.output port (match source with | some r => cpu.get8 r | none => 0)
      return cpu.setWZ (port + 1)
  | .block .load direction repeats => cpu.blockLoad direction repeats
  | .block .compare direction repeats => cpu.blockCompare direction repeats
  | .block .input direction repeats => cpu.blockInput direction repeats
  | .block .output direction repeats => cpu.blockOutput direction repeats

end Cpu

end Z80
