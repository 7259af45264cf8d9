/-
What happens at an instruction boundary.

Between two instructions exactly one event follows: a non-maskable interrupt is accepted
if one waits; otherwise an interrupt is accepted if the line is asserted, interrupts are
enabled and EI has not just been executed; otherwise a halted processor idles for one
NOP, and one that is not halted executes an instruction.  `Cpu.due` says which, and
`Cpu.event` is its script.  Whatever happens, the shadow of EI is over.

An instruction is executed whole, with all its prefixes.  Reading them is the only thing
that might not end, so `Cpu.event` takes a bound on their number.
-/
import Z80.Cpu.Execute
import Z80.Instruction.Opcode
import Z80.Notice

namespace Z80

/-- The event that is due at a boundary. -/
inductive Due where
  | nmi
  | interrupt (data : UInt8)
  | halted
  | instruction
deriving DecidableEq, Repr

/-- The processor after an event, and what there is to say about it. -/
structure Outcome where
  cpu : Cpu
  notices : List Notice

namespace Cpu

/-- The byte of an interrupt that can be accepted now. -/
def acceptable? (cpu : Cpu) : Option UInt8 :=
  if cpu.regs.iff1 && !cpu.shadow then cpu.interrupt else none

/-- The event that is due. -/
def due (cpu : Cpu) : Due :=
  if cpu.nmi then .nmi
  else
    match cpu.acceptable? with
    | some data => .interrupt data
    | none => if cpu.regs.halted then .halted else .instruction

/-- Opens the acknowledgement of an interrupt: the processor wakes and no interrupt may follow. -/
def acknowledge (cpu : Cpu) : Cpu :=
  { cpu.beginEvent with regs := { cpu.regs.refresh 1 with halted := false, iff1 := false } }

/-- Accepts a non-maskable interrupt. -/
def acceptNMI (cpu : Cpu) : Script Outcome := do
  let woken := { cpu.acknowledge with nmi := false }
  Script.internal 5
  return ⟨(← woken.push cpu.regs.pc).goto 0x0066, [.nmiAccepted cpu.regs.pc]⟩

/-- Where mode 0 goes for a byte, and whether the byte was one that mode 0 can obey. -/
def modeZeroTarget (mode : ModeZero) (data : UInt8) : UInt16 × List Notice :=
  match mode with
  | .force38 => (0x0038, [])
  | .restart =>
      if data &&& 0xC7 = 0xC7 then ((data &&& 0x38).toUInt16, [])
      else (0x0038, [.notRestart data])

/-- Where the handler of an interrupt begins.  Mode 2 reads its address from a table. -/
def handler (cpu : Cpu) (data : UInt8) : Script (UInt16 × List Notice) :=
  if cpu.regs.im = 2 then do
    return (← Script.readWord (Word.ofBytes cpu.regs.i data), [])
  else if cpu.regs.im = 1 then return (0x0038, [])
  else return modeZeroTarget cpu.config.modeZero data

/-- Accepts an interrupt. -/
def acceptInterrupt (cpu : Cpu) (data : UInt8) : Script Outcome := do
  let woken := { cpu.acknowledge.enableInterrupts false with interrupt := none }
  Script.internal 7
  let cpu ← woken.push cpu.regs.pc
  let (target, notices) ← cpu.handler data
  return ⟨cpu.goto target, notices ++ [.interruptAccepted cpu.regs.im data target]⟩

/-- What there is to say about an instruction, given the address behind it. -/
def remarks (next : UInt16) : Instruction → List Notice
  | .halt => [.halted (next - 1)]
  | .reserved code => [.reservedOpcode code (next - 2)]
  | _ => []

/-- Reads and executes an instruction with fewer than `bound` prefixes. -/
def runInstruction (bound : Nat) (cpu : Cpu) : Script (Option Outcome) := do
  let (instruction, regs) ← (Opcode.instruction bound none).script cpu.regs
  match instruction with
  | none => return none
  | some i => return some ⟨← ({ cpu.beginEvent with regs } : Cpu).execute i, remarks regs.pc i⟩

/-- Idles for one NOP. -/
def idle (cpu : Cpu) : Script Outcome := do
  Script.internal 4
  return ⟨{ cpu with regs := cpu.regs.refresh 1 }, []⟩

/-- The script of the event that is due.  Nothing comes of a chain of `bound` prefixes. -/
def event (bound : Nat) (cpu : Cpu) : Script (Option Outcome) :=
  let cpu' := { cpu with shadow := false }
  match cpu.due with
  | .nmi => some <$> cpu'.acceptNMI
  | .interrupt data => some <$> cpu'.acceptInterrupt data
  | .halted => some <$> cpu'.idle
  | .instruction => cpu'.runInstruction bound

end Cpu

end Z80
