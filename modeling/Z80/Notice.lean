/-
Notices.

While it runs, the machine has things to say that are not part of its state: that it
halted, that an interrupt was accepted, that an opcode means nothing.  A `Notice` is one
of these, kept as data; `Notice.level` says how much it matters and `Notice.message` is
its text.
-/
import Z80.Hex

namespace Z80

/-- How much a notice matters. -/
inductive Level where
  | trace
  | debug
deriving DecidableEq, Repr

/-- The level in capitals. -/
def Level.name : Level → String
  | .trace => "TRACE"
  | .debug => "DEBUG"

/-- Something worth telling that happened while the machine ran. -/
inductive Notice where
  /-- A non-maskable interrupt was accepted. -/
  | nmiAccepted (pc : UInt16)
  /-- In mode 0 an interrupting device drove a byte that is no RST. -/
  | notRestart (data : UInt8)
  /-- An interrupt was accepted. -/
  | interruptAccepted (mode data : UInt8) (target : UInt16)
  /-- HALT was executed. -/
  | halted (pc : UInt16)
  /-- An unassigned code of the ED table was executed. -/
  | reservedOpcode (code : UInt8) (pc : UInt16)
  /-- A snapshot was loaded. -/
  | restored (pc sp : UInt16) (im : UInt8) (iff1 : Bool)
  /-- A program called a function of the operating system that there is not. -/
  | unsupportedFunction (number : UInt8)
deriving DecidableEq, Repr

namespace Notice

def level : Notice → Level
  | nmiAccepted _ => .trace
  | notRestart _ => .debug
  | interruptAccepted _ _ _ => .trace
  | halted _ => .trace
  | reservedOpcode _ _ => .debug
  | restored _ _ _ _ => .debug
  | unsupportedFunction _ => .debug

def message : Notice → String
  | nmiAccepted pc => "NMI accepted at PC=" ++ Hex.word pc
  | notRestart data => "IM0 data byte " ++ Hex.byte data ++ " is not an RST; using RST 38h"
  | interruptAccepted mode data target =>
      "INT accepted in IM" ++ toString mode ++ ": data=" ++ Hex.byte data ++
        " target=" ++ Hex.word target
  | halted pc => "HALT at " ++ Hex.word pc
  | reservedOpcode code pc =>
      "reserved opcode ED " ++ Hex.byte code ++ " at " ++ Hex.word pc ++ " executed as NOP"
  | restored pc sp im iff1 =>
      "state restored: PC=" ++ Hex.word pc ++ " SP=" ++ Hex.word sp ++ " IM" ++ toString im ++
        " IFF1=" ++ (if iff1 then "true" else "false")
  | unsupportedFunction number => "unsupported BDOS function " ++ toString number

end Notice

end Z80
