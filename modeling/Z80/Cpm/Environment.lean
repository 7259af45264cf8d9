/-
A minimal CP/M.

Programs are loaded at 0100 and call the operating system at 0005, where a jump leads to
FE00.  Programs read the operand of that jump as the top of the memory they may use.  At
FE00 stands a write to port 5 and a return: the write is the trap by which the system
notices the call.  A program ends by jumping to 0000, where the processor halts.

The system prints.  Function 2 prints the character in E and function 9 the text at DE up
to a dollar sign; the search for the sign gives up after 64K.  There are no other
functions.  Characters are bytes, and byte `b` is character `b` of Unicode.
-/
import Z80.Bus.Board
import Z80.Notice
import Z80.Registers

namespace Z80

namespace Cpm

/-- Where programs are loaded and started. -/
def programStart : UInt16 := 0x0100

/-- The top of the memory for programs, where the trap routine is. -/
def systemStart : UInt16 := 0xFE00

/-- The port on which writes are calls of the system. -/
def trapPort : UInt8 := 0x05

/-- How many bytes a program may have. -/
def capacity : Nat := systemStart.toNat - programStart.toNat

/-- Why a program cannot be loaded. -/
inductive LoadError where
  | empty
  | tooLarge (size : Nat)
deriving DecidableEq, Repr

/-- The wording of the error. -/
def LoadError.message : LoadError → String
  | empty => "program is empty"
  | tooLarge size => "program is " ++ toString size ++ " bytes, TPA holds " ++ toString capacity

/-- The memory of a CP/M machine, and whether the system has been called. -/
structure Environment where
  board : Board Memory
  /-- The system has been called and has not answered yet. -/
  called : Bool

namespace Environment

/-- The system with a program loaded. -/
def load (program : List UInt8) : Except LoadError Environment :=
  if program.isEmpty then .error .empty
  else if capacity < program.length then .error (.tooLarge program.length)
  else
    let board := Board.blank.load 0x0000 [0x76]
    let board := board.load 0x0005 [0xC3, Word.low systemStart, Word.high systemStart]
    let board := board.load systemStart [0xD3, trapPort, 0xC9]
    .ok ⟨board.load programStart program, false⟩

instance : View Environment where
  peek s address := peek s.board address

/-- Memory is the board's; ports drive nothing, and a write to the trap port calls the system. -/
instance : Bus Environment where
  respond s clock access :=
    match access with
    | .read _ | .write _ _ =>
        let reply := Bus.respond s.board clock access
        { data := reply.data, wait := reply.wait, yields := reply.yields
          bus := { s with board := reply.bus } }
    | .input _ => { data := 0xFF, wait := 0, yields := false, bus := s }
    | .output port _ =>
        let calls := Word.low port == trapPort
        { data := 0, wait := 0, yields := calls, bus := { s with called := s.called || calls } }

/-- Takes a pending call, if there is one. -/
def takeCall (s : Environment) : Bool × Environment := (s.called, { s with called := false })

/-- The bytes at an address up to a dollar sign, or `limit` of them. -/
def textAt (s : Environment) (address : UInt16) : (limit : Nat) → List UInt8
  | 0 => []
  | limit + 1 =>
      let b := peek s address
      if b = 0x24 then [] else b :: s.textAt (address + 1) limit

/-- What the system prints when it is called with the given registers. -/
def printed (s : Environment) (r : RegisterSet) : List UInt8 :=
  if r.c = 2 then [r.e]
  else if r.c = 9 then s.textAt r.de 0x10000
  else []

/-- What there is to say about a call with the given registers. -/
def remarks (r : RegisterSet) : List Notice :=
  if r.c = 2 ∨ r.c = 9 then [] else [.unsupportedFunction r.c]

end Environment

/-- Bytes as text. -/
def text (bytes : List UInt8) : String := String.ofList (bytes.map fun b => Char.ofNat b.toNat)

end Cpm

end Z80
