/-
The exerciser.

A command-line tool that runs a CP/M program and says whether it passed.  What a program
prints goes to the console as it comes; everything else the tool has to say is a
`Message`.  The tool succeeds if the program ended and never printed `ERROR`.

`Exerciser.run` is written for any monad that can print and tell, so the tool itself and
whoever wants to collect what it says run the same definition.
-/
import Z80.Cpm.Preliminary
import Z80.Cpm.Session

namespace Z80

/-- Which part of the machine a notice is about, as the tool names it. -/
def Notice.topic : Notice → String
  | nmiAccepted _ => "zilog_z80::cpu"
  | notRestart _ => "zilog_z80::cpu"
  | interruptAccepted _ _ _ => "zilog_z80::cpu"
  | halted _ => "zilog_z80::cpu::execute"
  | reservedOpcode _ _ => "zilog_z80::cpu::ed"
  | restored _ _ _ _ => "zilog_z80::cpu"
  | unsupportedFunction _ => "zilog_z80::cpm"

namespace Exerciser

/-- What the user asks for. -/
structure Options where
  /-- The name of a program that comes with the tool, or of a file. -/
  program : String
  /-- After how many T-states to stop; zero for never. -/
  limit : Nat
  /-- How many notices to show: none, those that matter, or all. -/
  verbosity : Nat
deriving DecidableEq, Repr

/-- What the tool does when nothing is asked for. -/
def Options.default : Options := ⟨"prelim", 0, 0⟩

/-- The limit as a number of T-states. -/
def Options.bound (o : Options) : Nat := if o.limit = 0 then UInt64.size - 1 else o.limit

/-- Is a notice shown? -/
def Options.shows (o : Options) (n : Notice) : Bool :=
  match n.level with
  | .debug => decide (1 ≤ o.verbosity)
  | .trace => decide (2 ≤ o.verbosity)

/-- Why the operating system does not deliver a file. -/
inductive FileError where
  | missing
  | isDirectory
  /-- Something on the way to the file is no directory. -/
  | notDirectory
  | nameTooLong
  | denied
deriving DecidableEq, Repr

/-- The wording of the error, with the system's number for it. -/
def FileError.message : FileError → String
  | missing => "No such file or directory (os error 2)"
  | isDirectory => "Is a directory (os error 21)"
  | notDirectory => "Not a directory (os error 20)"
  | nameTooLong => "File name too long (os error 36)"
  | denied => "Permission denied (os error 13)"

/-- What the tool says about its work. -/
inductive Message where
  | cannotLoad (name : String) (why : FileError)
  | cannotRun (name : String) (why : Cpm.LoadError)
  | running (name : String)
  | notice (n : Notice)
  | finished (elapsed : Nat)
  | limitReached
deriving DecidableEq, Repr

/-- The text of a message.  It is one line, unless there are line ends in a name. -/
def Message.text : Message → String
  | cannotLoad name why => "cannot load " ++ name ++ ": " ++ why.message
  | cannotRun name why => name ++ ": " ++ why.message
  | running name => "Running " ++ name ++ "..."
  | notice n => "[" ++ n.level.name ++ " " ++ n.topic ++ "] " ++ n.message
  | finished elapsed => "T-states: " ++ toString elapsed
  | limitReached => "T-state limit reached before warm boot"

/-- A place to print what programs print and to tell messages. -/
structure Console (m : Type → Type) where
  print : String → m Unit
  tell : Message → m Unit

/-- Where the bytes of a program come from. -/
inductive Source where
  | builtIn
  | file (path : String)
deriving DecidableEq, Repr

/-- Three programs have names of their own; any other name is a path. -/
def Source.ofName (name : String) : Source :=
  if name = "prelim" then .builtIn
  else if name = "zexdoc" ∨ name = "zexall" then .file ("tests/data/" ++ name ++ ".com")
  else .file name

variable {m : Type → Type} [Monad m]

/-- Tells the notices of a session that the options ask for. -/
def tellNotices (console : Console m) (o : Options) (notices : List Notice) : m Unit :=
  (notices.filter o.shows).forM fun n => console.tell (.notice n)

/--
Runs fewer than `slices` slices, printing what comes; the result is the last state and all output.
Printing succeeds here.  Where output cannot be written, a tool has to say so and give up without
success; that is not modelled.
-/
def resume (console : Console m) (o : Options) (bound : Nat) :
    (slices : Nat) → (output : String) → Cpm.Session → m (Option (String × Cpm.Session))
  | 0, _, _ => return none
  | slices + 1, output, s =>
      if s.goesOn o.bound then
        match s.slice bound with
        | none => return none
        | some (bytes, s) => do
            let (notices, s) := s.hear
            console.print (Cpm.text bytes)
            tellNotices console o notices.toList
            resume console o bound slices (output ++ Cpm.text bytes) s
      else return some (output, s)

/-- Runs a program, unless its bytes could not be loaded; the result says whether it passed. -/
def run (console : Console m) (o : Options) (bound : Nat)
    (program : Except FileError (List UInt8)) : m (Option Bool) :=
  match program with
  | .error why => do
      console.tell (.cannotLoad o.program why)
      return some false
  | .ok bytes =>
      match Cpm.Session.start bytes with
      | .error why => do
          console.tell (.cannotRun o.program why)
          return some false
      | .ok s => do
          console.tell (.running o.program)
          match ← resume console o bound bound "" s with
          | none => return none
          | some (output, s) => do
              console.tell (.finished s.elapsed)
              if !s.finished then console.tell .limitReached
              return some (s.finished && !Cpm.reportsError output)

end Exerciser

end Z80
