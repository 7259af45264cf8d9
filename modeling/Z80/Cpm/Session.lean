/-
Running a CP/M program.

A session is a machine with the system as its bus.  It runs in slices of a fixed budget;
the trap ends a slice early, so the registers still stand as the program left them when
the system answers.  A halted processor means that the program has ended.

`Run` is the outcome of a whole run: what was printed, how long it took, and whether the
program ended before the limit was reached.  Exercisers report failures by printing
`ERROR`, so a run has passed when it ended and never printed that.
-/
import Z80.Cpm.Environment
import Z80.Machine

namespace Z80

namespace Cpm

/-- T-states of a slice. -/
def sliceBudget : UInt32 := 100000

/-- A machine that runs a CP/M program. -/
abbrev Session := Machine Environment

namespace Session

/-- A session at the first instruction of a program. -/
def start (program : List UInt8) : Except LoadError Session := do
  let environment ← Environment.load program
  return (Machine.powerOn .standard environment).mapCpu (·.setPC programStart)

/-- Has the program ended? -/
def finished (s : Session) : Bool := s.cpu.regs.halted

/-- T-states since the start. -/
def elapsed (s : Session) : Nat := s.clock.total

/-- Answers a pending call of the system; also says what is printed. -/
def answer (s : Session) : List UInt8 × Session :=
  let (called, environment) := s.bus.takeCall
  if called then
    let registers := s.cpu.regs.main
    (environment.printed registers,
      { s.mapBus fun _ => environment with notices := s.notices ++ (Environment.remarks registers).toArray })
  else ([], s)

/-- Runs a slice; also says what is printed. -/
def slice (bound : Nat) (s : Session) : Option (List UInt8 × Session) :=
  (s.run bound sliceBudget).map answer

/-- Should the session run another slice? -/
def goesOn (limit : Nat) (s : Session) : Bool := !s.finished && decide (s.elapsed < limit)

end Session

/-- The outcome of a run. -/
structure Run where
  /-- Everything that was printed. -/
  output : String
  elapsed : Nat
  /-- The program ended before the limit was reached. -/
  completed : Bool
deriving DecidableEq, Repr

/-- Does a text occur in another one? -/
def occurs (needle : List Char) : List Char → Bool
  | [] => needle.isEmpty
  | c :: cs => needle.isPrefixOf (c :: cs) || occurs needle cs

/-- Has an exerciser reported a failure? -/
def reportsError (output : String) : Bool := occurs "ERROR".toList output.toList

namespace Run

/-- Did the program end without reporting an error? -/
def passed (r : Run) : Bool := r.completed && !reportsError r.output

/-- Runs fewer than `slices` slices, as long as the session should go on. -/
def resume (bound limit : Nat) : (slices : Nat) → (output : String) → Session → Option Run
  | 0, _, _ => none
  | slices + 1, output, s =>
      if s.goesOn limit then do
        let (bytes, s) ← s.slice bound
        resume bound limit slices (output ++ text bytes) s
      else some ⟨output, s.elapsed, s.finished⟩

/-- Runs a program until it ends or has taken `limit` T-states. -/
def ofProgram (bound limit : Nat) (program : List UInt8) : Except LoadError (Option Run) := do
  return resume bound limit bound "" (← Session.start program)

end Run

end Cpm

end Z80
