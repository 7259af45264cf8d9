/-
The exerciser as a program.

Everything is decided in `Exerciser.run`; what is left here is reading the file, printing
and the clock on the wall.
-/
import Z80.Exerciser.Options

namespace Z80

namespace Exerciser

/-- A bound that no run comes near. -/
def enough : Nat := UInt64.size / 4

/-- Prints to standard output and tells messages on standard error. -/
def terminal (started : Nat) : Console IO where
  print text := do
    let out ← IO.getStdout
    out.putStr text
    out.flush
  tell message := do
    match message with
    | .running _ => IO.eprintln (message.text ++ "\n")
    | .finished elapsed =>
        let milliseconds := (← IO.monoMsNow) - started
        let hertz := if milliseconds = 0 then 0 else elapsed * 1000 / milliseconds
        IO.eprintln ("\n\nCompleted in " ++ toString milliseconds ++ " ms")
        IO.eprintln (message.text ++ " (" ++ toString hertz ++ " Hz effective)")
    | _ => IO.eprintln message.text

/-- The reason behind a failure to read a file.  A directory can be opened, and fails with number 21 when read. -/
def FileError.ofIO : IO.Error → FileError
  | .inappropriateType _ number _ => if number = 21 then isDirectory else notDirectory
  | .invalidArgument .. => nameTooLong
  | .permissionDenied .. => denied
  | _ => missing

/-- The bytes of a program, if they can be read. -/
def load (source : Source) : IO (Except FileError (List UInt8)) := do
  match source with
  | .builtIn => return .ok Cpm.preliminary
  | .file path =>
      try return .ok (← IO.FS.readBinFile path).toList
      catch e => return .error (.ofIO e)

/-- Runs the program that a command line names; the result is the exit code. -/
def runArguments (arguments : List String) : IO UInt32 := do
  match Options.ofArguments? arguments with
  | none =>
      IO.eprintln "usage: [--program NAME] [--max-tstates N] [-v]"
      return 2
  | some options =>
      let program ← load (.ofName options.program)
      match ← run (terminal (← IO.monoMsNow)) options enough program with
      | some true => return 0
      | _ => return 1

end Exerciser

end Z80

/-- Runs the program that the command line names. -/
def main (arguments : List String) : IO UInt32 := Z80.Exerciser.runArguments arguments
