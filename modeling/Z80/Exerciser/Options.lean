/-
The command line of the exerciser.

Options come as `--program X`, `--program=X`, `--max-tstates N`, `--max-tstates=N` and
`--verbose`, which has a short form that can be given several times at once, as in `-vv`.
A value of its own may not look like an option, so it does not start with a dash unless
it is one; behind an equals sign anything goes.  Only `--verbose` may be repeated, and there
is nothing else on the command line but a `--` at its end.
-/
import Z80.Exerciser

namespace Z80

namespace Exerciser

namespace Options

/-- The options seen so far; those that may not be repeated are there or not. -/
structure Seen where
  program : Option String
  limit : Option Nat
  verbosity : Nat

namespace Seen

/-- No option seen. -/
def nothing : Seen := ⟨none, none, 0⟩

/-- The options, with what was not given set to its default. -/
def complete (p : Seen) : Options :=
  ⟨p.program.getD default.program, p.limit.getD default.limit, p.verbosity⟩

/-- Takes the name of the program. -/
def setProgram? (p : Seen) (value : List Char) : Option Seen :=
  if p.program.isSome then none else some { p with program := some (String.ofList value) }

/-- The number that decimal digits write, if there are any. -/
def digits? (cs : List Char) : Option Nat :=
  if cs.isEmpty || !cs.all Char.isDigit then none
  else some (cs.foldl (fun n c => n * 10 + (c.toNat - 48)) 0)

/-- A number below 2⁶⁴, in front of which a plus sign may stand. -/
def number? (cs : List Char) : Option Nat := do
  let n ← digits? (if cs.head? = some '+' then cs.tail else cs)
  if n < UInt64.size then some n else none

/-- Takes the limit. -/
def setLimit? (p : Seen) (value : List Char) : Option Seen := do
  let n ← number? value
  if p.limit.isSome then none else some { p with limit := some n }

end Seen

/-- May a word stand as the value of the option before it? -/
def isValue (word : List Char) : Bool := word.head? != some '-' || word == ['-']

/-- The value behind an option that is written with an equals sign. -/
def attached? (name : String) (word : List Char) : Option (List Char) :=
  let start := name.toList ++ ['=']
  if start.isPrefixOf word then some (word.drop start.length) else none

/-- Is a word a dash and any number of `v`s? -/
def isVerbosity (word : List Char) : Bool :=
  match word with
  | '-' :: 'v' :: vs => vs.all (· == 'v')
  | _ => false

/-- Reads the words of a command line. -/
def read (p : Seen) : List String → Option Seen
  | [] => some p
  | word :: words =>
      let cs := word.toList
      if word = "--" then if words.isEmpty then some p else none
      else if word = "--verbose" then read { p with verbosity := p.verbosity + 1 } words
      else if isVerbosity cs then read { p with verbosity := p.verbosity + (cs.length - 1) } words
      else if word = "--program" ∨ word = "--max-tstates" then
        match words with
        | [] => none
        | value :: rest =>
            if isValue value.toList then do
              let p ← if word = "--program" then p.setProgram? value.toList else p.setLimit? value.toList
              read p rest
            else none
      else
        match attached? "--program" cs, attached? "--max-tstates" cs with
        | some value, _ => do read (← p.setProgram? value) words
        | _, some value => do read (← p.setLimit? value) words
        | _, _ => none

/-- The options that a command line gives, if it is well formed. -/
def ofArguments? (words : List String) : Option Options := (read .nothing words).map Seen.complete

end Options

end Exerciser

end Z80
