/-
JSON text.

Scanners for the parts of a JSON document, each of which takes the bytes that are left and
gives back the bytes after the part.  They read strictly from left to right, and the first
thing that is wrong decides the error: the document ends too early, it is no JSON, or it
is JSON of the wrong shape.

A number that is no natural number below 2⁶⁴ has to be scanned all the same, and a float
that is too large to be a finite double is an error of its own kind, so the scanner keeps
the digits it has seen and the power of ten that goes with them.

Values that nobody asks for are skipped without being understood: brackets are matched on
a stack, strings are not decoded and numbers are not evaluated.
-/

namespace Z80

namespace Json

/-- What is wrong with a document. -/
inductive Error where
  /-- It ends too early. -/
  | eof
  /-- It is not JSON, or something follows it. -/
  | notJson
  /-- It is JSON of the wrong shape. -/
  | shape
deriving DecidableEq, Repr

/-- The name of an error. -/
def Error.name : Error → String
  | eof => "eof"
  | notJson => "syntax"
  | shape => "data"

/-- The code of an ASCII character. -/
def code (c : Char) : UInt8 := UInt8.ofNat c.toNat

/-- Blanks, tabs and line ends. -/
def isSpace (b : UInt8) : Bool := b == 0x20 || b == 0x0A || b == 0x09 || b == 0x0D

def isDigit (b : UInt8) : Bool := decide (0x30 ≤ b ∧ b ≤ 0x39)

/-- The bytes from the first that is no space. -/
def trim (s : List UInt8) : List UInt8 := s.dropWhile isSpace

/-- The rest of a word of which the first byte has been read. -/
def word : List Char → List UInt8 → Except Error (Unit × List UInt8)
  | [], s => .ok ((), s)
  | _ :: _, [] => .error .eof
  | c :: cs, b :: s => if b = code c then word cs s else .error .notJson

/-! ### Strings -/

/-- The value of a hexadecimal digit. -/
def hexValue? (b : UInt8) : Option Nat :=
  let n := b.toNat
  if 0x30 ≤ n ∧ n ≤ 0x39 then some (n - 0x30)
  else if 0x41 ≤ n ∧ n ≤ 0x46 then some (n - 0x37)
  else if 0x61 ≤ n ∧ n ≤ 0x66 then some (n - 0x57)
  else none

/-- The number that four hexadecimal digits write. -/
def fourHex? (a b c d : UInt8) : Option Nat := do
  return (((← hexValue? a) * 16 + (← hexValue? b)) * 16 + (← hexValue? c)) * 16 + (← hexValue? d)

/-- Four hexadecimal digits. -/
def hexEscape : List UInt8 → Except Error (Nat × List UInt8)
  | a :: b :: c :: d :: s =>
      match fourHex? a b c d with
      | some n => .ok (n, s)
      | none => .error .notJson
  | _ => .error .eof

/-- The byte that an escape of one letter stands for. -/
def simpleEscape? (b : UInt8) : Option UInt8 :=
  if b = code '"' ∨ b = code '\\' ∨ b = code '/' then some b
  else if b = code 'b' then some 0x08
  else if b = code 'f' then some 0x0C
  else if b = code 'n' then some 0x0A
  else if b = code 'r' then some 0x0D
  else if b = code 't' then some 0x09
  else none

/-- The lower half of a surrogate pair, behind the upper half. -/
def lowerSurrogate : List UInt8 → Except Error (Nat × List UInt8)
  | [] => .error .eof
  | [b] => .error (if b = code '\\' then .eof else .notJson)
  | b :: u :: s =>
      if b = code '\\' ∧ u = code 'u' then do
        let (n, s) ← hexEscape s
        if 0xDC00 ≤ n ∧ n ≤ 0xDFFF then .ok (n, s) else .error .notJson
      else .error .notJson

/-- The character that an escape stands for, after the backslash and the `u`. -/
def unicodeEscape (s : List UInt8) : Except Error (List UInt8 × List UInt8) := do
  let (n, s) ← hexEscape s
  if 0xDC00 ≤ n ∧ n ≤ 0xDFFF then .error .notJson
  else if 0xD800 ≤ n ∧ n ≤ 0xDBFF then
    let (m, s) ← lowerSurrogate s
    .ok (String.utf8EncodeChar (Char.ofNat ((n - 0xD800) * 0x400 + (m - 0xDC00) + 0x10000)), s)
  else .ok (String.utf8EncodeChar (Char.ofNat n), s)

/-- An escape, after the backslash. -/
def escape : List UInt8 → Except Error (List UInt8 × List UInt8)
  | [] => .error .eof
  | b :: s =>
      match simpleEscape? b with
      | some c => .ok ([c], s)
      | none => if b = code 'u' then unicodeEscape s else .error .notJson

/-- An escape that is passed over: surrogates need not come in pairs. -/
def skipEscape : List UInt8 → Except Error (Unit × List UInt8)
  | [] => .error .eof
  | b :: s =>
      match simpleEscape? b with
      | some _ => .ok ((), s)
      | none =>
          if b = code 'u' then do
            let (_, s) ← hexEscape s
            return ((), s)
          else .error .notJson

/-- The rest of a string up to its closing quote.  `fuel` exceeds the number of bytes left. -/
def stringLoop (unescape : List UInt8 → Except Error (List UInt8 × List UInt8)) :
    (fuel : Nat) → (seen : List UInt8) → List UInt8 → Except Error (List UInt8 × List UInt8)
  | 0, _, _ => .error .eof
  | _, _, [] => .error .eof
  | fuel + 1, seen, b :: s =>
      if b = code '"' then .ok (seen.reverse, s)
      else if b = code '\\' then do
        let (bytes, s) ← unescape s
        stringLoop unescape fuel (bytes.reverse ++ seen) s
      else if b < 0x20 then .error .notJson
      else stringLoop unescape fuel (b :: seen) s

/-- A string, after its opening quote. -/
def string (s : List UInt8) : Except Error (List UInt8 × List UInt8) := stringLoop escape (s.length + 1) [] s

/-- A string that is passed over, after its opening quote. -/
def skipString (s : List UInt8) : Except Error (Unit × List UInt8) := do
  let pass (s : List UInt8) : Except Error (List UInt8 × List UInt8) := do
    let (_, s) ← skipEscape s
    return ([], s)
  let (_, s) ← stringLoop pass (s.length + 1) [] s
  return ((), s)

/-! ### Numbers -/

/-- The digits at the start, and what follows them. -/
def digits (s : List UInt8) : List Nat × List UInt8 :=
  ((s.takeWhile isDigit).map fun b => b.toNat - 0x30, s.dropWhile isDigit)

/-- Takes in digits while the number stays below 2⁶⁴; also says how many digits were not taken in. -/
def significand : Nat → List Nat → Nat × Nat
  | n, [] => (n, 0)
  | n, d :: ds => if n * 10 + d < 2 ^ 64 then significand (n * 10 + d) ds else (n, ds.length + 1)

/-- Is a significand times a power of ten beyond every finite double? -/
def overflows (n : Nat) (exponent : Int) : Bool :=
  n != 0 && decide (0 ≤ exponent) &&
    (decide (308 < exponent) ||
      ((UInt64.ofNat n).toFloat * Float.ofScientific 1 false exponent.toNat).isInf)

/-- A number that is not a natural one, which is an error if it is too large. -/
def float (n : Nat) (exponent : Int) (s : List UInt8) : Except Error (Option Nat × List UInt8) :=
  if overflows n exponent then .error .notJson else .ok (none, s)

/-- The exponent of a number, after the letter. -/
def exponentPart (n : Nat) (start : Int) (s : List UInt8) : Except Error (Option Nat × List UInt8) :=
  let (negative, s) :=
    match s with
    | b :: rest => if b = code '-' then (true, rest) else if b = code '+' then (false, rest) else (false, s)
    | [] => (false, s)
  match s with
  | [] => .error .eof
  | b :: _ =>
      if isDigit b then
        let (ds, s) := digits s
        let e : Int := Int.ofNat (ds.foldl (fun e d => min (e * 10 + d) 0x80000000) 0)
        float n (if negative then start - e else start + e) s
      else .error .notJson

/-- What may follow the digits of a number: an exponent, or nothing. -/
def afterDigits (n : Nat) (exponent : Int) (s : List UInt8) : Except Error (Option Nat × List UInt8) :=
  match s with
  | b :: rest => if b = code 'e' ∨ b = code 'E' then exponentPart n exponent rest else float n exponent s
  | [] => float n exponent s

/-- The decimals of a number, after the point. -/
def fractionPart (n : Nat) (start : Int) (s : List UInt8) : Except Error (Option Nat × List UInt8) :=
  match digits s with
  | ([], []) => .error .eof
  | ([], _ :: _) => .error .notJson
  | (ds, s) =>
      let (n, dropped) := significand n ds
      afterDigits n (start - (ds.length - dropped)) s

/--
A number, after its sign.  The value is there if it is a natural number below 2⁶⁴, for
which the sign has to be absent.
-/
def number (negative : Bool) (s : List UInt8) : Except Error (Option Nat × List UInt8) :=
  match s with
  | [] => .error .eof
  | b :: rest =>
      if !isDigit b then .error .notJson
      else
        let (ds, after) := if b = code '0' then ([0], rest) else digits s
        let leadingZero :=
          match rest with
          | c :: _ => b == code '0' && isDigit c
          | [] => false
        if leadingZero then .error .notJson
        else
          let (n, dropped) := significand 0 ds
          match after with
          | [] => if dropped = 0 then .ok (if negative then none else some n, after) else float n dropped after
          | c :: tail =>
              if c = code '.' then fractionPart n dropped tail
              else if c = code 'e' ∨ c = code 'E' then exponentPart n dropped tail
              else if dropped = 0 then .ok (if negative then none else some n, after)
              else float n dropped after

/-- A number that is passed over, after its sign: at the end of the document, too, a missing digit is no JSON. -/
def skipNumber (s : List UInt8) : Except Error (Unit × List UInt8) :=
  match s with
  | [] => .error .notJson
  | b :: rest =>
      if !isDigit b then .error .notJson
      else
        let s := if b = code '0' then rest else rest.dropWhile isDigit
        match s with
        | [] => .ok ((), s)
        | c :: tail =>
            if isDigit c then .error .notJson
            else if c = code '.' then
              match digits tail with
              | ([], _) => .error .notJson
              | (_, []) => .ok ((), [])
              | (_, e :: more) => if e = code 'e' ∨ e = code 'E' then skipExponent more else .ok ((), e :: more)
            else if c = code 'e' ∨ c = code 'E' then skipExponent tail
            else .ok ((), s)
where
  /-- The exponent of a number that is passed over, after the letter. -/
  skipExponent (s : List UInt8) : Except Error (Unit × List UInt8) :=
    let s :=
      match s with
      | b :: rest => if b = code '-' ∨ b = code '+' then rest else s
      | [] => s
    match digits s with
    | ([], _) => .error .notJson
    | (_, s) => .ok ((), s)

/-! ### Values that are passed over -/

/-- An open bracket. -/
inductive Bracket where
  | list
  | record
deriving DecidableEq, Repr

/-- The byte that closes a bracket. -/
def Bracket.close : Bracket → UInt8
  | .list => code ']'
  | .record => code '}'

/-- A key that is passed over, with the colon after it. -/
def skipKey (s : List UInt8) : Except Error (Unit × List UInt8) :=
  match trim s with
  | [] => .error .eof
  | b :: s =>
      if b = code '"' then do
        let (_, s) ← skipString s
        match trim s with
        | [] => .error .eof
        | b :: s => if b = code ':' then .ok ((), s) else .error .notJson
      else .error .notJson

/-- A value without brackets that is passed over. -/
def skipScalar (b : UInt8) (s : List UInt8) : Except Error (Unit × List UInt8) :=
  if b = code 'n' then word ['u', 'l', 'l'] s
  else if b = code 't' then word ['r', 'u', 'e'] s
  else if b = code 'f' then word ['a', 'l', 's', 'e'] s
  else if b = code '"' then skipString s
  else if b = code '-' then skipNumber s
  else if isDigit b then skipNumber (b :: s)
  else .error .notJson

/--
Passes over a value, or over what follows one inside the brackets that are open, innermost
first.  Every round but the last takes a byte, so `fuel` need only exceed their number.
-/
def skipLoop : (fuel : Nat) → (atValue : Bool) → List Bracket → List UInt8 → Except Error (Unit × List UInt8)
  | 0, _, _, _ => .error .eof
  | fuel + 1, true, stack, s =>
      match trim s with
      | [] => .error .eof
      | b :: s =>
          if b = code '[' then
            match trim s with
            | [] => .error .eof
            | c :: rest =>
                if c = code ']' then skipLoop fuel false stack rest
                else skipLoop fuel true (.list :: stack) (c :: rest)
          else if b = code '{' then
            match trim s with
            | [] => .error .eof
            | c :: rest =>
                if c = code '}' then skipLoop fuel false stack rest
                else do
                  let (_, s) ← skipKey (c :: rest)
                  skipLoop fuel true (.record :: stack) s
          else do
            let (_, s) ← skipScalar b s
            skipLoop fuel false stack s
  | _ + 1, false, [], s => .ok ((), s)
  | fuel + 1, false, bracket :: stack, s =>
      match trim s with
      | [] => .error .eof
      | b :: s =>
          if b = bracket.close then skipLoop fuel false stack s
          else if b = code ',' then
            match bracket with
            | .list => skipLoop fuel true (bracket :: stack) s
            | .record => do
                let (_, s) ← skipKey s
                skipLoop fuel true (bracket :: stack) s
          else .error .notJson

/-- Passes over a value. -/
def skip (s : List UInt8) : Except Error (Unit × List UInt8) := skipLoop (s.length + 2) true [] s

end Json

end Z80
