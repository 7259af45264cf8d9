/-
Records in JSON.

A record is a fixed list of named fields, each a truth value or a number of a given width.
It is written as an object with the fields in their order and nothing between them.  It is
read from an object that has each field exactly once, in any order and among fields of
other names, which are passed over; or from an array of the values in their order.

`Record.read` is the only reader.  It reports the first thing that is wrong as the bytes
come in: a field that comes twice is noticed when its name comes again, a field that is
missing when the object ends.
-/
import Z80.Json.Text
import Z80.Value

namespace Z80

namespace Json

/-- Names and widths of the fields of a record. -/
abbrev Schema := List (String × Width)

/-- The value of a field, written out. -/
def writeValue : Value → String
  | .bool b => if b then "true" else "false"
  | v => toString v.toUInt64.toNat

namespace Record

/-- A record as an object, without blanks. -/
def write (fields : List (String × Value)) : String :=
  "\x7b" ++ ",".intercalate (fields.map fun (name, v) => "\"" ++ name ++ "\":" ++ writeValue v) ++ "\x7d"

/-- Something of the wrong type, which has to be well formed nevertheless before it is called wrong. -/
def wrongType (b : UInt8) (s : List UInt8) : Error :=
  let scanned : Except Error Unit :=
    if b = code 'n' then (word ['u', 'l', 'l'] s).map fun _ => ()
    else if b = code 't' then (word ['r', 'u', 'e'] s).map fun _ => ()
    else if b = code 'f' then (word ['a', 'l', 's', 'e'] s).map fun _ => ()
    else if b = code '-' then (number true s).map fun _ => ()
    else if isDigit b then (number false (b :: s)).map fun _ => ()
    else if b = code '"' then (string s).map fun _ => ()
    else if b = code '[' ∨ b = code '{' then .ok ()
    else .error .notJson
  match scanned with
  | .ok () => .shape
  | .error e => e

/-- A value of a width. -/
def value (width : Width) (s : List UInt8) : Except Error (Value × List UInt8) :=
  match trim s with
  | [] => .error .eof
  | b :: s =>
      match width with
      | .bool =>
          if b = code 't' then (word ['r', 'u', 'e'] s).map fun (_, s) => (.bool true, s)
          else if b = code 'f' then (word ['a', 'l', 's', 'e'] s).map fun (_, s) => (.bool false, s)
          else .error (wrongType b s)
      | _ =>
          if b = code '-' ∨ isDigit b then do
            let (n, s) ← if b = code '-' then number true s else number false (b :: s)
            match n.bind width.ofNat? with
            | some v => .ok (v, s)
            | none => .error .shape
          else .error (wrongType b s)

/-! ### Objects -/

/-- The colon between a name and a value. -/
def colon (s : List UInt8) : Except Error (Unit × List UInt8) :=
  match trim s with
  | [] => .error .eof
  | b :: s => if b = code ':' then .ok ((), s) else .error .notJson

/-- The field of a given name, if the record has one. -/
def field? (schema : Schema) (name : List UInt8) : Option (String × Width) :=
  schema.find? fun (known, _) => known.toUTF8.toList == name

/-- One name and its value, after the quote that opens the name. -/
def member (schema : Schema) (found : List (String × Value)) (s : List UInt8) :
    Except Error (List (String × Value) × List UInt8) := do
  let (name, s) ← string s
  match field? schema name with
  | some (known, width) =>
      if (found.lookup known).isSome then .error .shape
      else
        let (_, s) ← colon s
        let (v, s) ← value width s
        .ok ((known, v) :: found, s)
  | none =>
      let (_, s) ← colon s
      let (_, s) ← skip s
      .ok (found, s)

/-- The values in the order of the fields, if none is missing. -/
def complete (schema : Schema) (found : List (String × Value)) : Except Error (List Value) :=
  match schema.mapM fun (name, _) => found.lookup name with
  | some values => .ok values
  | none => .error .shape

/-- The members of an object from one on whose quote comes next.  `fuel` exceeds the number of bytes left. -/
def members (schema : Schema) : (fuel : Nat) → List (String × Value) → List UInt8 → Except Error (List Value × List UInt8)
  | 0, _, _ => .error .eof
  | fuel + 1, found, s => do
      let (found, s) ← member schema found s
      match trim s with
      | [] => .error .eof
      | b :: s =>
          if b = code '}' then return (← complete schema found, s)
          else if b = code ',' then
            match trim s with
            | [] => .error .eof
            | c :: s => if c = code '"' then members schema fuel found s else .error .notJson
          else .error .notJson

/-- An object, after its opening brace. -/
def object (schema : Schema) (s : List UInt8) : Except Error (List Value × List UInt8) :=
  match trim s with
  | [] => .error .eof
  | b :: s =>
      if b = code '}' then do return (← complete schema [], s)
      else if b = code '"' then members schema (s.length + 1) [] s
      else .error .notJson

/-! ### Arrays -/

/-- The values of an array that are still to come, after a value. -/
def furtherElements : Schema → List UInt8 → Except Error (List Value × List UInt8)
  | [], s =>
      match trim s with
      | [] => .error .eof
      | b :: s => if b = code ']' then .ok ([], s) else .error .notJson
  | (_, width) :: schema, s =>
      match trim s with
      | [] => .error .eof
      | b :: s =>
          if b = code ']' then .error .shape
          else if b = code ',' then
            match trim s with
            | [] => .error .eof
            | c :: rest =>
                if c = code ']' then .error .notJson
                else do
                  let (v, s) ← value width (c :: rest)
                  let (values, s) ← furtherElements schema s
                  return (v :: values, s)
          else .error .notJson

/-- An array, after its opening bracket. -/
def array (schema : Schema) (s : List UInt8) : Except Error (List Value × List UInt8) :=
  match schema, trim s with
  | [], s => furtherElements [] s
  | _ :: _, [] => .error .eof
  | (_, width) :: schema, b :: s =>
      if b = code ']' then .error .shape
      else do
        let (v, s) ← value width (b :: s)
        let (values, s) ← furtherElements schema s
        return (v :: values, s)

/-! ### Documents -/

/-- The values of a record from a document that holds nothing else. -/
def read (schema : Schema) (text : String) : Except Error (List Value) :=
  match trim text.toUTF8.toList with
  | [] => .error .eof
  | b :: s => do
      let (values, s) ←
        if b = code '{' then object schema s
        else if b = code '[' then array schema s
        else .error (wrongType b s)
      match trim s with
      | [] => return values
      | _ :: _ => .error .notJson

end Record

end Json

end Z80
