/-
Snapshots and clocks on file.

Both are JSON records whose fields are named as they always have been.  A clock is stored
without its pending request to yield, so a clock that is read has none.
-/
import Z80.Json.Record
import Z80.Snapshot

namespace Z80

namespace Snapshot

/-- Names and widths of the fields, in their order. -/
def schema : Json.Schema :=
  [ ("af", .word), ("bc", .word), ("de", .word), ("hl", .word),
    ("af_alt", .word), ("bc_alt", .word), ("de_alt", .word), ("hl_alt", .word),
    ("ix", .word), ("iy", .word), ("sp", .word), ("pc", .word),
    ("i", .byte), ("r", .byte), ("im", .byte), ("iff1", .bool), ("iff2", .bool) ]

/-- The fields, in their order. -/
def values (s : Snapshot) : List Value :=
  [ .word s.af, .word s.bc, .word s.de, .word s.hl,
    .word s.afAlternate, .word s.bcAlternate, .word s.deAlternate, .word s.hlAlternate,
    .word s.ix, .word s.iy, .word s.sp, .word s.pc,
    .byte s.i, .byte s.r, .byte s.im, .bool s.iff1, .bool s.iff2 ]

/-- The snapshot with the given fields. -/
def ofValues? : List Value → Option Snapshot
  | [ .word af, .word bc, .word de, .word hl, .word af', .word bc', .word de', .word hl',
      .word ix, .word iy, .word sp, .word pc, .byte i, .byte r, .byte im, .bool iff1, .bool iff2 ] =>
      some ⟨af, bc, de, hl, af', bc', de', hl', ix, iy, sp, pc, i, r, im, iff1, iff2⟩
  | _ => none

theorem ofValues?_values (s : Snapshot) : ofValues? s.values = some s := rfl

/-- The fields with their names. -/
def fields (s : Snapshot) : List (String × Value) := (schema.map Prod.fst).zip s.values

/-- A snapshot as a JSON document. -/
def toJson (s : Snapshot) : String := Json.Record.write s.fields

/-- The snapshot that a JSON document holds. -/
def ofJson (text : String) : Except Json.Error Snapshot := do
  match ofValues? (← Json.Record.read schema text) with
  | some s => return s
  | none => throw .shape

end Snapshot

namespace Clock

/-- Names and widths of the fields, in their order. -/
def schema : Json.Schema := [("total", .quad), ("current", .long), ("target", .long)]

/-- A clock as a JSON document. -/
def toJson (c : Clock) : String :=
  Json.Record.write
    [("total", .quad (.ofNat c.total)), ("current", .long c.current), ("target", .long c.target)]

/-- The clock that a JSON document holds. -/
def ofJson (text : String) : Except Json.Error Clock := do
  match ← Json.Record.read schema text with
  | [.quad total, .long current, .long target] => return ⟨total.toNat, current, target, false⟩
  | _ => throw .shape

end Clock

end Z80
