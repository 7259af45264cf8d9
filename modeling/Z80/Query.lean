/-
Looking at a machine by name.

A debugger asks for parts of the state by path, `pc` or `flags.z` for example, and gets a
value.  All paths are in one table with what they show, so the list of paths and the
answers agree.
-/
import Z80.Machine
import Z80.Value

namespace Z80

namespace Machine

variable {β : Type}

/-- Every path and what it shows. -/
def queries (m : Machine β) : List (String × Value) :=
  let r := m.cpu.regs
  let f := m.cpu.flags
  [ ("a", .byte r.main.a), ("f", .byte r.main.f), ("b", .byte r.main.b), ("c", .byte r.main.c),
    ("d", .byte r.main.d), ("e", .byte r.main.e), ("h", .byte r.main.h), ("l", .byte r.main.l),
    ("af", .word r.main.af), ("bc", .word r.main.bc), ("de", .word r.main.de), ("hl", .word r.main.hl),
    ("af'", .word r.alternate.af), ("bc'", .word r.alternate.bc),
    ("de'", .word r.alternate.de), ("hl'", .word r.alternate.hl),
    ("ix", .word r.ix), ("iy", .word r.iy),
    ("ixh", .byte (r.get8 .ixh)), ("ixl", .byte (r.get8 .ixl)),
    ("iyh", .byte (r.get8 .iyh)), ("iyl", .byte (r.get8 .iyl)),
    ("sp", .word r.sp), ("pc", .word r.pc), ("i", .byte r.i), ("r", .byte r.r), ("wz", .word r.wz),
    ("flags.s", .bool f.sign), ("flags.z", .bool f.zero), ("flags.y", .bool f.y),
    ("flags.h", .bool f.half), ("flags.x", .bool f.x), ("flags.p", .bool f.parity),
    ("flags.n", .bool f.subtract), ("flags.c", .bool f.carry),
    ("iff1", .bool r.iff1), ("iff2", .bool r.iff2), ("im", .byte r.im), ("halted", .bool r.halted),
    ("int_pending", .bool m.cpu.interrupt.isSome), ("nmi_pending", .bool m.cpu.nmi),
    ("t_states.total", .quad (.ofNat m.clock.total)),
    ("t_states.current", .long m.clock.current),
    ("t_states.target", .long m.clock.target) ]

/-- What a path shows, if it is one. -/
def query (m : Machine β) (path : String) : Option Value := m.queries.lookup path

end Machine

end Z80
