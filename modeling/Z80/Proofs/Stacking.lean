/-
The stack.

Words that have been pushed come off the stack in reverse order, wherever the stack pointer starts and
even if it goes round the end of memory on the way, as long as they fit into memory all at once.  What
carries this through is `Memory.Stacked`, the words that lie on the stack with the topmost first.  A push
adds one, because the two bytes that it writes are none of those that are on the stack already
(`Stacked.pushed`), and a pop takes one off and leaves memory alone.

The words themselves stay in memory when they are off the stack again, so all that is promised of memory
is a frame: no byte has changed but those below where the stack pointer started, two for each word.
-/
import Z80.Proofs.Resuming

namespace Z80

namespace Cpu

/-- Pushes words, one after the other. -/
def pushAll (cpu : Cpu) : List UInt16 → Script Cpu
  | [] => return cpu
  | w :: ws => do (← cpu.push w).pushAll ws

/-- Pops a number of words, one after the other. -/
def popAll (cpu : Cpu) : Nat → Script (List UInt16 × Cpu)
  | 0 => return ([], cpu)
  | n + 1 => do
      let (w, cpu) ← cpu.pop
      let (ws, cpu) ← cpu.popAll n
      return (w :: ws, cpu)

end Cpu

/-! ### Addresses on both sides of the stack pointer -/

namespace Word

/-- Words are two bytes long. -/
theorem ofNat_two_mul_succ (n : Nat) : UInt16.ofNat (2 * (n + 1)) = .ofNat (2 * n) + 2 := by
  rw [Nat.mul_add, UInt16.ofNat_add]
  rfl

/-- Going down a word and then further words. -/
theorem sub_two_sub (sp : UInt16) (n : Nat) : sp - 2 - .ofNat (2 * n) = sp - .ofNat (2 * (n + 1)) := by
  rw [ofNat_two_mul_succ]
  grind

/-- Going up a word and then further words. -/
theorem add_two_add (sp : UInt16) (n : Nat) : sp + 2 + .ofNat (2 * n) = sp + .ofNat (2 * (n + 1)) := by
  rw [ofNat_two_mul_succ]
  grind

/-- The address `i` bytes down from the one below the stack pointer. -/
def below (sp : UInt16) (i : Nat) : UInt16 := sp - 1 - .ofNat i

theorem below_zero (sp : UInt16) : below sp 0 = sp - 1 := UInt16.sub_zero _

theorem below_one (sp : UInt16) : below sp 1 = sp - 2 := by
  have hone : UInt16.ofNat 1 = 1 := rfl
  rw [below, hone]
  grind

theorem below_sub_two (sp : UInt16) (i : Nat) : below (sp - 2) i = below sp (i + 2) := by
  have htwo : UInt16.ofNat 2 = 2 := rfl
  rw [below, below, UInt16.ofNat_add, htwo]
  grind

/-- What is at or above the stack pointer is not below it, unless memory has been gone round. -/
theorem add_ofNat_ne_below {sp : UInt16} {i j : Nat} (h : i + j + 1 < 65536) :
    sp + .ofNat i ≠ below sp j := by
  intro heq
  have hzero : UInt16.ofNat (i + j + 1) = 0 := by
    have hone : UInt16.ofNat 1 = 1 := rfl
    rw [below] at heq
    rw [UInt16.ofNat_add, UInt16.ofNat_add, hone]
    grind
  have hvalue := congrArg UInt16.toNat hzero
  rw [UInt16.toNat_ofNat', Nat.mod_eq_of_lt h] at hvalue
  exact absurd hvalue (Nat.succ_ne_zero _)

end Word

/-! ### Words on the stack -/

open Word (below below_zero below_one below_sub_two ofNat_two_mul_succ)

namespace Memory

/-- The memory after words have been pushed, one after the other. -/
def piled (memory : Memory) (sp : UInt16) : List UInt16 → Memory
  | [] => memory
  | w :: ws => (memory.pushed sp w).piled (sp - 2) ws

/-- Words lie on the stack, the topmost first. -/
def Stacked (memory : Memory) (sp : UInt16) (ws : List UInt16) : Prop :=
  ∀ i w, ws[i]? = some w → peekWord memory (sp + .ofNat (2 * i)) = w

theorem peek_pushed_low (memory : Memory) (sp w : UInt16) :
    peek (memory.pushed sp w) (sp - 2) = Word.low w := by
  rw [pushed, peek_store, if_pos rfl]

theorem peek_pushed_high (memory : Memory) (sp w : UInt16) :
    peek (memory.pushed sp w) (sp - 1) = Word.high w := by
  have hne : sp - 2 ≠ sp - 1 := by grind
  rw [pushed, peek_store, if_neg hne, peek_store, if_pos rfl]

theorem piled_concat (memory : Memory) (sp : UInt16) (ws : List UInt16) (w : UInt16) :
    memory.piled sp (ws ++ [w]) = (memory.piled sp ws).pushed (sp - .ofNat (2 * ws.length)) w := by
  induction ws generalizing memory sp with
  | nil =>
      show memory.pushed sp w = memory.pushed (sp - 0) w
      rw [UInt16.sub_zero]
  | cons v ws ih =>
      rw [List.cons_append, piled, ih, Word.sub_two_sub, List.length_cons, piled]

/-- Pushing leaves alone all but two bytes for each word. -/
theorem peek_piled_of_ne {address : UInt16} (memory : Memory) (sp : UInt16) (ws : List UInt16)
    (h : ∀ i < 2 * ws.length, address ≠ below sp i) :
    peek (memory.piled sp ws) address = peek memory address := by
  induction ws generalizing memory sp with
  | nil => rfl
  | cons w ws ih =>
      rw [List.length_cons] at h
      have hhigh : address ≠ sp - 1 := below_zero sp ▸ h 0 (by omega)
      have hlow : address ≠ sp - 2 := below_one sp ▸ h 1 (by omega)
      have hrest : ∀ i < 2 * ws.length, address ≠ below (sp - 2) i := by
        intro i hi
        rw [below_sub_two]
        exact h (i + 2) (by omega)
      rw [piled, ih _ _ hrest, peek_pushed_of_ne memory sp w hhigh hlow]

/-- A push adds a word to the stack, which must not fill memory already. -/
theorem Stacked.pushed {memory : Memory} {sp : UInt16} {ws : List UInt16} (h : memory.Stacked sp ws)
    (w : UInt16) (hfits : ws.length < 32768) : (memory.pushed sp w).Stacked (sp - 2) (w :: ws) := by
  intro i v hv
  cases i with
  | zero =>
      rw [List.getElem?_cons_zero, Option.some.injEq] at hv
      have htop : sp - 2 + .ofNat (2 * 0) = sp - 2 := UInt16.add_zero _
      rw [htop, peekWord_pushed, hv]
  | succ i =>
      rw [List.getElem?_cons_succ] at hv
      have hi : i < ws.length := (List.getElem?_eq_some_iff.mp hv).1
      have haddress : sp - 2 + .ofNat (2 * (i + 1)) = sp + .ofNat (2 * i) := by
        rw [ofNat_two_mul_succ]
        grind
      -- neither byte of a word that is on the stack is one of the two below the stack pointer
      have hkept : ∀ j < 2 * ws.length,
          peek (memory.pushed sp w) (sp + .ofNat j) = peek memory (sp + .ofNat j) := by
        intro j hj
        refine peek_pushed_of_ne memory sp w ?_ ?_
        · exact below_zero sp ▸ Word.add_ofNat_ne_below (by omega)
        · exact below_one sp ▸ Word.add_ofNat_ne_below (by omega)
      have hnext : sp + .ofNat (2 * i) + 1 = sp + .ofNat (2 * i + 1) := by
        have hone : UInt16.ofNat 1 = 1 := rfl
        rw [UInt16.ofNat_add, hone, UInt16.add_assoc]
      have hword := h i v hv
      rw [peekWord, hnext] at hword
      rw [haddress, peekWord, hnext, hkept _ (by omega), hkept _ (by omega), hword]

/-- Words that are pushed lie on top of those that were there, the last one topmost. -/
theorem Stacked.piled {memory : Memory} {sp : UInt16} {vs : List UInt16} (h : memory.Stacked sp vs)
    (ws : List UInt16) (hfits : ws.length + vs.length ≤ 32768) :
    (memory.piled sp ws).Stacked (sp - .ofNat (2 * ws.length)) (ws.reverse ++ vs) := by
  induction ws generalizing memory sp vs with
  | nil =>
      show memory.Stacked (sp - 0) vs
      rwa [UInt16.sub_zero]
  | cons w ws ih =>
      rw [List.length_cons] at hfits
      have hrest := ih (h.pushed w (by omega)) (by rw [List.length_cons]; omega)
      rw [Word.sub_two_sub] at hrest
      rwa [List.reverse_cons, List.append_assoc, List.singleton_append, List.length_cons]

theorem Stacked.tail {memory : Memory} {sp w : UInt16} {ws : List UInt16}
    (h : memory.Stacked sp (w :: ws)) : memory.Stacked (sp + 2) ws := by
  intro i v hv
  rw [Word.add_two_add]
  exact h (i + 1) v hv

theorem Stacked.head {memory : Memory} {sp w : UInt16} {ws : List UInt16}
    (h : memory.Stacked sp (w :: ws)) : peekWord memory sp = w := by
  have htop : sp + .ofNat (2 * 0) = sp := UInt16.add_zero sp
  rw [← htop]
  exact h 0 w rfl

end Memory

/-! ### Pushing and popping -/

namespace Cpu

theorem run_pushAll (cpu : Cpu) (ws : List UInt16) (t : Timed (Board Memory)) :
    (cpu.pushAll ws).run t =
      (cpu.setSP (cpu.regs.sp - .ofNat (2 * ws.length)),
        ⟨t.clock.advance (6 * ws.length), { t.bus with memory := t.bus.memory.piled cpu.regs.sp ws }⟩) := by
  induction ws generalizing cpu t with
  | nil =>
      show (cpu, t) = (cpu.setSP (cpu.regs.sp - 0), ⟨t.clock.advance 0, t.bus⟩)
      rw [UInt16.sub_zero, Clock.advance_zero]
      rfl
  | cons w ws ih =>
      have htime : 6 + 6 * ws.length = 6 * (ws.length + 1) := by omega
      simp only [pushAll, push, Script.run_bind', Script.run_push, Script.run_pure, ih, Clock.advance_advance,
        htime, List.length_cons, Memory.piled]
      simp only [setSP, Word.sub_two_sub]

/-- Popping as many words as lie on the stack brings them up, the topmost first. -/
theorem run_popAll {cpu : Cpu} {ws : List UInt16} {t : Timed (Board Memory)}
    (h : t.bus.memory.Stacked cpu.regs.sp ws) :
    (cpu.popAll ws.length).run t =
      ((ws, cpu.setSP (cpu.regs.sp + .ofNat (2 * ws.length))), t.advance (6 * ws.length)) := by
  induction ws generalizing cpu t with
  | nil =>
      show (([], cpu), t) = (([], cpu.setSP (cpu.regs.sp + 0)), ⟨t.clock.advance 0, t.bus⟩)
      rw [UInt16.add_zero, Clock.advance_zero]
      rfl
  | cons w ws ih =>
      have htime : 6 + 6 * ws.length = 6 * (ws.length + 1) := by omega
      have hrest : (t.advance 6).bus.memory.Stacked (cpu.setSP (cpu.regs.sp + 2)).regs.sp ws := h.tail
      simp only [List.length_cons, popAll, pop, Script.run_bind', Script.run_pop, Script.run_pure, h.head,
        ih hrest, Timed.advance_advance, htime]
      simp only [setSP, Word.add_two_add]

/-- A word has been pushed: its high byte is below where the stack pointer was, and its low byte below that. -/
structure Pushes (w : UInt16) (before after : Cpu × Timed (Board Memory)) : Prop where
  cpu : after.1 = before.1.setSP (before.1.regs.sp - 2)
  ports : after.2.bus.ports = before.2.bus.ports
  high : peek after.2.bus.memory (before.1.regs.sp - 1) = Word.high w
  low : peek after.2.bus.memory (before.1.regs.sp - 2) = Word.low w
  frame : ∀ address, address ≠ before.1.regs.sp - 1 → address ≠ before.1.regs.sp - 2 →
    peek after.2.bus.memory address = peek before.2.bus.memory address

theorem pushAll_pushes (cpu : Cpu) (ws : List UInt16) (w : UInt16) (t : Timed (Board Memory)) :
    Pushes w ((cpu.pushAll ws).run t) ((cpu.pushAll (ws ++ [w])).run t) := by
  rw [run_pushAll, run_pushAll, Memory.piled_concat, List.length_append, List.length_singleton]
  constructor
  case cpu =>
    have hsp : cpu.regs.sp - .ofNat (2 * (ws.length + 1)) = cpu.regs.sp - .ofNat (2 * ws.length) - 2 := by
      rw [ofNat_two_mul_succ]
      grind
    simp only [setSP, hsp]
  case ports => rfl
  case high => exact Memory.peek_pushed_high _ _ w
  case low => exact Memory.peek_pushed_low _ _ w
  case frame => exact fun _ hhigh hlow => Memory.peek_pushed_of_ne _ _ w hhigh hlow

/--
**The stack gives back what has been pushed, in reverse order.**  From any stack pointer as many words can
be pushed as fit into memory, and each push puts its two bytes below those of the one before.  Popping as
many brings the words up from the last to the first and leaves the processor as it was, the stack pointer
included, and memory as the pushes have left it.  In that memory only the bytes below the stack pointer
that the pushes cover have changed.
-/
theorem popAll_pushAll (cpu : Cpu) (ws : List UInt16) (h : ws.length ≤ 32768)
    (t : Timed (Board Memory)) :
    let pushed := (cpu.pushAll ws).run t
    let popped := (pushed.1.popAll ws.length).run pushed.2
    popped.1 = (ws.reverse, cpu) ∧ popped.2.bus = pushed.2.bus ∧ pushed.2.bus.ports = t.bus.ports ∧
      (∀ address, (∀ i < 2 * ws.length, address ≠ below cpu.regs.sp i) →
        peek pushed.2.bus.memory address = peek t.bus.memory address) ∧
      ∀ before w after, ws = before ++ w :: after →
        Pushes w ((cpu.pushAll before).run t) ((cpu.pushAll (before ++ [w])).run t) := by
  intro pushed popped
  have hpushed : pushed = _ := cpu.run_pushAll ws t
  have hempty : t.bus.memory.Stacked cpu.regs.sp [] := fun i w hw => absurd hw (by simp)
  have hstacked : pushed.2.bus.memory.Stacked pushed.1.regs.sp ws.reverse := by
    rw [hpushed, ← List.append_nil ws.reverse]
    exact hempty.piled ws h
  have hpopped := run_popAll hstacked
  have hcpu : pushed.1.setSP (pushed.1.regs.sp + .ofNat (2 * ws.length)) = cpu := by
    have hsp : cpu.regs.sp - .ofNat (2 * ws.length) + .ofNat (2 * ws.length) = cpu.regs.sp :=
      UInt16.sub_add_cancel _ _
    simp only [hpushed, setSP, hsp]
  rw [List.length_reverse, hcpu] at hpopped
  refine ⟨congrArg (·.1) hpopped, congrArg (·.2.bus) hpopped, ?_, fun address haddress => ?_, ?_⟩
  · rw [hpushed]
  · rw [hpushed]
    exact Memory.peek_piled_of_ne t.bus.memory cpu.regs.sp ws haddress
  · rintro before w after -
    exact cpu.pushAll_pushes before w t

/-- The first of three words is split by the end of memory. -/
theorem popAll_pushAll_split :
    ([0x1234, 0x5678, 0x9ABC] : List UInt16).length ≤ 32768 ∧
    let cpu := (Cpu.powerOn .standard).setSP 0x0001
    let pushed := (cpu.pushAll [0x1234, 0x5678, 0x9ABC]).run ⟨.zero, Board.blank⟩
    ((pushed.1.popAll 3).run pushed.2).1 = ([0x9ABC, 0x5678, 0x1234], cpu) ∧
      peek pushed.2.bus.memory 0x0000 = 0x12 ∧ peek pushed.2.bus.memory 0xFFFF = 0x34 ∧
      peek pushed.2.bus.memory 0x0001 = 0x00 := by
  obtain ⟨hwords, -, -, hframe, -⟩ := popAll_pushAll ((Cpu.powerOn .standard).setSP 0x0001)
    [0x1234, 0x5678, 0x9ABC] (by decide) ⟨.zero, Board.blank⟩
  refine ⟨by decide, hwords, rfl, rfl, ?_⟩
  rw [hframe 0x0001 (by decide)]
  rfl

end Cpu

end Z80
