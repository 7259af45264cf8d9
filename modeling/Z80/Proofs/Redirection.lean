/-
What an index register does to an opcode.

Behind DD or FD an opcode means the index register where it meant HL.  Three different things
come of that.  An opcode that names HL, or its halves, works on the index register instead, as
if the two had changed places; that is `carryOut_swapped`.  One that has (HL) as an operand
reads a displacement and does at the address (index + d) what it would have done at (HL), with
H and L themselves as they are: the same script, with its accesses made at another address
(`Script.redirect`), and later by the time of the addition.  EX DE,HL and EXX do not care.

Behind DD CB and FD CB the operation itself comes after the displacement, as a byte that is
read and not fetched.  It is the operation with (HL) as its operand, done with HL and WZ at
the address, and if its register field says so the byte that it stores is kept in a register.
-/
import Z80.Proofs.Chains
import Z80.Proofs.Swapping

namespace Z80

/-! ### Scripts -/

/-- The same cycle, with an access to `source` made at `target`. -/
def Cycle.redirect (source target : UInt16) : Cycle → Cycle
  | fetch address => fetch (if address = source then target else address)
  | read address => read (if address = source then target else address)
  | write address value => write (if address = source then target else address) value
  | c => c

/-- The byte that a cycle puts into memory, if it does. -/
def Cycle.stored? : Cycle → Option UInt8
  | write _ value => some value
  | _ => none

namespace Script

variable {α γ : Type}

/-- The same script, with all accesses to `source` made at `target`. -/
def redirect (source target : UInt16) : Script α → Script α
  | done a => done a
  | cycle c next => cycle (c.redirect source target) fun b => (next b).redirect source target

/-- The same script, which also tells what byte it has stored last, or `stored` if none. -/
def storing (stored : Option UInt8) : Script α → Script (α × Option UInt8)
  | done a => done (a, stored)
  | cycle c next => cycle c fun b => (next b).storing (c.stored? <|> stored)

/-- On every bus without wait states the script takes `n` T-states. -/
def Takes (s : Script α) (n : Nat) : Prop :=
  ∀ {β : Type} [Bus β] (t : Timed β), Bus.Prompt t.bus → Clock.Elapsed n t.clock (s.run t).2.clock

section Redirect

variable (source target : UInt16)

@[simp] theorem redirect_bind (s : Script α) (f : α → Script γ) :
    (s >>= f).redirect source target = s.redirect source target >>= fun a => (f a).redirect source target := by
  induction s with
  | done a => rfl
  | cycle c next ih => exact congrArg (cycle _) (funext ih)

@[simp] theorem redirect_map (f : α → γ) (s : Script α) :
    (f <$> s).redirect source target = f <$> s.redirect source target := by
  rw [← bind_pure_comp, ← bind_pure_comp, redirect_bind]
  rfl

@[simp] theorem redirect_read : (read source).redirect source target = read target := by
  simp [read, redirect, Cycle.redirect]

@[simp] theorem redirect_write (v : UInt8) :
    (write source v).redirect source target = write target v := by
  simp [write, redirect, Cycle.redirect]

@[simp] theorem redirect_internal (n : Nat) :
    (internal n).redirect source target = internal n := rfl

end Redirect

theorem Ensures.takes {s : Script α} {n : Nat} (h : s.Ensures fun m _ => m = n) : s.Takes n := by
  intro β _ t hp
  obtain ⟨m, rfl, helapsed⟩ := h.run_prompt hp
  exact helapsed

theorem length_redirect (source target : UInt16) (c : Cycle) :
    (c.redirect source target).length = c.length := by
  cases c <;> rfl

@[simp] theorem ensures_redirect (source target : UInt16) (s : Script α) (P : Nat → α → Prop) :
    (s.redirect source target).Ensures P ↔ s.Ensures P := by
  induction s generalizing P with
  | done a => exact Iff.rfl
  | cycle c next ih =>
      show (∀ b, ((next b).redirect source target).Ensures fun n a =>
        P ((c.redirect source target).length + n) a) ↔ ∀ b, (next b).Ensures fun n a => P (c.length + n) a
      rw [length_redirect]
      exact forall_congr' fun b => ih b _

end Script

/-! ### Steps -/

namespace Cpu

variable {β : Type} [Bus β]

theorem run_carryOut (cpu : Cpu) (e : Encoding Instruction) (t : Timed β) :
    (cpu.carryOut e).run t =
      (({ cpu with regs := ((e.script cpu.regs).run t).1.2 } : Cpu).execute
        ((e.script cpu.regs).run t).1.1).run ((e.script cpu.regs).run t).2 := by
  simp [carryOut]

end Cpu

/-- What begins with an opcode is read as its table says. -/
theorem Opcode.run_instruction_opcode {β : Type} [Bus β] {r : Registers} {t t' : Timed β} {op : UInt8}
    (hfetch : (Cycle.fetch r.pc).perform t = (op, t')) (hop : Index.ofByte? op = none) (bound : Nat)
    (index : Option Index) :
    ((instruction (bound + 1) index).script r).run t =
      let read := ((unprefixed index op).script
        (({ r with pc := r.pc + 1 } : Registers).refresh 1)).run t'
      ((some read.1.1, read.1.2), read.2) := by
  rw [run_instruction_succ, hfetch, hop]
  simp only [Encoding.script_map, Script.run_map]

namespace Machine

variable {β : Type} [Bus β] {m : Machine β} {op : UInt8} {t : Timed β}

/-- Without prefixes a step is to fetch an opcode and to carry it out. -/
theorem next_unprefixed (hdue : m.cpu.due = .instruction)
    (hfetch : (Cycle.fetch m.cpu.regs.pc).perform m.outside = (op, t)) (hop : Index.ofByte? op = none)
    (bound : Nat) :
    (m.next (bound + 1)).map (fun after => (after.cpu, after.outside)) =
      some ((({ m.cpu with shadow := false } : Cpu).beginEvent.fetched.carryOut
        (Opcode.unprefixed none op)).run t) := by
  rw [next_of_read hdue (Opcode.run_instruction_opcode hfetch hop bound none), Cpu.run_carryOut]
  rfl

/-- Behind one prefix it is to fetch both and to carry out the opcode with the index register. -/
theorem next_prefixed {b : UInt8} {base : Index} {t' : Timed β} (hdue : m.cpu.due = .instruction)
    (hindex : (Cycle.fetch m.cpu.regs.pc).perform m.outside = (b, t')) (hb : Index.ofByte? b = some base)
    (hfetch : (Cycle.fetch (m.cpu.regs.pc + 1)).perform t' = (op, t)) (hop : Index.ofByte? op = none)
    (bound : Nat) :
    (m.next (bound + 2)).map (fun after => (after.cpu, after.outside)) =
      some ((({ m.cpu with shadow := false } : Cpu).beginEvent.fetched.fetched.carryOut
        (Opcode.unprefixed (some base) op)).run t) := by
  have hread : ((Opcode.instruction (bound + 2) none).script m.cpu.regs).run m.outside =
      ((Opcode.instruction (bound + 1) (some base)).script
        (({ m.cpu.regs with pc := m.cpu.regs.pc + 1 } : Registers).refresh 1)).run t' := by
    rw [Opcode.run_instruction_succ, hindex, hb]
  rw [Opcode.run_instruction_opcode hfetch hop bound (some base)] at hread
  rw [next_of_read hdue hread, Cpu.run_carryOut]
  rfl

end Machine

/-! ### Registers that stay -/

namespace Cpu

section Updates

variable (cpu : Cpu)

@[simp] theorem wz_setWZ (w : UInt16) : (cpu.setWZ w).regs.wz = w := rfl

@[simp] theorem wz_setFlags (f : Flags) : (cpu.setFlags f).regs.wz = cpu.regs.wz := rfl

@[simp] theorem wz_setFlags? (f : Option Flags) : (cpu.setFlags? f).regs.wz = cpu.regs.wz := by
  cases f <;> rfl

@[simp] theorem wz_set8 (r : Reg8) (v : UInt8) : (cpu.set8 r v).regs.wz = cpu.regs.wz := by
  cases r <;> rfl

@[simp] theorem wz_setResult (result : Result) : (cpu.setResult result).regs.wz = cpu.regs.wz := rfl

@[simp] theorem main_setWZ (w : UInt16) : (cpu.setWZ w).regs.main = cpu.regs.main := rfl

@[simp] theorem get8_setFlags? (f : Option Flags) (r : Reg8) :
    (cpu.setFlags? f).get8 r = cpu.get8 r := by
  cases f <;> simp [setFlags?]

theorem get8_set8_of_ne {r r' : Reg8} (h : r' ≠ r) (v : UInt8) :
    (cpu.set8 r' v).get8 r = cpu.get8 r := by
  cases r' <;> cases r <;> first
    | exact absurd rfl h
    | rfl
    | simp [get8, set8, Registers.get8, Registers.set8]

theorem get8_setResult_of_ne {r : Reg8} (h : r ≠ .a) (result : Result) :
    (cpu.setResult result).get8 r = cpu.get8 r := by
  simp [setResult, get8_set8_of_ne cpu h.symm]

end Updates

end Cpu

/-! ### Memory operands -/

/--
An instruction that depends on where its memory operand is.  With an index register it
pauses for the addition, and all it changes in registers is the accumulator, the flags and a
destination.
-/
inductive Addressed : (pause : Nat) → (destination : Option Reg8) → (Pointer → Instruction) → Prop
  | loadFrom (target : Reg8) : Addressed 5 (some target) (.loadFrom target)
  | storeTo (source : Reg8) : Addressed 5 none (.storeTo · source)
  | storeImmediate (n : UInt8) : Addressed 2 none (.storeImmediate · n)
  | accumulate (op : Alu.Op) : Addressed 5 none fun p => .accumulate op (.memory p)
  | incrementAt : Addressed 5 none .incrementAt
  | decrementAt : Addressed 5 none .decrementAt
  | testAt (n : Nat) : Addressed 2 none (.testAt n)
  | modifyAt (op : BitOp) (copy : Option Reg8) : Addressed 2 copy (.modifyAt op · copy)

namespace Addressed

variable {pause : Nat} {destination : Option Reg8} {f : Pointer → Instruction}

/-- **With an index register an instruction does at one address what it does at (HL) without.** -/
theorem execute_indexed (h : Addressed pause destination f) (cpu : Cpu) (base : Index) (d : Int8) :
    cpu.execute (f (.indexed base d)) = (do
      Script.internal pause
      ((cpu.setWZ (Word.displace (cpu.get16 base.pair) d)).execute (f .hl)).redirect
        cpu.regs.main.hl (Word.displace (cpu.get16 base.pair) d)) := by
  cases h with
  | modifyAt op => cases destination <;> simp [Cpu.execute, Cpu.locate]
  | _ => simp [Cpu.execute, Cpu.locate]

/-- It takes a fixed time, and of registers it changes the accumulator, the flags and the destination. -/
theorem execute_ensures (h : Addressed pause destination f) :
    ∃ n, ∀ cpu : Cpu, (cpu.execute (f .hl)).Ensures fun m after => m = n ∧
      after.regs.wz = cpu.regs.wz ∧ ∀ r, r ≠ .a → destination ≠ some r → after.get8 r = cpu.get8 r := by
  cases h with
  | modifyAt op =>
      refine ⟨7, fun cpu => ?_⟩
      cases destination <;> simp +contextual [Cpu.execute, Cpu.get8_set8_of_ne]
  | testAt n => exact ⟨4, fun cpu => by simp [Cpu.execute]⟩
  | incrementAt => exact ⟨7, fun cpu => by simp [Cpu.execute]⟩
  | decrementAt => exact ⟨7, fun cpu => by simp [Cpu.execute]⟩
  | _ =>
      refine ⟨3, fun cpu => ?_⟩
      simp +contextual [Cpu.execute, Cpu.get8_set8_of_ne, Cpu.get8_setResult_of_ne]

/-- The pause for the addition comes on top, and WZ is left with the address. -/
theorem execute_indexed_ensures (h : Addressed pause destination f) :
    ∃ n, ∀ cpu : Cpu, ((cpu.execute (f .hl)).Ensures fun m _ => m = n) ∧
      ∀ base d, (cpu.execute (f (.indexed base d))).Ensures fun m after => m = pause + n ∧
        after.regs.wz = Word.displace (cpu.get16 base.pair) d ∧
        ∀ r, r ≠ .a → destination ≠ some r → after.get8 r = cpu.get8 r := by
  obtain ⟨n, hn⟩ := h.execute_ensures
  refine ⟨n, fun cpu => ⟨(hn cpu).mono fun _ _ hafter => hafter.1, fun base d => ?_⟩⟩
  rw [h.execute_indexed]
  simp only [Script.ensures_bind, Script.ensures_internal, Script.ensures_redirect]
  refine (hn _).mono fun m after hafter => ?_
  obtain ⟨rfl, hwz, hkept⟩ := hafter
  refine ⟨rfl, hwz, fun r ha hr => ?_⟩
  rw [hkept r ha hr, Cpu.get8_setWZ]

end Addressed

namespace Opcode

/-- The register that an opcode with a memory operand loads, if it loads one. -/
def destination (op : UInt8) : Option Reg8 :=
  if op.toNat / 64 = 1 then Reg8.ofCode? (y op) else none

theorem unprefixed_eq_main {op : UInt8} (hCB : op ≠ 0xCB) (hED : op ≠ 0xED) (index : Option Index) :
    unprefixed index op = main index op := by
  unfold unprefixed
  rw [if_neg hCB, if_neg hED]

/-- An opcode with a memory operand reads where it is, and LD (HL),n then reads n. -/
theorem main_takesMemory {op : UInt8} (h : takesMemory op = true) :
    (op = 0x36 ∧ destination op = none ∧
        ∀ index, main index op = do Instruction.storeImmediate (← pointer index) <$> Encoding.byte) ∨
      op ≠ 0x36 ∧ ∃ f, Addressed 5 (destination op) f ∧ ∀ index, main index op = f <$> pointer index := by
  have hop := toNat_fields op
  have hy := y_lt op
  have hz := z_lt op
  have hne : op.toNat ≠ 54 → op ≠ 0x36 := fun hne heq => hne (congrArg UInt8.toNat heq)
  have hnone : ∀ {code}, code = 6 → Reg8.ofCode? code = none := fun hcode => by rw [hcode]; rfl
  have hsome : ∀ {code}, code < 8 → code ≠ 6 → ∃ r, Reg8.ofCode? code = some r := by
    intro code hlt hcode
    refine Option.ne_none_iff_exists'.mp ?_
    rw [Ne, Reg8.ofCode?_eq_none_iff]
    omega
  unfold takesMemory at h
  split at h
  · rename_i hquarter
    obtain ⟨hy6, hmemory⟩ : y op = 6 ∧ ((z op = 4 ∨ z op = 5) ∨ z op = 6) := by simpa using h
    have hdestination : destination op = none := by simp [destination, hquarter]
    have hmain : ∀ index, main index op = firstQuarter index 6 (z op) := by simp [main, hquarter, hy6]
    rw [hdestination]
    rcases hmemory with (hz' | hz') | hz'
    · exact .inr ⟨hne (by omega), _, .incrementAt, fun index => by rw [hmain, hz']; rfl⟩
    · exact .inr ⟨hne (by omega), _, .decrementAt, fun index => by rw [hmain, hz']; rfl⟩
    · refine .inl ⟨UInt8.toNat_inj.mp ?_, rfl, fun index => by rw [hmain, hz']; rfl⟩
      show op.toNat = 54
      omega
  · rename_i hquarter
    have hmain : ∀ index, main index op = secondQuarter index (y op) (z op) := by simp [main, hquarter]
    have hdestination : destination op = Reg8.ofCode? (y op) := by simp [destination, hquarter]
    rw [hdestination]
    refine .inr ⟨hne (by omega), ?_⟩
    by_cases hy6 : y op = 6
    · have hz6 : z op ≠ 6 := by simpa [hy6] using h
      obtain ⟨source, hsource⟩ := hsome hz hz6
      rw [hnone hy6]
      refine ⟨_, .storeTo source, fun index => ?_⟩
      rw [hmain, secondQuarter, hnone hy6, hsource]
      rfl
    · have hz6 : z op = 6 := by simpa [hy6] using h
      obtain ⟨target, htarget⟩ := hsome hy hy6
      rw [htarget]
      refine ⟨_, .loadFrom target, fun index => ?_⟩
      rw [hmain, secondQuarter, htarget, hnone hz6]
      rfl
  · rename_i hquarter
    have hz6 : z op = 6 := by simpa using h
    have hdestination : destination op = none := by simp [destination, hquarter]
    rw [hdestination]
    refine .inr ⟨hne (by omega), _, .accumulate (.ofCode (y op)), fun index => ?_⟩
    simp only [main, hquarter, thirdQuarter, hnone hz6]
    rfl
  · exact absurd h Bool.false_ne_true

/-- H and L are loaded from memory by one opcode each. -/
theorem of_destination {op : UInt8} (h : takesMemory op = true) :
    (destination op = some .h → op = 0x66) ∧ (destination op = some .l → op = 0x6E) := by
  have hop := toNat_fields op
  have hload : ∀ r, r ≠ .a → destination op = some r →
      op.toNat / 64 = 1 ∧ z op = 6 ∧ Reg8.ofCode? (y op) = some r := by
    intro r hr hload
    by_cases hquarter : op.toNat / 64 = 1
    · rw [destination, if_pos hquarter] at hload
      have hy : y op ≠ 6 := by
        intro hy
        rw [hy] at hload
        exact absurd hload (by simp [Reg8.ofCode?])
      exact ⟨hquarter, by simpa [takesMemory, hquarter, hy] using h, hload⟩
    · rw [destination, if_neg hquarter] at hload
      exact absurd hload (by simp)
  have hcode : ∀ code < 8, (Reg8.ofCode? code = some .h → code = 4) ∧
      (Reg8.ofCode? code = some .l → code = 5) := by decide
  constructor
  · intro hh
    obtain ⟨hquarter, hz, hr⟩ := hload _ (by decide) hh
    have hy := (hcode _ (y_lt op)).1 hr
    refine UInt8.toNat_inj.mp ?_
    show op.toNat = 102
    omega
  · intro hl
    obtain ⟨hquarter, hz, hr⟩ := hload _ (by decide) hl
    have hy := (hcode _ (y_lt op)).2 hr
    refine UInt8.toNat_inj.mp ?_
    show op.toNat = 110
    omega

end Opcode

namespace Cpu

/-- What an opcode with a memory operand does behind a prefix. -/
structure Displaces (base : Index) (op : UInt8) (cpu : Cpu) : Prop where
  /-- It reads a displacement and does at the address what it does at (HL) without a prefix. -/
  script : cpu.carryOut (Opcode.unprefixed (some base) op) = (do
    let d ← Script.read cpu.regs.pc
    let address := Word.displace (cpu.get16 base.pair) d.toInt8
    let (i, regs) ← (Opcode.unprefixed none op).script { cpu.regs with pc := cpu.regs.pc + 1 }
    Script.internal (if op = 0x36 then 2 else 5)
    ((({ cpu with regs } : Cpu).setWZ address).execute i).redirect cpu.regs.main.hl address)
  /-- The address is left in WZ, and H and L are left alone unless they are loaded. -/
  registers : ∀ {β : Type} [Bus β] (t : Timed β) (after : Cpu),
    after = ((cpu.carryOut (Opcode.unprefixed (some base) op)).run t).1 →
      after.regs.wz = Word.displace (cpu.get16 base.pair) ((Cycle.read cpu.regs.pc).perform t).1.toInt8 ∧
      (op ≠ 0x66 → after.get8 .h = cpu.get8 .h) ∧ (op ≠ 0x6E → after.get8 .l = cpu.get8 .l) ∧
      ∀ r, r ≠ .a → r ≠ .h → r ≠ .l → Opcode.destination op ≠ some r → after.get8 r = cpu.get8 r
  /-- It takes eight T-states more, and five in the case of LD (HL),n. -/
  time : ∃ n, (cpu.carryOut (Opcode.unprefixed none op)).Takes n ∧
    (cpu.carryOut (Opcode.unprefixed (some base) op)).Takes (n + if op = 0x36 then 5 else 8)

/-- Behind the displacement such an opcode takes a fixed time more and leaves the address in WZ. -/
theorem carryOut_ensures {op : UInt8} (h : Opcode.takesMemory op = true) (base : Index) (cpu : Cpu) :
    ∃ n tail, ((cpu.carryOut (Opcode.main none op)).Ensures fun m _ => m = n) ∧
      cpu.carryOut (Opcode.main (some base) op) = .cycle (.read cpu.regs.pc) tail ∧
      ∀ d, (tail d).Ensures fun m after => 3 + m = n + (if op = 0x36 then 5 else 8) ∧
        after.regs.wz = Word.displace (cpu.get16 base.pair) d.toInt8 ∧
        ∀ r, r ≠ .a → Opcode.destination op ≠ some r → after.get8 r = cpu.get8 r := by
  rcases Opcode.main_takesMemory h with ⟨rfl, hdestination, hmain⟩ | ⟨hne, f, hf, hmain⟩
  · refine ⟨6, fun d => .cycle (.read (cpu.regs.pc + 1)) fun n =>
      (cpu.setPC (cpu.regs.pc + 1 + 1)).execute (.storeImmediate (.indexed base d.toInt8) n), ?_, ?_, ?_⟩
    · rw [hmain]
      intro n
      show ((cpu.setPC (cpu.regs.pc + 1)).execute (.storeImmediate .hl n)).Ensures fun m _ => 3 + m = 6
      simp [execute]
    · rw [hmain]
      rfl
    · rw [hdestination]
      intro d n
      show ((cpu.setPC (cpu.regs.pc + 1 + 1)).execute _).Ensures _
      simp [execute, Cycle.length]
  · obtain ⟨n, hn⟩ := hf.execute_indexed_ensures
    refine ⟨n, fun d => (cpu.setPC (cpu.regs.pc + 1)).execute (f (.indexed base d.toInt8)), ?_, ?_, ?_⟩
    · rw [hmain]
      exact (hn cpu).1
    · rw [hmain]
      rfl
    · intro d
      refine ((hn (cpu.setPC (cpu.regs.pc + 1))).2 base d.toInt8).mono fun m after hafter => ?_
      obtain ⟨rfl, hwz, hkept⟩ := hafter
      refine ⟨?_, ?_, fun r ha hr => ?_⟩
      · rw [if_neg hne]
        omega
      · rw [hwz, get16_setPC]
      · rw [hkept r ha hr, get8_setPC]

theorem displaces {op : UInt8} (h : Opcode.takesMemory op = true) (base : Index) (cpu : Cpu) :
    cpu.Displaces base op := by
  have hCB : op ≠ 0xCB := fun hop => by rw [hop] at h; exact absurd h (by decide)
  have hED : op ≠ 0xED := fun hop => by rw [hop] at h; exact absurd h (by decide)
  have hunprefixed := Opcode.unprefixed_eq_main hCB hED
  obtain ⟨hloadH, hloadL⟩ := Opcode.of_destination h
  obtain ⟨n, tail, htime, htail, hafter⟩ := carryOut_ensures h base cpu
  refine ⟨?_, ?_, n, ?_, ?_⟩
  · rw [hunprefixed, hunprefixed]
    rcases Opcode.main_takesMemory h with ⟨rfl, -, hmain⟩ | ⟨hne, f, hf, hmain⟩
    · rw [hmain, hmain]
      refine congrArg (Script.cycle _) (funext fun d => congrArg (Script.cycle _) (funext fun n => ?_))
      exact (Addressed.storeImmediate n).execute_indexed (cpu.setPC (cpu.regs.pc + 1 + 1)) base d.toInt8
    · rw [hmain, hmain, if_neg hne]
      refine congrArg (Script.cycle _) (funext fun d => ?_)
      exact hf.execute_indexed (cpu.setPC (cpu.regs.pc + 1)) base d.toInt8
  · rintro β _ t after rfl
    rw [hunprefixed, htail]
    obtain ⟨-, -, hwz, hkept⟩ := (hafter ((Cycle.read cpu.regs.pc).perform t).1).run
      ((Cycle.read cpu.regs.pc).perform t).2
    refine ⟨hwz, fun hop => ?_, fun hop => ?_, fun r ha _ _ hr => hkept r ha hr⟩
    · exact hkept .h (by decide) fun hload => hop (hloadH hload)
    · exact hkept .l (by decide) fun hload => hop (hloadL hload)
  · rw [hunprefixed]
    exact htime.takes
  · rw [hunprefixed, htail]
    refine Script.Ensures.takes ?_
    intro d
    exact (hafter d).mono fun m _ hm => hm.1

/-! ### Bit operations -/

end Cpu

namespace Opcode

/-- The code of the same operation on (HL). -/
def onMemory (op : UInt8) : UInt8 := op / 8 * 8 + 6

theorem bit_onMemory (op : UInt8) : bit (onMemory op) =
    match bitOp? op with
    | some b => .modifyAt b .hl none
    | none => .testAt (y op) .hl := by
  have hop : (onMemory op).toNat = op.toNat / 8 * 8 + 6 := by
    have hlt := op.toNat_lt
    rw [onMemory, UInt8.toNat_add, UInt8.toNat_mul, UInt8.toNat_div]
    show (op.toNat / 8 * 8 % 256 + 6) % 256 = op.toNat / 8 * 8 + 6
    omega
  have hquarter : (onMemory op).toNat / 64 = op.toNat / 64 := by omega
  have hy : y (onMemory op) = y op := by
    unfold y
    omega
  have hz : z (onMemory op) = 6 := by
    unfold z
    omega
  have hbitOp : bitOp? (onMemory op) = bitOp? op := by
    unfold bitOp?
    rw [hquarter, hy]
  unfold bit
  rw [hbitOp, hy, hz]
  cases bitOp? op <;> rfl

end Opcode

namespace Cpu

/-- Keeps the byte that has been stored in a register, if there are both. -/
def copied (cpu : Cpu) : Option Reg8 → Option UInt8 → Cpu
  | some r, some v => cpu.set8 r v
  | _, _ => cpu

/-- Once HL is itself again, only WZ and the flags have changed. -/
theorem restored (cpu : Cpu) (address : UInt16) (f : Option Flags) :
    ((((cpu.set16 .hl address).setWZ address).setFlags? f).set16 .hl (cpu.get16 .hl)) =
      (cpu.setWZ address).setFlags? f := by
  cases f <;>
    simp [setFlags?, setFlags, setWZ, set16, get16, Registers.set16, Registers.get16,
      RegisterSet.setHL, RegisterSet.hl]

theorem hl_moved (cpu : Cpu) (address : UInt16) :
    ((cpu.set16 .hl address).setWZ address).regs.main.hl = address := by
  simp [set16, Registers.set16, RegisterSet.setHL, RegisterSet.hl]

theorem execute_modifyAt_indexed (cpu : Cpu) (base : Index) (d : Int8) (b : BitOp) (copy : Option Reg8)
    {address : UInt16} (haddress : Word.displace (cpu.get16 base.pair) d = address) :
    cpu.execute (.modifyAt b (.indexed base d) copy) = (do
      Script.internal 2
      let moved := (cpu.set16 .hl address).setWZ address
      let (after, stored) ← (moved.execute (.modifyAt b .hl none)).storing none
      return (after.set16 .hl (cpu.get16 .hl)).copied copy stored) := by
  simp only [execute, locate, hl_moved, haddress]
  refine congrArg (Script.cycle _) (funext fun _ => congrArg (Script.cycle _) (funext fun value => ?_))
  refine congrArg (Script.cycle _) (funext fun _ => congrArg (Script.cycle _) (funext fun _ => ?_))
  -- the flags, and with them the result, do not depend on HL
  have hrestored := cpu.restored address (b.apply value cpu.flags).2
  cases copy with
  | none => exact congrArg Script.done hrestored.symm
  | some r => exact congrArg (fun c => Script.done (c.set8 r (b.apply value cpu.flags).1)) hrestored.symm

theorem execute_testAt_indexed (cpu : Cpu) (base : Index) (d : Int8) (n : Nat) (copy : Option Reg8)
    {address : UInt16} (haddress : Word.displace (cpu.get16 base.pair) d = address) :
    cpu.execute (.testAt n (.indexed base d)) = (do
      Script.internal 2
      let moved := (cpu.set16 .hl address).setWZ address
      let (after, stored) ← (moved.execute (.testAt n .hl)).storing none
      return (after.set16 .hl (cpu.get16 .hl)).copied copy stored) := by
  simp only [execute, locate, hl_moved, haddress]
  refine congrArg (Script.cycle _) (funext fun _ => congrArg (Script.cycle _) (funext fun value => ?_))
  refine congrArg (Script.cycle _) (funext fun _ => ?_)
  have hrestored := cpu.restored address (some (Alu.test n value (Word.high address) cpu.flags))
  cases copy <;> exact congrArg Script.done hrestored.symm

theorem execute_indexedBit (cpu : Cpu) (base : Index) (d : Int8) (op : UInt8) {address : UInt16}
    (haddress : Word.displace (cpu.get16 base.pair) d = address) :
    cpu.execute (Opcode.indexedBit base d op) = (do
      Script.internal 2
      let moved := (cpu.set16 .hl address).setWZ address
      let (after, stored) ← (moved.execute (Opcode.bit (Opcode.onMemory op))).storing none
      return (after.set16 .hl (cpu.get16 .hl)).copied (Reg8.ofCode? (Opcode.z op)) stored) := by
  rw [Opcode.bit_onMemory, Opcode.indexedBit]
  cases Opcode.bitOp? op with
  | none => exact execute_testAt_indexed cpu base d _ _ haddress
  | some b => exact execute_modifyAt_indexed cpu base d b _ haddress

theorem execute_bit_ensures (op : UInt8) :
    ∃ n, ∀ cpu : Cpu, ((cpu.execute (Opcode.bit (Opcode.onMemory op))).Ensures fun m _ => m = n) ∧
      ∀ base d, (cpu.execute (Opcode.indexedBit base d op)).Ensures fun m _ => m = 2 + n := by
  rw [Opcode.bit_onMemory]
  unfold Opcode.indexedBit
  cases Opcode.bitOp? op with
  | none => exact ⟨4, fun cpu => ⟨by simp [execute], fun base d => by simp [execute]⟩⟩
  | some b =>
      refine ⟨7, fun cpu => ⟨by simp [execute], fun base d => ?_⟩⟩
      cases Reg8.ofCode? (Opcode.z op) <;> simp [execute]

/-- What a code behind DD CB or FD CB does. -/
structure DisplacesBits (base : Index) (cpu : Cpu) : Prop where
  /--
  It is read behind the displacement, and does with HL and WZ at the address what it does on
  (HL) without a prefix.  HL comes back, and the byte that was stored goes to a register too,
  if the code names one.
  -/
  script : cpu.carryOut (Opcode.unprefixed (some base) 0xCB) = (do
    let d ← Script.read cpu.regs.pc
    let op ← Script.read (cpu.regs.pc + 1)
    Script.internal 2
    let address := Word.displace (cpu.get16 base.pair) d.toInt8
    let moved := ((cpu.setPC (cpu.regs.pc + 2)).set16 .hl address).setWZ address
    let (after, stored) ← (moved.execute (Opcode.bit (Opcode.onMemory op))).storing none
    return (after.set16 .hl (cpu.get16 .hl)).copied (Reg8.ofCode? (Opcode.z op)) stored)
  /-- It takes four T-states more than the code that does the same on (HL). -/
  time : ∀ {β : Type} [Bus β] (t t' : Timed β) (cpu' : Cpu), Bus.Prompt t.bus → Bus.Prompt t'.bus →
    ((Cycle.fetch cpu'.regs.pc).perform t').1 = Opcode.onMemory
      ((Cycle.read (cpu.regs.pc + 1)).perform ((Cycle.read cpu.regs.pc).perform t).2).1 →
    ∃ n, Clock.Elapsed n t'.clock ((cpu'.carryOut (Opcode.unprefixed none 0xCB)).run t').2.clock ∧
      Clock.Elapsed (n + 4) t.clock
        ((cpu.carryOut (Opcode.unprefixed (some base) 0xCB)).run t).2.clock

theorem carryOut_indexedBits (base : Index) (cpu : Cpu) :
    cpu.carryOut (Opcode.unprefixed (some base) 0xCB) = .cycle (.read cpu.regs.pc) fun d =>
      .cycle (.read (cpu.regs.pc + 1)) fun op =>
        (cpu.setPC (cpu.regs.pc + 2)).execute (Opcode.indexedBit base d.toInt8 op) := by
  have hpc : cpu.regs.pc + 1 + 1 = cpu.regs.pc + 2 := UInt16.add_assoc cpu.regs.pc 1 1
  show cpu.carryOut (Opcode.indexedBits base) = _
  rw [← hpc]
  rfl

theorem displacesBits (base : Index) (cpu : Cpu) : cpu.DisplacesBits base := by
  refine ⟨?_, ?_⟩
  · rw [carryOut_indexedBits]
    refine congrArg (Script.cycle _) (funext fun d => congrArg (Script.cycle _) (funext fun op => ?_))
    exact execute_indexedBit (cpu.setPC (cpu.regs.pc + 2)) base d.toInt8 op rfl
  · intro β _ t t' cpu' hp hp' hop
    obtain ⟨hfirst, hp₁⟩ := Script.perform_prompt (.read cpu.regs.pc) hp
    obtain ⟨hsecond, hp₂⟩ := Script.perform_prompt (.read (cpu.regs.pc + 1)) hp₁
    obtain ⟨hfetch, hp₁'⟩ := Script.perform_prompt (.fetch cpu'.regs.pc) hp'
    obtain ⟨n, hn⟩ := execute_bit_ensures
      ((Cycle.read (cpu.regs.pc + 1)).perform ((Cycle.read cpu.regs.pc).perform t).2).1
    refine ⟨4 + n, ?_, ?_⟩
    · have hrest := (hn cpu'.fetched).1.takes _ hp₁'
      rw [← hop] at hrest
      exact hfetch.trans hrest
    · have hrest := ((hn (cpu.setPC (cpu.regs.pc + 2))).2 base
        ((Cycle.read cpu.regs.pc).perform t).1.toInt8).takes _ hp₂
      rw [carryOut_indexedBits]
      have hall := (hfirst.trans hsecond).trans hrest
      rw [show (Cycle.read cpu.regs.pc).length + (Cycle.read (cpu.regs.pc + 1)).length + (2 + n) =
        4 + n + 4 by simp only [Cycle.length]; omega] at hall
      exact hall

/--
**An index register stands in for HL.**  Every opcode of the main table that has no memory
operand and is neither EX DE,HL nor EXX does behind a prefix what it does without one when HL
and the index register have changed places, before and after.  EX DE,HL and EXX are what they
are without a prefix.  An opcode with a memory operand works at the index register and a
displacement in the place of (HL), and so do the codes behind CB.

All of this is said of scripts, so it holds on every bus with its answers and its waits.  These
are the scripts of steps: a step fetches an opcode, with one prefix before it or none, and
carries it out.
-/
theorem carryOut_indexed (base : Index) (cpu : Cpu) :
    (∀ op, op ≠ 0xCB → op ≠ 0xED →
      (Opcode.takesMemory op = false → op ≠ 0xEB → op ≠ 0xD9 →
        cpu.carryOut (Opcode.unprefixed (some base) op) =
          swap base <$> (cpu.swap base).carryOut (Opcode.unprefixed none op)) ∧
      (op = 0xEB ∨ op = 0xD9 →
        cpu.carryOut (Opcode.unprefixed (some base) op) = cpu.carryOut (Opcode.unprefixed none op)) ∧
      (Opcode.takesMemory op = true → cpu.Displaces base op)) ∧
    cpu.DisplacesBits base ∧
    ∀ {β : Type} [Bus β] (m : Machine β) (op : UInt8) (t : Timed β), m.cpu.due = .instruction →
      Index.ofByte? op = none →
      ((Cycle.fetch m.cpu.regs.pc).perform m.outside = (op, t) → ∀ bound,
        (m.next (bound + 1)).map (fun after => (after.cpu, after.outside)) =
          some ((({ m.cpu with shadow := false } : Cpu).beginEvent.fetched.carryOut
            (Opcode.unprefixed none op)).run t)) ∧
      ∀ (b : UInt8) (t' : Timed β), Index.ofByte? b = some base →
        (Cycle.fetch m.cpu.regs.pc).perform m.outside = (b, t') →
        (Cycle.fetch (m.cpu.regs.pc + 1)).perform t' = (op, t) → ∀ bound,
        (m.next (bound + 2)).map (fun after => (after.cpu, after.outside)) =
          some ((({ m.cpu with shadow := false } : Cpu).beginEvent.fetched.fetched.carryOut
            (Opcode.unprefixed (some base) op)).run t) := by
  refine ⟨fun op hCB hED => ⟨?_, ?_, ?_⟩, displacesBits base cpu, ?_⟩
  · intro h hEX hEXX
    obtain ⟨hexplicit, hswapped⟩ := Opcode.main_swaps h hEX hEXX
    have hmain : Opcode.main (some base) op = Instruction.swapped base <$> Opcode.main none op :=
      hswapped base
    rw [Opcode.unprefixed_eq_main hCB hED, Opcode.unprefixed_eq_main hCB hED, hmain]
    exact carryOut_swapped base cpu hexplicit
  · rintro (rfl | rfl)
    · rfl
    · rfl
  · exact fun h => displaces h base cpu
  · intro β _ m op t hdue hop
    refine ⟨fun hfetch bound => Machine.next_unprefixed hdue hfetch hop bound, ?_⟩
    intro b t' hb hindex hfetch bound
    exact Machine.next_prefixed hdue hindex hb hfetch hop bound

/-- LD H,(IX+5) leaves L alone and the address in WZ, and INC IXH is INC H of the exchanged registers. -/
theorem carryOut_indexed_high :
    ∃ (cpu : Cpu) (t : Timed (Board Memory)), cpu.regs.ix = 0x10FF ∧
      t.bus = Board.blank.load 0 [0x05] ∧ (0x66 : UInt8) ≠ 0xCB ∧ (0x66 : UInt8) ≠ 0xED ∧
      Opcode.takesMemory 0x66 = true ∧ Opcode.takesMemory 0x24 = false ∧
      ((cpu.carryOut (Opcode.unprefixed (some .ix) 0x66)).run t).1.regs.wz = 0x1104 ∧
      ((cpu.carryOut (Opcode.unprefixed (some .ix) 0x66)).run t).1.get8 .l = cpu.get8 .l ∧
      ((cpu.carryOut (Opcode.unprefixed (some .ix) 0x24)).run t).1.regs.ix = 0x11FF := by
  have law := carryOut_indexed .ix ((Cpu.powerOn .standard).set16 .ix 0x10FF)
  obtain ⟨-, -, hmemory⟩ := law.1 0x66 (by decide) (by decide)
  obtain ⟨hswap, -, -⟩ := law.1 0x24 (by decide) (by decide)
  obtain ⟨hwz, -, hl, -⟩ := (hmemory (by decide)).registers
    (⟨.zero, Board.blank.load 0 [0x05]⟩ : Timed (Board Memory)) _ rfl
  refine ⟨(Cpu.powerOn .standard).set16 .ix 0x10FF, ⟨.zero, Board.blank.load 0 [0x05]⟩, rfl, rfl,
    by decide, by decide, by decide, by decide, hwz.trans ?_, hl (by decide), ?_⟩
  · rfl
  · rw [hswap (by decide) (by decide) (by decide)]
    rfl

end Cpu

end Z80
