/-
What is written is what is executed.

A disassembly from the program counter on lists a chain of prefixes as NOPs of one byte each,
all but the last prefix, and then one instruction.  A step reads exactly the bytes of these
lines (`Looked`), executes the instruction that the last of them names, and leaves the
program counter behind it unless control is transferred.  Where the instruction carries the
address it may go to, that address can be read back off the text (`Written.target?`).

The first part is about the text alone, the second about single lines: that each is the
instruction which the opcode tables find there (`instructionAt_eq`), how long it is and what it
depends on.  The third puts a chain and its lines side by side, by induction on the chain, and
the last one adds the step.
-/
import Z80.Proofs.Chains
import Z80.Proofs.Flow
import Z80.Proofs.Writing

namespace Z80

/-! ### Addresses in texts -/

theorem Hex.value?_digit : ∀ n < 16, value? (digit n) = some n := by decide

theorem Hex.digit_ne_h : ∀ n < 16, digit n ≠ 'h' := by decide

namespace Written

/-- The number that digits stand for, the last digit first. -/
def number? : List Char → Option Nat
  | [] => some 0
  | c :: cs => do return (← number? cs) * 16 + (← Hex.value? c)

/-- The address that a text ends in: two digits before h, or four digits. -/
def target? (text : String) : Option UInt16 :=
  let last := text.toList.reverse
  if last.head? = some 'h' then (number? (last.tail.take 2)).map .ofNat
  else (number? (last.take 4)).map .ofNat

theorem number?_digits (count n : Nat) :
    number? (Hex.digits count n).reverse = some (n % 16 ^ count) := by
  induction count generalizing n with
  | zero => simp [Hex.digits, number?, Nat.mod_one]
  | succ count ih =>
      have hdigit := Hex.value?_digit (n % 16) (Nat.mod_lt _ (by decide))
      have hsplit : n / 16 % 16 ^ count * 16 + n % 16 = n % 16 ^ (count + 1) := by
        rw [Nat.pow_succ', Nat.mod_mul]
        omega
      simp only [Hex.digits, List.reverse_append, List.reverse_singleton, List.singleton_append,
        number?, ih, hdigit]
      rw [← hsplit]
      rfl

/-- A word at the end of a text can be read back. -/
theorem target?_word (before : String) (w : UInt16) : target? (before ++ word w) = some w := by
  have hlast : (before ++ word w).toList.reverse =
      (Hex.digits 4 w.toNat).reverse ++ (before ++ "0x").toList.reverse := by
    simp [word, Hex.word]
  have htake : ((Hex.digits 4 w.toNat).reverse ++ (before ++ "0x").toList.reverse).take 4 =
      (Hex.digits 4 w.toNat).reverse := List.take_left' (by simp)
  have hhead : ((Hex.digits 4 w.toNat).reverse ++ (before ++ "0x").toList.reverse).head? =
      some (Hex.digit (w.toNat % 16)) := by
    simp [Hex.digits]
  have hlt := w.toNat_lt
  unfold target?
  simp only [hlast, htake, hhead, number?_digits]
  rw [if_neg (by simpa using Hex.digit_ne_h _ (Nat.mod_lt _ (by decide))),
    Nat.mod_eq_of_lt (by omega)]
  simp

/-- A vector before an h can be read back. -/
theorem target?_vector (before : String) (v : UInt8) :
    target? (before ++ Hex.byte v ++ "h") = some v.toUInt16 := by
  have hlast : (before ++ Hex.byte v ++ "h").toList.reverse =
      'h' :: ((Hex.digits 2 v.toNat).reverse ++ before.toList.reverse) := by
    simp [Hex.byte]
  have htake : ((Hex.digits 2 v.toNat).reverse ++ before.toList.reverse).take 2 =
      (Hex.digits 2 v.toNat).reverse := List.take_left' (by simp)
  have hlt := v.toNat_lt
  have hvalue : UInt16.ofNat v.toNat = v.toUInt16 := by
    apply UInt16.toNat_inj.mp
    rw [UInt16.toNat_ofNat', UInt8.toNat_toUInt16]
    omega
  unfold target?
  simp only [hlast, List.head?_cons, List.tail_cons, htake, number?_digits]
  rw [if_pos trivial, Nat.mod_eq_of_lt (by omega), Option.map_some, hvalue]

end Written

/-- The text of an instruction that may transfer control to an address ends in this address. -/
theorem Instruction.target?_written {i : Instruction} {next target : UInt16}
    (h : i.target? next = some target) : Written.target? (i.written next).render = some target := by
  cases i with
  | jump t =>
      obtain rfl : t = target := Option.some.inj h
      exact Written.target?_word "JP " t
  | jumpIf condition t =>
      obtain rfl : t = target := Option.some.inj h
      exact Written.target?_word ("JP " ++ condition.written ++ ",") t
  | jumpRelative d =>
      obtain rfl : Word.displace next d = target := Option.some.inj h
      exact Written.target?_word "JR " _
  | jumpRelativeIf condition d =>
      obtain rfl : Word.displace next d = target := Option.some.inj h
      exact Written.target?_word ("JR " ++ condition.written ++ ",") _
  | djnz d =>
      obtain rfl : Word.displace next d = target := Option.some.inj h
      exact Written.target?_word "DJNZ " _
  | call t =>
      obtain rfl : t = target := Option.some.inj h
      exact Written.target?_word "CALL " t
  | callIf condition t =>
      obtain rfl : t = target := Option.some.inj h
      exact Written.target?_word ("CALL " ++ condition.written ++ ",") t
  | rst v =>
      obtain rfl : v.toUInt16 = target := Option.some.inj h
      exact Written.target?_vector "RST " v
  | _ => exact absurd h (by simp [Instruction.target?])

/-! ### Single lines -/

/-- An instruction with at most one prefix that chooses an index register. -/
def Opcode.single : Encoding Instruction := .opcode fun op =>
  match Index.ofByte? op with
  | some i => .opcode fun op => unprefixed (some i) op
  | none => unprefixed none op

namespace Disassembly

variable {μ ν : Type} [View μ] [View ν] {m : μ} {m' : ν} {start : UInt16} {k : Nat}

/-- Is the byte at an address DD or FD? -/
def isIndex (m : μ) (address : UInt16) : Bool := (Index.ofByte? (peek m address)).isSome

/-- The instruction that the opcode tables find for a line, and the length of the line. -/
def decode (m : μ) (address : UInt16) : Instruction × Nat :=
  if isIndex m address && isIndex m (address + 1) then (.nop, 1)
  else Opcode.single.view m address

theorem isIndex_eq_false (h : Index.ofByte? (peek m start) = none) : isIndex m start = false := by
  unfold isIndex
  rw [h]
  rfl

/-- Without a prefix the line is the instruction that the first byte begins. -/
theorem decode_nil (h : Chain m start 0) :
    decode m start = ((Opcode.behind m start 0 none).1, 1 + (Opcode.behind m start 0 none).2) := by
  have hends : Index.ofByte? (peek m start) = none := by simpa using h.ends
  unfold decode
  rw [isIndex_eq_false hends]
  simp only [Opcode.single, Encoding.view, hends, Opcode.behind, Opcode.lastIndex]
  simp [Nat.add_comm]

/-- The last prefix of a chain and what it belongs to are one line. -/
theorem decode_last (h : Chain m start 1) :
    decode m start = ((Opcode.behind m start 1 none).1, 2 + (Opcode.behind m start 1 none).2) := by
  obtain ⟨i, hi⟩ := Option.isSome_iff_exists.mp h.head
  have hends : Index.ofByte? (peek m (start + 1)) = none := h.ends
  have hfirst : start + UInt16.ofNat 0 = start := UInt16.add_zero start
  have hnext : start + UInt16.ofNat (1 + 1) = start + 1 + 1 := (add_one_add_ofNat start 1).symm
  unfold decode
  rw [isIndex_eq_false hends, Bool.and_false, if_neg Bool.false_ne_true]
  simp only [Opcode.single, Encoding.view, hi, Opcode.behind, Opcode.lastIndex, hfirst, hnext]
  rw [Nat.add_comm 2]
  rfl

/-- A prefix with another one behind it is a line of its own. -/
theorem decode_void (hfirst : isIndex m start = true) (hsecond : isIndex m (start + 1) = true) :
    decode m start = (.nop, 1) := by
  unfold decode
  rw [hfirst, hsecond]
  rfl

/-- A line is a void prefix, or it begins a chain with at most one prefix. -/
theorem void_or_chain (m : μ) (start : UInt16) :
    (isIndex m start = true ∧ isIndex m (start + 1) = true) ∨ Chain m start 0 ∨ Chain m start 1 := by
  cases hfirst : Index.ofByte? (peek m start) with
  | none => exact .inr (.inl (.nil hfirst))
  | some i =>
      have hindex : (Index.ofByte? (peek m start)).isSome = true := by
        rw [hfirst]
        rfl
      cases hsecond : Index.ofByte? (peek m (start + 1)) with
      | none => exact .inr (.inr (.cons hindex (.nil hsecond)))
      | some i' =>
          refine .inl ⟨hindex, ?_⟩
          unfold isIndex
          rw [hsecond]
          rfl

/-- A line goes on as its first byte says. -/
theorem run_line (m : μ) (start : UInt16) : (line.run (⟨m, start, 0⟩ : Cursor μ)).run =
    ((begins (peek m start)).run ⟨m, start, 1⟩).run := by
  have hline : (line.run (⟨m, start, 0⟩ : Cursor μ)).run =
      ((begins (peek m (start + UInt16.ofNat 0))).run ⟨m, start, 1⟩).run := rfl
  rw [hline, show start + UInt16.ofNat 0 = start from UInt16.add_zero start]

/-- Behind a prefix the next byte is read unless it is one too. -/
theorem run_behindPrefix (m : μ) (start : UInt16) (i : Index) :
    ((behindPrefix i).run (⟨m, start, 1⟩ : Cursor μ)).run =
      if isIndex m (start + 1) then ("NOP", ⟨m, start, 1⟩)
      else ((unprefixed (some i) (peek m (start + 1))).run ⟨m, start, 2⟩).run := by
  have hbehind : ((behindPrefix i).run (⟨m, start, 1⟩ : Cursor μ)).run =
      ((if isIndex m (start + 1) then pure "NOP"
        else do unprefixed (some i) (← Cursor.byte)).run ⟨m, start, 1⟩).run := rfl
  rw [hbehind]
  split
  · rfl
  · rfl

/-- What is written behind a byte or two is what is read there. -/
theorem run_unprefixed (m : μ) (start : UInt16) (index : Option Index) (op : UInt8) (n : Nat) :
    ((unprefixed index op).run (⟨m, start, n⟩ : Cursor μ)).run =
      let e := (Opcode.unprefixed index op).view m (start + .ofNat n)
      ((e.1.written (start + .ofNat (n + e.2))).render, ⟨m, start, n + e.2⟩) := by
  rw [unprefixed_writes index op ⟨m, start, n⟩, ← Cursor.next_move]
  rfl

/-- **The disassembler writes down the instruction that the opcode tables find.** -/
theorem instructionAt_eq (m : μ) (start : UInt16) :
    instructionAt m start =
      ⟨((decode m start).1.written (start + .ofNat (decode m start).2)).render, (decode m start).2⟩ := by
  have hzero : start + UInt16.ofNat 0 = start := UInt16.add_zero start
  unfold instructionAt
  rw [run_line]
  unfold begins
  rcases void_or_chain m start with ⟨hfirst, hsecond⟩ | h | h
  · obtain ⟨i, hi⟩ := Option.isSome_iff_exists.mp hfirst
    rw [decode_void hfirst hsecond, hi, run_behindPrefix, if_pos hsecond]
    rfl
  · have hends : Index.ofByte? (peek m start) = none := by simpa using h.ends
    have hread : Opcode.behind m start 0 none =
        (Opcode.unprefixed none (peek m start)).view m (start + .ofNat 1) := by
      simp only [Opcode.behind, Opcode.lastIndex, hzero]
    rw [decode_nil h, hends, run_unprefixed, hread]
  · obtain ⟨i, hi⟩ := Option.isSome_iff_exists.mp h.head
    have hsecond : isIndex m (start + 1) = false := isIndex_eq_false h.ends
    have hread : Opcode.behind m start 1 none =
        (Opcode.unprefixed (some i) (peek m (start + 1))).view m (start + .ofNat 2) := by
      simp only [Opcode.behind, Opcode.lastIndex, hzero, hi]
      rfl
    rw [decode_last h, hi, run_behindPrefix, hsecond, if_neg Bool.false_ne_true, run_unprefixed, hread]

theorem length_eq (m : μ) (start : UInt16) : (instructionAt m start).length = (decode m start).2 := by
  rw [instructionAt_eq]

theorem text_eq (m : μ) (start : UInt16) : (instructionAt m start).text =
    ((decode m start).1.written (start + .ofNat (instructionAt m start).length)).render := by
  rw [instructionAt_eq]

/-- The lines of a chain cover its prefixes, the byte behind it and what this byte begins. -/
theorem decode_chain (h : Chain m start k) :
    (decode m (start + .ofNat (k - 1))).1 = (Opcode.behind m start k none).1 ∧
      k - 1 + (instructionAt m (start + .ofNat (k - 1))).length =
        k + 1 + (Opcode.behind m start k none).2 := by
  rw [length_eq]
  cases k with
  | zero =>
      rw [show start + UInt16.ofNat (0 - 1) = start from UInt16.add_zero start, decode_nil h]
      refine ⟨rfl, ?_⟩
      simp only
      omega
  | succ k =>
      rw [show start + UInt16.ofNat (k + 1 - 1) = start + UInt16.ofNat k from rfl,
        decode_last (Chain.drop h), Opcode.behind_drop]
      refine ⟨rfl, ?_⟩
      simp only
      omega

theorem instructionAt_void (h : Chain m start (k + 2)) : instructionAt m start = ⟨"NOP", 1⟩ := by
  rw [instructionAt_eq, decode_void h.head h.tail.head]
  rfl

/-- Lines of one NOP each, and the line behind them. -/
theorem listing_nops {n : Nat} (h : ∀ j < n, instructionAt m (start + .ofNat j) = ⟨"NOP", 1⟩) :
    listing m start (n + 1) = (span start n).map (fun address => (address, ⟨"NOP", 1⟩)) ++
      [(start + .ofNat n, instructionAt m (start + .ofNat n))] := by
  induction n generalizing start with
  | zero =>
      rw [show start + UInt16.ofNat 0 = start from UInt16.add_zero start]
      rfl
  | succ n ih =>
      have hfirst : instructionAt m start = ⟨"NOP", 1⟩ := by simpa using h 0 (by omega)
      have hnops : ∀ j < n, instructionAt m (start + 1 + .ofNat j) = ⟨"NOP", 1⟩ := by
        intro j hj
        rw [add_one_add_ofNat]
        exact h (j + 1) (by omega)
      have hrest := ih hnops
      rw [add_one_add_ofNat] at hrest
      rw [listing, hfirst]
      exact congrArg ((start, ⟨"NOP", 1⟩) :: ·) hrest

theorem listing_chain (h : Chain m start k) :
    listing m start (k - 1 + 1) = (span start (k - 1)).map (fun address => (address, ⟨"NOP", 1⟩)) ++
      [(start + .ofNat (k - 1), instructionAt m (start + .ofNat (k - 1)))] := by
  refine listing_nops fun j hj => ?_
  obtain ⟨l, rfl⟩ : ∃ l, k = j + (l + 2) := ⟨k - j - 2, by omega⟩
  exact instructionAt_void h.drop

/-- A line takes one byte to five. -/
theorem length_instructionAt (m : μ) (start : UInt16) :
    1 ≤ (instructionAt m start).length ∧ (instructionAt m start).length ≤ 5 := by
  rw [length_eq]
  rcases void_or_chain m start with ⟨hfirst, hsecond⟩ | h | h
  · rw [decode_void hfirst hsecond]
    exact ⟨by decide, by decide⟩
  · have hrest := Opcode.behind_length m start 0 none
    rw [decode_nil h]
    exact ⟨Nat.le_add_right _ _, by omega⟩
  · have hrest := Opcode.behind_length m start 1 none
    rw [decode_last h]
    exact ⟨by omega, by omega⟩

/-- A line depends on its bytes, and behind a prefix on whether there is another one. -/
theorem instructionAt_congr
    (h : ∀ j < (instructionAt m start).length, peek m' (start + .ofNat j) = peek m (start + .ofNat j))
    (hahead : isIndex m start = true → peek m' (start + 1) = peek m (start + 1)) :
    instructionAt m' start = instructionAt m start := by
  have hfirst : isIndex m' start = isIndex m start := by
    have hbyte : peek m' start = peek m start := by
      simpa using h 0 (length_instructionAt m start).1
    unfold isIndex
    rw [hbyte]
  have hboth : (isIndex m' start && isIndex m' (start + 1)) =
      (isIndex m start && isIndex m (start + 1)) := by
    rw [hfirst]
    cases hindex : isIndex m start with
    | false => rfl
    | true =>
        unfold isIndex
        rw [hahead hindex]
  have hdecode : decode m' start = decode m start := by
    cases hvoid : isIndex m start && isIndex m (start + 1) with
    | true =>
        unfold decode
        rw [hboth, hvoid, if_pos rfl, if_pos rfl]
    | false =>
        have hview : decode m start = Opcode.single.view m start := by
          unfold decode
          rw [hvoid, if_neg Bool.false_ne_true]
        have hbytes : ∀ j < (Opcode.single.view m start).2,
            peek m' (start + .ofNat j) = peek m (start + .ofNat j) := by
          intro j hj
          rw [← hview, ← length_eq] at hj
          exact h j hj
        have hsame := Opcode.single.view_congr hbytes
        unfold decode
        rw [hboth, hvoid, hsame]
  rw [instructionAt_eq, instructionAt_eq, hdecode]

end Disassembly

/-! ### Steps and lines -/

namespace Machine

/-- The processor and the outside between the reading of an instruction and its execution. -/
structure Fetched {β : Type} [Bus β] (m : Machine β) (i : Instruction) (cpu : Cpu) (t : Timed β) : Prop where
  read : ∃ bound, ((Opcode.instruction bound none).script m.cpu.regs).run m.outside =
    ((some i, cpu.regs), t)
  begun : cpu = { ({ m.cpu with shadow := false } : Cpu).beginEvent with regs := cpu.regs }

/-- A step over a chain reads what stands there, and then does nothing but execute it. -/
theorem step_fetched {m : Machine (Board Memory)} {k : Nat} (hdue : m.cpu.due = .instruction)
    (hchain : Chain m.bus.memory m.cpu.regs.pc k) :
    ∃ cpu t cost after,
      m.logged.Fetched (Opcode.behind m.bus.memory m.cpu.regs.pc k none).1 cpu t ∧
      t.bus.log.map (·.access) = (span m.cpu.regs.pc
        (k + 1 + (Opcode.behind m.bus.memory m.cpu.regs.pc k none).2)).map .read ∧
      cpu.regs.pc = m.cpu.regs.pc +
        .ofNat (k + 1 + (Opcode.behind m.bus.memory m.cpu.regs.pc k none).2) ∧
      Returns m.logged.step (cost, after) ∧ Returns m.step (cost, after.unlogged) ∧
      after.cpu = ((cpu.execute (Opcode.behind m.bus.memory m.cpu.regs.pc k none).1).run t).1 ∧
      after.bus = ((cpu.execute (Opcode.behind m.bus.memory m.cpu.regs.pc k none).1).run t).2.bus := by
  have hview := Opcode.view_instruction hchain (Nat.lt_succ_self k) none
  obtain ⟨hresult, hpc, hlooked⟩ := (Opcode.instruction (k + 1) none).run_script m.cpu.regs m.logged.outside
  rw [show m.logged.outside.bus.bus = m.bus from rfl, hview] at hresult hpc hlooked
  rcases hread : ((Opcode.instruction (k + 1) none).script m.cpu.regs).run m.logged.outside with
    ⟨⟨i?, regs⟩, t⟩
  rw [hread] at hresult hpc hlooked
  obtain rfl : i? = some (Opcode.behind m.bus.memory m.cpu.regs.pc k none).1 := hresult
  have hnext := next_of_read (m := m.logged) hdue hread
  have hstep := step_eq_some_iff.mpr ⟨_, hnext, rfl⟩
  have hbare := step_unlogged (k + 1) m.logged
  rw [hstep, Option.map_some] at hbare
  refine ⟨{ ({ m.cpu with shadow := false } : Cpu).beginEvent with regs }, t, _, _,
    ⟨⟨k + 1, hread⟩, rfl⟩, hlooked.accesses, hpc, ⟨k + 1, hstep⟩,
    ⟨k + 1, hbare.symm⟩, rfl, rfl⟩

/--
**A step executes what the disassembly lists.**  Before a processor that is to execute an
instruction stands a chain of `k` prefixes.  Its listing is a NOP of one byte for each prefix
but the last, and one line.  The step reads the bytes of this listing in their order and no
others, and executes the instruction of the line.  Then the program counter stands behind
the line, unless control is transferred: then it is the address in the line, if there is one
in the instruction, and a block instruction that has more to do goes back by two bytes.

Any line of any view takes one byte to five, and depends on its address, on its bytes, and
behind a prefix on the byte that follows.
-/
theorem step_listed :
    (∀ (m : Machine (Board Memory)) (k : Nat), m.cpu.due = .instruction →
      Chain m.bus.memory m.cpu.regs.pc k →
      ∃ start stop line i, start = m.cpu.regs.pc + .ofNat (k - 1) ∧
        Disassembly.listing m.bus.memory m.cpu.regs.pc (k - 1 + 1) =
          (span m.cpu.regs.pc (k - 1)).map (fun address => (address, ⟨"NOP", 1⟩)) ++ [(start, line)] ∧
        stop = start + .ofNat line.length ∧ line.text = (i.written stop).render ∧
        ∃ cpu t cost after, m.logged.Fetched i cpu t ∧
          t.bus.log.map (·.access) = (span m.cpu.regs.pc (k - 1 + line.length)).map .read ∧
          Returns m.logged.step (cost, after) ∧ Returns m.step (cost, after.unlogged) ∧
          after.cpu = ((cpu.execute i).run t).1 ∧ after.bus = ((cpu.execute i).run t).2.bus ∧
          (cpu.transfers i = false → after.cpu.repeats i = false → after.cpu.regs.pc = stop) ∧
          (cpu.transfers i = true → (i.target? stop).isSome = true →
            Written.target? line.text = some after.cpu.regs.pc) ∧
          (after.cpu.repeats i = true → after.cpu.regs.pc = stop - 2)) ∧
    ∀ {μ ν : Type} [View μ] [View ν] (v : μ) (w : ν) (start : UInt16),
      1 ≤ (Disassembly.instructionAt v start).length ∧
        (Disassembly.instructionAt v start).length ≤ 5 ∧
        ((∀ j < (Disassembly.instructionAt v start).length,
            peek w (start + .ofNat j) = peek v (start + .ofNat j)) →
          (Disassembly.isIndex v start = true → peek w (start + 1) = peek v (start + 1)) →
          Disassembly.instructionAt w start = Disassembly.instructionAt v start) := by
  refine ⟨?_, ?_⟩
  · intro m k hdue hchain
    obtain ⟨cpu, t, cost, after, hfetched, hasked, hpc, hlogged, hbare, hcpu, hbus⟩ :=
      step_fetched hdue hchain
    obtain ⟨hline, hlength⟩ := Disassembly.decode_chain hchain
    have htext := Disassembly.text_eq m.bus.memory (m.cpu.regs.pc + .ofNat (k - 1))
    rw [hline] at htext
    have hstop : cpu.regs.pc = m.cpu.regs.pc + .ofNat (k - 1) + .ofNat
        (Disassembly.instructionAt m.bus.memory (m.cpu.regs.pc + .ofNat (k - 1))).length := by
      rw [hpc, UInt16.add_assoc, ← UInt16.ofNat_add, hlength]
    obtain ⟨-, hfollows⟩ := (cpu.execute_follows
      (Opcode.behind m.bus.memory m.cpu.regs.pc k none).1).run t
    rw [← hcpu] at hfollows
    refine ⟨_, _, _, (Opcode.behind m.bus.memory m.cpu.regs.pc k none).1, rfl,
      Disassembly.listing_chain hchain, rfl, htext, cpu, t, cost, after, hfetched, ?_, hlogged,
      hbare, hcpu, hbus, ?_, ?_, ?_⟩
    · rw [hasked, ← hlength]
    · intro honward hdone
      rw [hfollows.onward honward hdone, hstop]
    · intro htransfers htarget
      obtain ⟨target, htarget⟩ := Option.isSome_iff_exists.mp htarget
      rw [htext, hfollows.target htransfers target (hstop ▸ htarget)]
      exact Instruction.target?_written htarget
    · intro hagain
      rw [hfollows.again hagain, hstop]
  · intro μ ν _ _ v w start
    obtain ⟨hmin, hmax⟩ := Disassembly.length_instructionAt v start
    exact ⟨hmin, hmax, Disassembly.instructionAt_congr⟩

/-- DD FD 18 02 is listed as a NOP and a jump, and the step ends where the jump says. -/
theorem step_listed_jump :
    ∃ (m : Machine (Board Memory)) (line : Disassembly) (i : Instruction) (cpu : Cpu)
      (t : Timed (Logged (Board Memory))) (r : UInt32 × Machine (Board Memory)),
      m.bus = Board.blank.load 0 [0xDD, 0xFD, 0x18, 0x02] ∧ m.cpu.due = .instruction ∧
        Chain m.bus.memory m.cpu.regs.pc 2 ∧
        Disassembly.listing m.bus.memory m.cpu.regs.pc 2 = [(0, ⟨"NOP", 1⟩), (1, line)] ∧
        line = ⟨"JR 0x0006", 3⟩ ∧ (i.written 4).render = line.text ∧ m.logged.Fetched i cpu t ∧
        t.bus.log.map (·.access) = [.read 0, .read 1, .read 2, .read 3] ∧
        Returns m.step r ∧ r.2.cpu.regs.pc = 6 := by
  have hchain : Chain (Board.blank.load 0 [0xDD, 0xFD, 0x18, 0x02]).memory 0 (1 + 1) :=
    .cons rfl (.cons rfl (.nil rfl))
  obtain ⟨start, stop, line, i, hstart, hlisting, hstop, htext, cpu, t, cost, after, hfetched, hasked,
    -, hreturns, -⟩ :=
    step_listed.1 (powerOn .standard (Board.blank.load 0 [0xDD, 0xFD, 0x18, 0x02])) 2 rfl hchain
  have hlines : Disassembly.listing (Board.blank.load 0 [0xDD, 0xFD, 0x18, 0x02]).memory 0 2 =
      [(0, ⟨"NOP", 1⟩), (1, ⟨"JR 0x0006", 3⟩)] := rfl
  obtain ⟨-, rfl⟩ : start = 1 ∧ line = ⟨"JR 0x0006", 3⟩ := by
    have hlast := congrArg List.getLast? (hlisting.symm.trans hlines)
    simpa using hlast
  obtain rfl : stop = 4 := by
    rw [hstop, hstart]
    rfl
  refine ⟨powerOn .standard (Board.blank.load 0 [0xDD, 0xFD, 0x18, 0x02]), _, i, cpu, t, _, rfl, rfl, hchain, hlines, rfl, htext.symm, hfetched, hasked, hreturns, ?_⟩
  rw [Returns.unique (fun hle h => step_mono hle h) hreturns ⟨3, rfl⟩]
  rfl

end Machine

end Z80
