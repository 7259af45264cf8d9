/-
A chain of prefixes is part of one instruction.

Of the DD and FD bytes in front of an opcode only the last one chooses anything.  The others
are fetched and forgotten: `Machine.past` says what that comes to, four T-states, an address
and a count of the refresh register for each, and nothing else.  So a step over a chain is
a step from its last prefix on, with the time of the others added (`returns_step_past`).  In
front of ED the last prefix chooses nothing either and can be passed like the others.

Reading a chain ends if and only if some byte of memory is no prefix, since addresses go
round.  The induction is on the bytes passed, and what carries it is `next_past_one`: before
a prefix and before ED it makes no difference which index register is in force.
-/
import Z80.Proofs.Viewing
import Z80.Proofs.Stepping

namespace Z80

namespace Opcode

/-- A byte before which it makes no difference whether an index register has been chosen. -/
def Unindexed (b : UInt8) : Prop := (Index.ofByte? b).isSome = true ∨ b = 0xED

theorem run_instruction_unindexed {bound : Nat} {index : Option Index} {r : Registers}
    {t : Timed (Board Memory)} (h : Unindexed (peek t.bus.memory r.pc)) :
    ((instruction bound index).script r).run t = ((instruction bound none).script r).run t := by
  cases bound with
  | zero => rfl
  | succ bound =>
      rw [run_instruction_succ, run_instruction_succ, perform_fetch]
      rcases h with hindex | hED
      · obtain ⟨i, hi⟩ := Option.isSome_iff_exists.mp hindex
        rw [hi]
      · have hextended : ∀ index, unprefixed index 0xED = extended := fun _ => rfl
        simp only [hED]
        rw [hextended, hextended]

end Opcode

theorem Index.ofByte?_eq_none_iff (b : UInt8) : ofByte? b = none ↔ b ≠ 0xDD ∧ b ≠ 0xFD := by
  unfold ofByte?
  by_cases hDD : b = 0xDD
  · simp [hDD]
  · by_cases hFD : b = 0xFD
    · simp [hFD]
    · simp [hDD, hFD]

namespace Machine

section AnyBus

variable {β : Type} [Bus β] {m m' : Machine β} {bound bound' : Nat}

/-- A step is the event that comes next, and the time it took. -/
theorem step_eq_some_iff {r : UInt32 × Machine β} : m.step bound = some r ↔
    ∃ after, m.next bound = some after ∧
      r = (.ofNat (after.clock.total - m.clock.total), after.takeYield.2) := by
  unfold step
  constructor
  · intro h
    obtain ⟨after, hnext, hr⟩ := Option.bind_eq_some_iff.mp h
    exact ⟨after, hnext, (Option.some.inj hr).symm⟩
  · rintro ⟨after, hnext, rfl⟩
    exact Option.bind_eq_some_iff.mpr ⟨after, hnext, rfl⟩

theorem step_mono {r : UInt32 × Machine β} (hle : bound ≤ bound') (h : m.step bound = some r) :
    m.step bound' = some r := by
  obtain ⟨after, hnext, hr⟩ := step_eq_some_iff.mp h
  exact step_eq_some_iff.mpr ⟨after, next_mono hle hnext, hr⟩

/-- Two processors that read the same instruction in the same way and are otherwise alike do the same. -/
theorem next_congr (hdue : m.cpu.due = .instruction) (hdue' : m'.cpu.due = .instruction)
    (hcpu : m'.cpu = { m.cpu with regs := m'.cpu.regs }) (hnotices : m'.notices = m.notices)
    (hread : ((Opcode.instruction bound none).script m.cpu.regs).run m.outside =
      ((Opcode.instruction bound' none).script m'.cpu.regs).run m'.outside) :
    m.next bound = m'.next bound' := by
  have hbegun : ∀ regs, ({ ({ m'.cpu with shadow := false } : Cpu).beginEvent with regs } : Cpu) =
      { ({ m.cpu with shadow := false } : Cpu).beginEvent with regs } := by
    intro regs
    rw [hcpu]
    rfl
  simp only [next, Cpu.event, hdue, hdue', Cpu.run_runInstruction]
  rw [hread]
  rcases ((Opcode.instruction bound' none).script m'.cpu.regs).run m'.outside with ⟨⟨i?, regs⟩, t⟩
  cases i? with
  | none => rfl
  | some i =>
      simp only [hbegun]
      rw [hnotices]

/-- An instruction that has been read is executed. -/
theorem next_of_read {i : Instruction} {regs : Registers} {t : Timed β} (hdue : m.cpu.due = .instruction)
    (hread : ((Opcode.instruction bound none).script m.cpu.regs).run m.outside = ((some i, regs), t)) :
    m.next bound = some
      ⟨((({ ({ m.cpu with shadow := false } : Cpu).beginEvent with regs } : Cpu).execute i).run t).1,
        ((({ ({ m.cpu with shadow := false } : Cpu).beginEvent with regs } : Cpu).execute i).run t).2,
        m.notices ++ (Cpu.remarks regs.pc i).toArray⟩ := by
  simp only [next, Cpu.event, hdue, Cpu.run_runInstruction, hread]
  rfl

/-- There is a next machine if an instruction can be read. -/
theorem exists_next_iff (hdue : m.cpu.due = .instruction) :
    (∃ after, m.next bound = some after) ↔
      ∃ i, (((Opcode.instruction bound none).script m.cpu.regs).run m.outside).1.1 = some i := by
  constructor
  · rintro ⟨after, hnext⟩
    obtain ⟨i, regs, t, cpu, t', hread, -⟩ := next_of_instruction hdue hnext
    exact ⟨i, by rw [hread]⟩
  · rintro ⟨i, hi⟩
    rcases hread : ((Opcode.instruction bound none).script m.cpu.regs).run m.outside with
      ⟨⟨i?, regs⟩, t⟩
    rw [hread] at hi
    obtain rfl : i? = some i := hi
    exact ⟨_, next_of_read hdue hread⟩

end AnyBus

/-! ### Passing prefixes -/

variable {m : Machine (Board Memory)}

/-- The machine after `n` bytes have been fetched as opcodes and nothing has come of them. -/
def past (m : Machine (Board Memory)) (n : Nat) : Machine (Board Memory) :=
  { m with
    cpu :=
      { m.cpu with
        regs := ({ m.cpu.regs with pc := m.cpu.regs.pc + .ofNat n } : Registers).refresh n }
    outside := m.outside.advance (4 * n) }

theorem past_zero (m : Machine (Board Memory)) : m.past 0 = m := by
  have hpc : m.cpu.regs.pc + UInt16.ofNat 0 = m.cpu.regs.pc := UInt16.add_zero _
  simp only [past, Registers.refresh_zero, hpc, Timed.advance, Nat.mul_zero, Clock.advance_zero]

theorem past_past (m : Machine (Board Memory)) (j n : Nat) : (m.past j).past n = m.past (j + n) := by
  have hpc : m.cpu.regs.pc + UInt16.ofNat j + UInt16.ofNat n = m.cpu.regs.pc + UInt16.ofNat (j + n) := by
    rw [UInt16.ofNat_add, UInt16.add_assoc]
  have hregs : (({ (m.past j).cpu.regs with pc := (m.past j).cpu.regs.pc + .ofNat n } : Registers).refresh n)
      = (({ m.cpu.regs with pc := m.cpu.regs.pc + .ofNat (j + n) } : Registers).refresh (j + n)) := by
    rw [← Registers.refresh_refresh, ← hpc]
    rfl
  have houtside : (m.past j).outside.advance (4 * n) = m.outside.advance (4 * (j + n)) := by
    simp only [past, Timed.advance, Clock.advance_advance, Nat.mul_add]
  unfold past at *
  simp only [hregs, houtside]

/-- A prefix is passed that the byte behind it makes void. -/
theorem next_past_one (hdue : m.cpu.due = .instruction)
    (hindex : (Index.ofByte? (peek m.bus.memory m.cpu.regs.pc)).isSome = true)
    (hvoid : Opcode.Unindexed (peek m.bus.memory (m.cpu.regs.pc + 1))) (bound : Nat) :
    m.next (bound + 1) = (m.past 1).next bound := by
  refine next_congr hdue hdue rfl rfl ?_
  obtain ⟨i, hi⟩ := Option.isSome_iff_exists.mp hindex
  rw [Opcode.run_instruction_succ, Opcode.perform_fetch]
  have hi' : Index.ofByte? (peek m.outside.bus.memory m.cpu.regs.pc) = some i := hi
  simp only [hi']
  exact Opcode.run_instruction_unindexed hvoid

/-- Prefixes are passed as long as the byte behind makes void what they have chosen. -/
theorem next_past {n : Nat} (hdue : m.cpu.due = .instruction)
    (hindex : ∀ j < n, (Index.ofByte? (peek m.bus.memory (m.cpu.regs.pc + .ofNat j))).isSome = true)
    (hvoid : ∀ j < n, Opcode.Unindexed (peek m.bus.memory (m.cpu.regs.pc + .ofNat (j + 1))))
    (bound : Nat) : m.next (bound + n) = (m.past n).next bound := by
  induction n generalizing m with
  | zero => rw [past_zero, Nat.add_zero]
  | succ n ih =>
      have hshift : ∀ j, (m.past 1).cpu.regs.pc + UInt16.ofNat j = m.cpu.regs.pc + UInt16.ofNat (j + 1) :=
        add_one_add_ofNat _
      have hrest : (m.past 1).next (bound + n) = ((m.past 1).past n).next bound := by
        refine ih (m := m.past 1) hdue ?_ ?_
        · intro j hj
          rw [hshift]
          exact hindex (j + 1) (by omega)
        · intro j hj
          rw [hshift]
          exact hvoid (j + 1) (by omega)
      rw [past_past, Nat.add_comm 1 n] at hrest
      rw [← hrest, ← Nat.add_assoc]
      refine next_past_one hdue ?_ (hvoid 0 (by omega)) _
      simpa using hindex 0 (by omega)

/-- A step is a step from behind the bytes that are passed, and the time to fetch them. -/
theorem returns_step_past {n : Nat} (hnext : ∀ bound, m.next (bound + n) = (m.past n).next bound)
    (r : UInt32 × Machine (Board Memory)) :
    Returns m.step r ↔
      ∃ r', Returns (m.past n).step r' ∧ r = (r'.1 + .ofNat (4 * n), r'.2) := by
  have htime : ∀ {bound after}, (m.past n).next bound = some after →
      UInt32.ofNat (after.clock.total - m.clock.total) =
        .ofNat (after.clock.total - (m.past n).clock.total) + .ofNat (4 * n) := by
    intro bound after hafter
    obtain ⟨l, helapsed⟩ := next_elapsed hafter
    have hpast : (m.past n).clock.total = m.clock.total + 4 * n := rfl
    have htotal := helapsed.total
    rw [← UInt32.ofNat_add]
    congr 1
    omega
  constructor
  · rintro ⟨bound, hstep⟩
    obtain ⟨after, hafter, rfl⟩ := step_eq_some_iff.mp (step_mono (Nat.le_add_right bound n) hstep)
    rw [hnext] at hafter
    refine ⟨_, ⟨bound, step_eq_some_iff.mpr ⟨after, hafter, rfl⟩⟩, ?_⟩
    rw [htime hafter]
  · rintro ⟨r', ⟨bound, hstep⟩, rfl⟩
    obtain ⟨after, hafter, rfl⟩ := step_eq_some_iff.mp hstep
    refine ⟨bound + n, step_eq_some_iff.mpr ⟨after, (hnext bound).trans hafter, ?_⟩⟩
    rw [htime hafter]

/-! ### Reading comes to an end -/

/-- What is read at the program counter is what is seen there. -/
theorem read_eq_view (m : Machine (Board Memory)) (bound : Nat) :
    (((Opcode.instruction bound none).script m.cpu.regs).run m.outside).1.1 =
      ((Opcode.instruction bound none).view m.bus.memory m.cpu.regs.pc).1 :=
  Encoding.run_script_bare _ _ _

/-- An instruction is carried out, if it is due and its chain of prefixes comes to an end. -/
theorem exists_next_iff_chain (hdue : m.cpu.due = .instruction) :
    (∃ after, Returns m.next after) ↔ ∃ k, Chain m.bus.memory m.cpu.regs.pc k := by
  constructor
  · rintro ⟨after, bound, hnext⟩
    obtain ⟨i, hi⟩ := (exists_next_iff hdue).mp ⟨after, hnext⟩
    rw [read_eq_view] at hi
    obtain ⟨k, -, hchain⟩ := Opcode.exists_chain_of_view hi
    exact ⟨k, hchain⟩
  · rintro ⟨k, hchain⟩
    have hview := Opcode.view_instruction hchain (Nat.lt_succ_self k) none
    obtain ⟨after, hnext⟩ := (exists_next_iff hdue).mpr ⟨_, (read_eq_view m (k + 1)).trans (by rw [hview])⟩
    exact ⟨after, k + 1, hnext⟩

theorem exists_step_iff : (∃ r, Returns m.step r) ↔ ∃ after, Returns m.next after := by
  constructor
  · rintro ⟨r, bound, hstep⟩
    obtain ⟨after, hnext, -⟩ := step_eq_some_iff.mp hstep
    exact ⟨after, bound, hnext⟩
  · rintro ⟨after, bound, hnext⟩
    exact ⟨_, bound, step_eq_some_iff.mpr ⟨after, hnext, rfl⟩⟩

/-- The instruction behind a chain is what then happens. -/
theorem happens_of_chain (hdue : m.cpu.due = .instruction) {k : Nat}
    (hchain : Chain m.bus.memory m.cpu.regs.pc k) :
    ∃ after, Returns m.next after ∧
      m.Happens (.instruction (Opcode.behind m.bus.memory m.cpu.regs.pc k none).1) after := by
  obtain ⟨after, bound, hnext⟩ := (exists_next_iff_chain hdue).mpr ⟨k, hchain⟩
  have hmore := next_mono (Nat.le_add_right bound (k + 1)) hnext
  obtain ⟨e, hcoming, -, hhappens⟩ := next_happens hmore
  have hview := Opcode.view_instruction hchain (by omega : k < bound + (k + 1)) none
  unfold coming? at hcoming
  rw [hdue] at hcoming
  simp only at hcoming
  rw [read_eq_view, hview] at hcoming
  obtain rfl := Option.some.inj hcoming
  exact ⟨after, ⟨bound, hnext⟩, hhappens⟩

/--
**Prefixes are part of one instruction.**  A step that is to execute an instruction returns
if and only if some byte of memory is no prefix.  In a chain of `k + 1` prefixes the first
`k` are passed, each for four T-states, one address and one count of the refresh register,
and the step goes on as the one from the last prefix on; in front of ED the last one is
passed as well.  One event happens, the instruction that the last prefix and the byte behind
the chain begin, nothing else is due at any byte of the chain, and requests for interrupts
are still there afterwards.
-/
theorem step_chain (m : Machine (Board Memory)) (hdue : m.cpu.due = .instruction) :
    ((∃ r, Returns m.step r) ↔
        ∃ address, peek m.bus.memory address ≠ 0xDD ∧ peek m.bus.memory address ≠ 0xFD) ∧
      ∀ k, Chain m.bus.memory m.cpu.regs.pc (k + 1) →
        (∀ r, Returns m.step r ↔
            ∃ r', Returns (m.past k).step r' ∧ r = (r'.1 + .ofNat (4 * k), r'.2)) ∧
          Chain m.bus.memory (m.past k).cpu.regs.pc 1 ∧
          (∀ j, (m.past j).cpu.due = .instruction) ∧
          (peek m.bus.memory (m.cpu.regs.pc + .ofNat (k + 1)) = 0xED → ∀ r, Returns m.step r ↔
            ∃ r', Returns (m.past (k + 1)).step r' ∧ r = (r'.1 + .ofNat (4 * (k + 1)), r'.2)) ∧
          ∃ base i after,
            Index.ofByte? (peek m.bus.memory (m.cpu.regs.pc + .ofNat k)) = some base ∧
            i = ((Opcode.unprefixed (some base)
              (peek m.bus.memory (m.cpu.regs.pc + .ofNat (k + 1)))).view m.bus.memory
                (m.cpu.regs.pc + .ofNat (k + 2))).1 ∧
            (peek m.bus.memory (m.cpu.regs.pc + .ofNat (k + 1)) = 0xCB →
              i = ((Opcode.indexedBits base).view m.bus.memory (m.cpu.regs.pc + .ofNat (k + 2))).1) ∧
            Returns m.next after ∧ m.Happens (.instruction i) after ∧
            after.cpu.interrupt = m.cpu.interrupt ∧ after.cpu.nmi = m.cpu.nmi := by
  refine ⟨?_, ?_⟩
  · rw [exists_step_iff, exists_next_iff_chain hdue]
    constructor
    · rintro ⟨k, hchain⟩
      exact ⟨_, (Index.ofByte?_eq_none_iff _).mp hchain.ends⟩
    · rintro ⟨address, haddress⟩
      exact Chain.exists_of_mem ((Index.ofByte?_eq_none_iff _).mpr haddress) _
  · intro k hchain
    have hpassed : ∀ bound, m.next (bound + k) = (m.past k).next bound :=
      next_past hdue (fun j hj => hchain.prefixes j (by omega))
        (fun j hj => .inl (hchain.prefixes (j + 1) (by omega)))
    obtain ⟨base, hbase⟩ := Option.isSome_iff_exists.mp (hchain.prefixes k (Nat.lt_succ_self k))
    obtain ⟨after, hnext, hhappens⟩ := happens_of_chain hdue hchain
    have hlatches := hhappens.latches
    refine ⟨returns_step_past hpassed, hchain.drop, fun j => hdue, ?_, base, _, after, hbase, ?_, ?_,
      hnext, hhappens, ?_, ?_⟩
    · intro hED
      refine returns_step_past (next_past hdue hchain.prefixes fun j hj => ?_)
      by_cases hlast : j = k
      · exact .inr (hlast ▸ hED)
      · exact .inl (hchain.prefixes (j + 1) (by omega))
    · simp only [Opcode.behind, Opcode.lastIndex, hbase]
    · intro hCB
      simp only [Opcode.behind, Opcode.lastIndex, hbase, hCB]
      rfl
    · exact (congrArg Latches.interrupt hlatches).trans (Instruction.latch_interrupt _ _)
    · exact (congrArg Latches.nmi hlatches).trans (Instruction.latch_nmi _ _)

/-- In DD FD 21 34 12 the DD costs four T-states and nothing comes of it. -/
theorem step_chain_mixed :
    ∃ (m : Machine (Board Memory)) (r : UInt32 × Machine (Board Memory)),
      m.bus = Board.blank.load 0 [0xDD, 0xFD, 0x21, 0x34, 0x12] ∧ m.cpu.due = .instruction ∧
        Chain m.bus.memory m.cpu.regs.pc 2 ∧ Returns m.step r ∧ r.1 = 14 + 4 ∧
        r.2.cpu.regs.iy = 0x1234 ∧ r.2.cpu.regs.ix = m.cpu.regs.ix := by
  have hchain : Chain (Board.blank.load 0 [0xDD, 0xFD, 0x21, 0x34, 0x12]).memory 0 (1 + 1) :=
    .cons rfl (.cons rfl (.nil rfl))
  have hstep := ((step_chain (powerOn .standard (Board.blank.load 0 [0xDD, 0xFD, 0x21, 0x34, 0x12]))
    rfl).2 1 hchain).1
  refine ⟨powerOn .standard (Board.blank.load 0 [0xDD, 0xFD, 0x21, 0x34, 0x12]), _, rfl, rfl,
    hchain, (hstep _).mpr ⟨_, ⟨2, rfl⟩, rfl⟩, ?_, ?_, ?_⟩
  · rfl
  · rfl
  · rfl

end Machine

end Z80
