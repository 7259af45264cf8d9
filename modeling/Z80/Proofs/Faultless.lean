/-
Machines without faults.

A bus can fault in its answer, an event in what it makes of the bytes that are read, and a step in the
difference of two readings of the clock.  `Guard.next`, `Guard.step`, `Guard.runOut` and `Guard.call`
are those of a machine that keeps such faults, and a `Command` is a call, or a use of what the machine
is wired to.  Beside a fault a machine can also lack a result because a bound on prefixes or events
has been reached; that is no fault, and is kept apart (`certain`).

On a bus that does not fault in its answers (`Answers`) no sequence of commands does
(`commands_eq`), and RAM and banks beside a port space are such buses.  Sums are not guarded: the
lifetime count of a clock is a natural number, and all other counters wrap.
-/
import Z80.Proofs.Spelling
import Z80.Proofs.Calls
import Z80.Proofs.Storing

namespace Z80

variable {α β γ υ : Type}

/-! ### The same on another bus -/

def Reply.map (raw : β → γ) (r : Reply β) : Reply γ := ⟨r.data, r.wait, r.yields, raw r.bus⟩

def Timed.map (raw : β → γ) (t : Timed β) : Timed γ := ⟨t.clock, raw t.bus⟩

def Machine.map (raw : β → γ) (m : Machine β) : Machine γ := ⟨m.cpu, m.outside.map raw, m.notices⟩

def Board.map (raw : β → γ) (b : Board β) : Board γ := ⟨raw b.memory, b.ports⟩

/-! ### Commands -/

/-- What a host does with a machine, or with what the machine is wired to. -/
inductive Command (υ : Type) where
  | call (c : Call)
  | use (u : υ)

namespace Machine

variable [Bus β] (act : υ → β → β)

/-- Carries out a command; `act` says what the uses of a bus do. -/
def command (bound : Nat) (m : Machine β) : Command υ → Option (Machine β)
  | .call c => m.call bound c
  | .use u => some (m.mapBus (act u))

/-- Carries out one command after the other. -/
def commands (bound : Nat) (m : Machine β) (cs : List (Command υ)) : Option (Machine β) :=
  cs.foldlM (command act bound) m

end Machine

namespace Guard

/-- Buses that may fault. -/
class Bus (γ : Type) where
  respond : γ → Clock → Access → Except Fault (Reply γ)

instance {ρ : Type} [Storage ρ] : Bus (Board ρ) where
  respond b clock
    | .read address => do
        let (data, wait) ← Storage.read b.memory clock address
        return { data, wait, yields := false, bus := b }
    | .write address value => do
        let (memory, wait) ← Storage.write b.memory clock address value
        return { data := 0, wait, yields := false, bus := { b with memory } }
    | .input port => return { data := b.ports.input port, wait := 0, yields := false, bus := b }
    | .output port value =>
        return { data := 0, wait := 0, yields := false, bus := { b with ports := b.ports.output port value } }

/-- A bus that may fault does not, and answers as another one. -/
def Answers [Z80.Bus β] [Bus γ] (raw : β → γ) : Prop :=
  ∀ b clock a, Bus.respond (raw b) clock a = .ok ((Z80.Bus.respond b clock a).map raw)

theorem Represents.answers {μ ρ : Type} [Z80.Storage μ] [Storage ρ] {raw : μ → ρ} (h : Represents raw) :
    Answers (Board.map raw) := by
  intro b clock a
  cases a with
  | read address =>
      show (Storage.read (raw b.memory) clock address >>= _) = _
      rw [h.read]
      rfl
  | write address value =>
      show (Storage.write (raw b.memory) clock address value >>= _) = _
      rw [h.write]
      rfl
  | input port => rfl
  | output port value => rfl

/-! ### A machine that may fault -/

section Machines

variable [Bus γ]

/-- Makes an access. -/
def access (t : Timed γ) (a : Access) : Except Fault (UInt8 × Timed γ) := do
  let reply ← Bus.respond t.bus t.clock a
  let clock := t.clock.advance reply.wait
  return (reply.data, ⟨if reply.yields then clock.requestYield else clock, reply.bus⟩)

/-- Performs a cycle. -/
def perform (c : Cycle) (t : Timed γ) : Except Fault (UInt8 × Timed γ) :=
  match c.access? with
  | some a => do
      let (data, t) ← access t a
      return (data, t.advance c.length)
  | none => return (0, t.advance c.length)

/-- Performs a script on a bus that may fault. -/
def run : Script α → Timed γ → Except Fault (α × Timed γ)
  | .done a, t => .ok (a, t)
  | .cycle c next, t => do
      let (data, t) ← perform c t
      run (next data) t

/-- What is certain not to be a fault, but may be missing because a bound has been reached. -/
def certain (o : Option α) : OptionT (Except Fault) α := OptionT.mk (.ok o)

/-- Lets the event that is due happen. -/
def next (bound : Nat) (m : Machine γ) : OptionT (Except Fault) (Machine γ) := OptionT.mk do
  let (outcome, outside) ← run (event bound m.cpu).run m.outside
  return (← outcome).map fun o => ⟨o.cpu, outside, m.notices ++ o.notices.toArray⟩

/-- Lets one event happen, and takes the difference of two readings of the clock. -/
def step (bound : Nat) (m : Machine γ) : OptionT (Except Fault) (UInt32 × Machine γ) := do
  let after ← next bound m
  let taken ← OptionT.lift (sub after.clock.total m.clock.total)
  return (.ofNat taken, after.takeYield.2)

/-- Lets events happen until the budget period is over. -/
def runOut (bound : Nat) : (events : Nat) → Machine γ → OptionT (Except Fault) (Machine γ)
  | 0, _ => certain none
  | events + 1, m =>
      if m.clock.exhausted then return m
      else
        match m.cpu.due with
        | .halted => return m.idleOut
        | .instruction => do
            let (yields, m) := (← next bound m).takeYield
            if yields then return m else runOut bound events m
        | .nmi | .interrupt _ => do
            runOut bound events (← next bound m)

/-- Carries out a call. -/
def call (bound : Nat) (m : Machine γ) : Call → OptionT (Except Fault) (Machine γ)
  | .requestInterrupt data => return m.mapCpu (·.requestInterrupt data)
  | .clearInterrupt => return m.mapCpu (·.clearInterrupt)
  | .requestNMI => return m.mapCpu (·.requestNMI)
  | .reset => return m.mapCpu (·.reset)
  | .restore s => return m.restore s
  | .write r => return m.mapCpu fun cpu => { cpu with regs := { r with halted := cpu.regs.halted } }
  | .step => return (← step bound m).2
  | .run budget => runOut bound bound (m.mapClock (·.setBudget budget))

variable (act : υ → γ → Except Fault γ)

/-- Carries out a command; `act` says what the uses of a bus do, and may fault too. -/
def command (bound : Nat) (m : Machine γ) : Command υ → OptionT (Except Fault) (Machine γ)
  | .call c => call bound m c
  | .use u => do
      let bus ← OptionT.lift (act u m.bus)
      return m.mapBus fun _ => bus

/-- Carries out one command after the other. -/
def commands (bound : Nat) (m : Machine γ) (cs : List (Command υ)) : OptionT (Except Fault) (Machine γ) :=
  cs.foldlM (command act bound) m

end Machines

/-! ### No fault -/

section Certain

variable {raw : β → γ}

@[simp] theorem certain_some_bind (a : α) (f : α → OptionT (Except Fault) γ) :
    certain (some a) >>= f = f a := rfl

@[simp] theorem lift_ok_bind (a : α) (f : α → OptionT (Except Fault) γ) :
    OptionT.lift (.ok a) >>= f = f a := rfl

variable [Z80.Bus β] [Bus γ] (h : Answers raw)

include h

/-- A script does not fault. -/
theorem run_eq (s : Script α) (t : Timed β) : run s (t.map raw) = .ok ((s.run t).1, (s.run t).2.map raw) := by
  induction s generalizing t with
  | done a => rfl
  | cycle c next ih =>
      have hperform : perform c (t.map raw) = .ok ((c.perform t).1, (c.perform t).2.map raw) := by
        unfold perform Cycle.perform
        cases c.access? with
        | none => rfl
        | some a =>
            show (Bus.respond (raw t.bus) t.clock a >>= _) >>= _ = _
            rw [h]
            rfl
      show (perform c (t.map raw) >>= fun p => run (next p.1) p.2) = _
      rw [hperform]
      exact ih _ _

theorem next_eq (bound : Nat) (m : Machine β) :
    next bound (m.map raw) = certain ((m.next bound).map (Machine.map raw)) := by
  have hrun : run (event bound m.cpu).run (m.outside.map raw) =
      .ok (.ok ((m.cpu.event bound).run m.outside).1, ((m.cpu.event bound).run m.outside).2.map raw) := by
    let s : Script (Except Fault (Option Outcome)) := .ok <$> m.cpu.event bound
    rw [event_eq]
    show run s (m.outside.map raw) = _
    rw [run_eq h, Script.run_map]
  show OptionT.mk (run (event bound m.cpu).run (m.outside.map raw) >>= _) = _
  rw [hrun]
  show certain (Option.map _ _) = certain ((Option.map _ _).map _)
  rw [Option.map_map]
  rfl

/-- A step takes no less than no time, since the lifetime count never goes back. -/
theorem step_eq (bound : Nat) (m : Machine β) :
    step bound (m.map raw) = certain ((m.step bound).map fun r => (r.1, r.2.map raw)) := by
  unfold step Machine.step
  rw [next_eq h]
  cases hnext : m.next bound with
  | none => rfl
  | some after =>
      obtain ⟨n, helapsed⟩ := Machine.next_elapsed hnext
      have hle : m.clock.total ≤ after.clock.total := helapsed.total ▸ Nat.le_add_right _ _
      have hsub : sub (after.map raw).clock.total (m.map raw).clock.total =
        .ok (after.clock.total - m.clock.total) := sub_of_le hle
      simp only [Option.map_some, certain_some_bind, hsub, lift_ok_bind]
      rfl

theorem runOut_eq (bound events : Nat) (m : Machine β) :
    runOut bound events (m.map raw) = certain ((m.runOut bound events).map (Machine.map raw)) := by
  induction events generalizing m with
  | zero => rfl
  | succ events ih =>
      have hclock : (m.map raw).clock = m.clock := rfl
      have hcpu : (m.map raw).cpu = m.cpu := rfl
      rw [runOut, Machine.runOut, hclock, hcpu, next_eq h]
      split
      · rfl
      · cases m.cpu.due with
        | halted => rfl
        | nmi | interrupt data =>
            cases m.next bound with
            | none => rfl
            | some m₁ => exact ih m₁
        | instruction =>
            cases m.next bound with
            | none => rfl
            | some m₁ =>
                show (if m₁.clock.yieldRequested = true then pure (m₁.takeYield.2.map raw)
                  else runOut bound events (m₁.takeYield.2.map raw)) =
                  certain (Option.map _ (if m₁.clock.yieldRequested = true then some m₁.takeYield.2
                    else m₁.takeYield.2.runOut bound events))
                split
                · rfl
                · exact ih _

theorem call_eq (bound : Nat) (m : Machine β) (c : Call) :
    call bound (m.map raw) c = certain ((m.call bound c).map (Machine.map raw)) := by
  cases c with
  | step =>
      show (step bound (m.map raw) >>= fun r => pure r.2) = certain (((m.step bound).map (·.2)).map _)
      rw [step_eq h]
      cases m.step bound <;> rfl
  | run budget => exact runOut_eq h bound bound (m.mapClock (·.setBudget budget))
  | _ => rfl

variable {act : υ → β → β} {act' : υ → γ → Except Fault γ}
  (hact : ∀ u b, act' u (raw b) = .ok (raw (act u b)))

include hact

theorem command_eq (bound : Nat) (m : Machine β) (c : Command υ) :
    command act' bound (m.map raw) c = certain ((m.command act bound c).map (Machine.map raw)) := by
  cases c with
  | call c => exact call_eq h bound m c
  | use u =>
      have hbus : act' u (m.map raw).bus = .ok (raw (act u m.bus)) := hact u m.bus
      unfold command
      simp only [hbus, lift_ok_bind]
      rfl

/-- **No command faults**, on a bus that does not fault in what it answers and in what is done to it. -/
theorem commands_eq (bound : Nat) (m : Machine β) (cs : List (Command υ)) :
    commands act' bound (m.map raw) cs = certain ((m.commands act bound cs).map (Machine.map raw)) := by
  induction cs generalizing m with
  | nil => rfl
  | cons c cs ih =>
      show command act' bound (m.map raw) c >>= (commands act' bound · cs) =
        certain (((m.command act bound c).bind fun m' => m'.commands act bound cs).map _)
      rw [command_eq h hact]
      cases m.command act bound c with
      | none => rfl
      | some m' => exact ih m'

end Certain

end Guard

/-! ### Plain RAM and banks -/

namespace Board

/-- Banks beside ports after they have been used. -/
def useBanks (u : BankedMemory.Use) (b : Board BankedMemory) : Board BankedMemory :=
  { b with memory := b.memory.use u }

end Board

namespace Guard

namespace Flat

/-- RAM in a row and ports after they have been used. -/
def use : Board.Use → Board Flat → Except Fault (Board Flat)
  | .load address bytes, b => return { b with memory := ← b.memory.load address bytes }
  | .poke address value, b => return { b with memory := ← put b.memory address.toNat value }
  | .connect port value, b => return { b with ports := b.ports.connect port value }
  | .collect, b => return { b with ports := b.ports.collect.2 }

theorem use_ofMemory (u : Board.Use) (b : Board Memory) :
    use u (b.map ofMemory) = .ok ((b.use u).map ofMemory) := by
  cases u with
  | load address bytes =>
      show (do return { b.map ofMemory with memory := ← load (ofMemory b.memory) address bytes }) = _
      rw [load_ofMemory]
      rfl
  | poke address value =>
      show (do return { b.map ofMemory with memory := ← put (ofMemory b.memory) address.toNat value }) = _
      rw [put_ofMemory]
      rfl
  | connect port value => rfl
  | collect => rfl

end Flat

namespace Banked

/-- Banks in rows beside ports after they have been used. -/
def useBanks (u : BankedMemory.Use) (b : Board Banked) : Except Fault (Board Banked) :=
  return { b with memory := ← b.memory.use u }

theorem useBanks_ofMemory (u : BankedMemory.Use) (b : Board BankedMemory) :
    useBanks u (b.map ofMemory) = .ok ((b.useBanks u).map ofMemory) := by
  show (do return { b.map ofMemory with memory := ← use (ofMemory b.memory) u }) = _
  rw [use_ofMemory]
  rfl

end Banked

/--
**Nothing faults.**  A machine on plain RAM, whatever the bytes in it and the state of its processor,
carries out any commands of a host without a fault, and does what it does where there are no faults;
so does a machine on banked memory, which can be built from any number of banks but zero.  Neither
does it fault to ask what a window shows, to look up the flags of a byte in a table, or to
disassemble from RAM, from banks, from a run of bytes, be it empty, or from anything else that can
be looked at without a fault.
-/
theorem nothing_faults :
    (∀ (m : Machine (Board Flat)) (bound : Nat) (cs : List (Command Board.Use)),
      ∃ m' : Machine (Board Memory), m = m'.map (.map Flat.ofMemory) ∧
        commands Flat.use bound m cs =
          certain ((m'.commands Board.use bound cs).map (.map (.map Flat.ofMemory)))) ∧
    (∀ romCount ramCount : Nat, 0 < romCount + ramCount →
      ∃ blank, BankedMemory.create romCount ramCount = .ok blank ∧
        Banked.create romCount ramCount = .ok (.ofMemory blank)) ∧
    (∀ (m : Machine (Board BankedMemory)) (bound : Nat) (cs : List (Command BankedMemory.Use)),
      commands Banked.useBanks bound (m.map (.map Banked.ofMemory)) cs =
        certain ((m.commands Board.useBanks bound cs).map (.map (.map Banked.ofMemory)))) ∧
    (∀ (m : BankedMemory) (window : Nat),
      Banked.mapped (.ofMemory m) window = .ok (m.mapped ⟨window % 4, Nat.mod_lt _ (by decide)⟩)) ∧
    (∀ (f : UInt8 → Flags) (value : UInt8), look (table f)[value.toNat]? = .ok (f value).toByte) ∧
    (∀ (m : Memory) (address : UInt16),
      Spelling.instructionAt (Flat.ofMemory m) address = .ok (Disassembly.instructionAt m address)) ∧
    (∀ (m : BankedMemory) (address : UInt16),
      Spelling.instructionAt (Banked.ofMemory m) address = .ok (Disassembly.instructionAt m address)) ∧
    (∀ (bytes : Array UInt8) (address : UInt16),
      Spelling.instructionAt bytes address = .ok (Disassembly.instructionAt bytes address)) ∧
    (∀ {μ ρ : Type} [Z80.View μ] [View ρ] (raw : μ → ρ),
      (∀ m address, View.peek (raw m) address = .ok (Z80.View.peek m address)) →
        ∀ m address, Spelling.instructionAt (raw m) address = .ok (Disassembly.instructionAt m address)) := by
  have hbytes : ∀ (bytes : Array UInt8) (address : UInt16),
      View.peek (id bytes) address = .ok (Z80.View.peek bytes address) := peek_bytes
  refine ⟨?_, fun _ _ => Banked.create_ofMemory, ?_, Banked.mapped_ofMemory, look_table,
    Spells.instructionAt Flat.represents.peek, Spells.instructionAt Banked.represents.peek,
    Spells.instructionAt hbytes, fun raw h => Spells.instructionAt h⟩
  · rintro ⟨cpu, ⟨clock, ⟨memory, ports⟩⟩, notices⟩ bound cs
    obtain ⟨memory, rfl⟩ := Flat.exists_ofMemory memory
    let m' : Machine (Board Memory) := ⟨cpu, ⟨clock, ⟨memory, ports⟩⟩, notices⟩
    exact ⟨m', rfl, commands_eq Flat.represents.answers Flat.use_ofMemory bound m' cs⟩
  · exact fun m bound cs => commands_eq Banked.represents.answers Banked.useBanks_ofMemory bound m cs

/-- Where two banks have been mapped and the processor has executed a NOP of each, nothing has faulted. -/
theorem nothing_faults_banks :
    0 < 1 + 1 ∧ ∃ blank m', Banked.create 1 1 = .ok (.ofMemory blank) ∧
      commands Banked.useBanks 1 ((Machine.powerOn .standard (Board.ofMemory blank)).map (.map Banked.ofMemory))
        [.use (.map 0 1), .call .step, .use (.map 0 0), .call .step] = certain (some m') ∧
      m'.cpu.regs.pc = 2 := by
  obtain ⟨-, hcreate, hcommands, -⟩ := nothing_faults
  obtain ⟨blank, hblank, hblank'⟩ := hcreate 1 1 (by decide)
  have hran := hcommands (.powerOn .standard (.ofMemory blank)) 1
    [.use (.map 0 1), .call .step, .use (.map 0 0), .call .step]
  obtain rfl := Except.ok.inj hblank
  exact ⟨by decide, _, _, hblank', hran, rfl⟩

end Guard
end Z80
