/-
Which interrupts are accepted, and when.

The law is about histories.  What the line carries, whether an NMI waits and whether EI has
just been executed are read off the record of calls and events (`Asserted`, `Waiting`,
`Shadowed`), each as something that began at one item and has not been ended by any item
since.  `Lawful` says of one event which of the four kinds it had to be, given the record
before it and the registers at its boundary.

The processor keeps three latches instead of a record.  `Tracks` is the invariant that they
say what the record says, and that no halted processor is in the shadow of EI.  Every item
has its effect on the latches (`Call.latch`, `Event.latch`) and on the record, and `Tracks`
survives each of them; the law then follows event by event, by induction along the record.
-/
import Z80.Proofs.Chronicle

namespace Z80

variable {β : Type}

/-! ### Reading a record -/

/-- An item of one kind is on the record, and no item of the other kind after it. -/
def Since (begins ends : Item β → Prop) (past : List (Item β)) : Prop :=
  ∃ older x newer, past = older ++ x :: newer ∧ begins x ∧ ∀ y ∈ newer, ¬ ends y

namespace Since

variable {begins ends : Item β → Prop} {past : List (Item β)}

theorem nil_iff : Since begins ends [] ↔ False := by
  simp [Since]

/-- The latest item either began it or did not end it. -/
theorem snoc_iff (x : Item β) :
    Since begins ends (past ++ [x]) ↔ begins x ∨ (Since begins ends past ∧ ¬ ends x) := by
  constructor
  · rintro ⟨older, y, newer, heq, hbegins, hends⟩
    rcases List.eq_nil_or_concat newer with rfl | ⟨newer, z, hnewer⟩
    · obtain ⟨-, rfl⟩ := List.append_singleton_inj.mp heq
      exact .inl hbegins
    · rw [List.concat_eq_append] at hnewer
      subst hnewer
      have heq' : past ++ [x] = (older ++ y :: newer) ++ [z] := by rw [heq]; simp
      obtain ⟨rfl, rfl⟩ := List.append_singleton_inj.mp heq'
      refine .inr ⟨⟨older, y, newer, rfl, hbegins, fun w hw => hends w ?_⟩, hends x ?_⟩
      · exact List.mem_append_left _ hw
      · exact List.mem_append_right _ (List.mem_singleton_self x)
  · rintro (hbegins | ⟨⟨older, y, newer, rfl, hbegins, hends⟩, hx⟩)
    · exact ⟨past, x, [], rfl, hbegins, fun _ h => absurd h List.not_mem_nil⟩
    · refine ⟨older, y, newer ++ [x], by simp, hbegins, fun w hw => ?_⟩
      rcases List.mem_append.mp hw with hw | hw
      · exact hends w hw
      · exact List.mem_singleton.mp hw ▸ hx

/-- Once ended, it has to begin again. -/
theorem exists_mem_of_ended {y : Item β} {mid : List (Item β)} (hends : ends y)
    (hbegins : ¬ begins y) (h : Since begins ends (past ++ y :: mid)) : ∃ x ∈ mid, begins x := by
  obtain ⟨older, x, newer, heq, hx, hnewer⟩ := h
  rcases List.append_eq_append_iff.mp heq with ⟨mid', rfl, hmid⟩ | ⟨newer', rfl, hnewer'⟩
  · cases mid' with
    | nil =>
        obtain ⟨rfl, -⟩ := List.cons.inj hmid
        exact absurd hx hbegins
    | cons z mid' =>
        obtain ⟨-, rfl⟩ := List.cons.inj hmid
        exact ⟨x, List.mem_append_right _ List.mem_cons_self, hx⟩
  · cases newer' with
    | nil =>
        obtain ⟨rfl, -⟩ := List.cons.inj hnewer'
        exact absurd hx hbegins
    | cons z newer' =>
        obtain ⟨-, rfl⟩ := List.cons.inj hnewer'
        exact absurd hends (hnewer y (List.mem_append_right _ List.mem_cons_self))

end Since

namespace Item

/-- A request is over when it is accepted, and also when the host withdraws or replaces it. -/
def endsRequest : Item β → Prop
  | call (.requestInterrupt _) | call .clearInterrupt | call .reset => True
  | event ⟨_, .interrupt _, _⟩ => True
  | _ => False

/-- An NMI waits until it is accepted, or the processor is reset. -/
def endsNMI : Item β → Prop
  | call .reset => True
  | event ⟨_, .nmi, _⟩ => True
  | _ => False

def executesEI : Item β → Prop
  | event p => p.event = .instruction .ei
  | call _ => False

/-- The shadow of EI lies on the next event only, and the host can lift it. -/
def endsShadow : Item β → Prop
  | call .reset | call (.restore _) => True
  | event _ => True
  | _ => False

end Item

/-- The interrupt line is asserted, with a byte. -/
def Asserted (past : List (Item β)) (data : UInt8) : Prop :=
  Since (· = .call (.requestInterrupt data)) Item.endsRequest past

theorem asserted_snoc (past : List (Item β)) (x : Item β) (data : UInt8) :
    Asserted (past ++ [x]) data ↔
      x = .call (.requestInterrupt data) ∨ (Asserted past data ∧ ¬ x.endsRequest) :=
  Since.snoc_iff x

/-- A non-maskable interrupt has been requested and not been accepted. -/
def Waiting (past : List (Item β)) : Prop := Since (· = .call .requestNMI) Item.endsNMI past

theorem waiting_snoc (past : List (Item β)) (x : Item β) :
    Waiting (past ++ [x]) ↔ x = .call .requestNMI ∨ (Waiting past ∧ ¬ x.endsNMI) :=
  Since.snoc_iff x

/-- The latest event was the execution of EI, and no state has been loaded and no reset made since. -/
def Shadowed (past : List (Item β)) : Prop := Since Item.executesEI Item.endsShadow past

theorem shadowed_snoc (past : List (Item β)) (x : Item β) :
    Shadowed (past ++ [x]) ↔ x.executesEI ∨ (Shadowed past ∧ ¬ x.endsShadow) :=
  Since.snoc_iff x

/-- An interrupt could be accepted with a byte, were it not for an NMI. -/
def Acceptable (past : List (Item β)) (m : Machine β) (data : UInt8) : Prop :=
  Asserted past data ∧ m.cpu.regs.iff1 = true ∧ ¬ Shadowed past

/-- An event happened as it had to, given the record before it. -/
structure Lawful [Bus β] (past : List (Item β)) (p : Passage β) : Prop where
  happens : p.before.Happens p.event p.after
  /-- A request stays on the line, with its byte, until something on the record ends it. -/
  line : ∀ data, p.before.cpu.interrupt = some data ↔ Asserted past data
  nmi : p.event = .nmi ↔ Waiting past
  interrupt : ∀ data, p.event = .interrupt data ↔
    ¬ Waiting past ∧ Acceptable past p.before data
  idle : (∃ n, p.event = .idle n) ↔
    ¬ Waiting past ∧ (∀ data, ¬ Acceptable past p.before data) ∧ p.before.cpu.regs.halted = true
  instruction : (∃ i, p.event = .instruction i) ↔
    ¬ Waiting past ∧ (∀ data, ¬ Acceptable past p.before data) ∧ p.before.cpu.regs.halted = false
  /-- Idling leaves the bus alone, and no interrupt could be accepted if it were to go on. -/
  rest : ∀ n, p.event = .idle n →
    (n = 1 ∨ n = p.before.clock.haltNops.toNat) ∧
      p.after.outside = p.before.outside.advance (n * 4) ∧
      ∀ data, Asserted past data → p.before.cpu.regs.iff1 = false

/-! ### The latches keep track -/

/-- What a call does to the latches before any event. -/
def Call.latch : Call → Latches → Latches
  | requestInterrupt data, l => { l with interrupt := some data }
  | clearInterrupt, l => { l with interrupt := none }
  | requestNMI, l => { l with nmi := true }
  | reset, _ => ⟨none, false, false, false⟩
  | restore _, l => { l with shadow := false, halted := false }
  | write _, l | step, l | run _, l => l

/-- The latches say what the record says. -/
structure Tracks (past : List (Item β)) (l : Latches) : Prop where
  line : ∀ data, l.interrupt = some data ↔ Asserted past data
  nmi : l.nmi = true ↔ Waiting past
  shadow : l.shadow = true ↔ Shadowed past
  calm : ¬ (l.halted = true ∧ l.shadow = true)

namespace Tracks

variable {past : List (Item β)} {l : Latches}

theorem powerOn (config : Config) : Tracks ([] : List (Item β)) (Cpu.powerOn config).latches := by
  constructor <;> simp [Asserted, Waiting, Shadowed, Since.nil_iff, Cpu.powerOn, Cpu.reset, Cpu.latches]

/-- The latches keep track of a call. -/
theorem call (h : Tracks past l) (c : Call) : Tracks (past ++ [.call c]) (c.latch l) := by
  refine ⟨fun data => ?_, ?_, ?_, fun ⟨hhalted, hshadow⟩ => h.calm ?_⟩
  · rw [asserted_snoc, ← h.line data]
    cases c <;> simp [Call.latch, Item.endsRequest]
  · rw [waiting_snoc, ← h.nmi]
    cases c <;> simp [Call.latch, Item.endsNMI]
  · rw [shadowed_snoc, ← h.shadow]
    cases c <;> simp [Call.latch, Item.executesEI, Item.endsShadow]
  · cases c with
    | reset | restore s => cases hshadow
    | _ => exact ⟨hhalted, hshadow⟩

/-- The latches keep track of an event, if the shadow of EI does not meet a halt. -/
theorem event {p : Passage β} (h : Tracks past l)
    (hcalm : ¬ ((p.event.latch l).halted = true ∧ (p.event.latch l).shadow = true)) :
    Tracks (past ++ [.event p]) (p.event.latch l) := by
  obtain ⟨before, e, after⟩ := p
  refine ⟨fun data => ?_, ?_, ?_, hcalm⟩
  · rw [asserted_snoc, ← h.line data]
    cases e <;> simp [Event.latch, Item.endsRequest]
  · rw [waiting_snoc, ← h.nmi]
    cases e <;> simp [Event.latch, Item.endsNMI]
  · -- whatever the event was, it ends an older shadow, so only EI can have cast this one
    rw [shadowed_snoc]
    cases e <;> simp [Event.latch, Item.executesEI, Item.endsShadow]

/-- What the processor finds acceptable is what the record and the flip-flop make so. -/
theorem acceptable_iff {m : Machine β} (h : Tracks past m.cpu.latches) (data : UInt8) :
    m.cpu.acceptable? = some data ↔ Acceptable past m data := by
  rw [Cpu.acceptable?_eq_some_iff, Acceptable, ← h.line data, ← h.shadow, Bool.not_eq_true]
  rfl

theorem unacceptable_iff {m : Machine β} (h : Tracks past m.cpu.latches) :
    m.cpu.acceptable? = none ↔ ∀ data, ¬ Acceptable past m data := by
  rw [Option.eq_none_iff_forall_ne_some]
  exact forall_congr' fun data => not_congr (h.acceptable_iff data)

theorem not_waiting_iff {m : Machine β} (h : Tracks past m.cpu.latches) :
    m.cpu.nmi = false ↔ ¬ Waiting past := by
  rw [← h.nmi, Bool.not_eq_true]
  rfl

variable [Bus β]

/-- An event that was due is lawful. -/
theorem lawful {m m' : Machine β} {e : Event} (h : Tracks past m.cpu.latches)
    (hdue : e.due = m.cpu.due) (hhappens : m.Happens e m')
    (hnops : ∀ n, e = .idle n → n = 1 ∨ n = m.clock.haltNops.toNat) : Lawful past ⟨m, e, m'⟩ where
  happens := hhappens
  line := h.line
  nmi := by
    rw [← Event.due_eq_nmi_iff, hdue, Cpu.due_eq_nmi_iff]
    exact h.nmi
  interrupt data := by
    rw [← Event.due_eq_interrupt_iff, hdue, Cpu.due_eq_interrupt_iff, h.not_waiting_iff,
      h.acceptable_iff]
  idle := by
    rw [← Event.due_eq_halted_iff, hdue, Cpu.due_eq_halted_iff, h.not_waiting_iff,
      h.unacceptable_iff]
  instruction := by
    rw [← Event.due_eq_instruction_iff, hdue, Cpu.due_eq_instruction_iff, h.not_waiting_iff,
      h.unacceptable_iff]
  rest n hn := by
    obtain rfl : e = .idle n := hn
    obtain ⟨-, hnone, hhalted⟩ := (Cpu.due_eq_halted_iff _).mp hdue.symm
    cases hhappens
    refine ⟨hnops n rfl, rfl, fun data hasserted => ?_⟩
    have hlit : ¬ Shadowed past := fun hs => h.calm ⟨hhalted, h.shadow.mpr hs⟩
    rw [h.unacceptable_iff] at hnone
    exact Bool.eq_false_iff.mpr fun hiff => hnone data ⟨hasserted, hiff, hlit⟩

/-- The latches keep track of an event that was due. -/
theorem happens {m m' : Machine β} {e : Event} (h : Tracks past m.cpu.latches)
    (hdue : e.due = m.cpu.due) (hhappens : m.Happens e m') :
    Tracks (past ++ [.event ⟨m, e, m'⟩]) m'.cpu.latches := by
  have hcalm := hhappens.calm hdue
  have hlatches := hhappens.latches
  rw [hlatches]
  refine h.event (p := ⟨m, e, m'⟩) ?_
  rw [← hlatches]
  exact hcalm

end Tracks

/-! ### Lawful records -/

theorem Call.latches_apply (c : Call) (cpu : Cpu) : (c.apply cpu).latches = c.latch cpu.latches := by
  cases c <;> rfl

section Records

variable [Bus β] {past : List (Item β)}

/-- That the latches keep track makes every event lawful. -/
theorem tracks_inductive :
    Chronicle.Inductive (fun past cpu => Tracks past cpu.latches) (Lawful : List (Item β) → _) :=
  fun _ _ h hdue hhappens hnops => ⟨h.lawful hdue hhappens hnops, h.happens hdue hhappens⟩

namespace Machine

variable {m : Machine β}

theorem keeps_record (h : Tracks past m.cpu.latches) (bound : Nat) (cs : List Call) :
    (m.record bound cs).Keeps (fun past cpu => Tracks past cpu.latches) Lawful past :=
  tracks_inductive.keeps_record (fun c _ _ cpu h => c.latches_apply cpu ▸ h.call c) h bound

/--
**The law of interrupt acceptance.**  In the history of any calls, from power-on and as far
as a bound lets it be followed, every event is the one it has to be by the record before it:
an NMI if one waits, else an interrupt if the line is asserted, IFF1 is set and EI was not
just executed, else NOPs of a halted processor or one whole instruction.  Between two
acceptances of a kind there is a request of that kind, with the byte that is then accepted,
and where the history ends the line still carries what has been requested and not ended.
-/
theorem record_lawful (config : Config) (bus : β) (bound : Nat) (cs : List Call) :
    ((powerOn config bus).record bound cs).machine? = (powerOn config bus).calls bound cs ∧
      (∀ past p later, ((powerOn config bus).record bound cs).items = past ++ .event p :: later →
        Lawful past p) ∧
      (∀ past p mid p' later, ((powerOn config bus).record bound cs).items =
          past ++ .event p :: (mid ++ .event p' :: later) →
        (p.event = .nmi → p'.event = .nmi → .call .requestNMI ∈ mid) ∧
          ∀ data data', p.event = .interrupt data → p'.event = .interrupt data' →
            .call (.requestInterrupt data') ∈ mid) ∧
      ∀ m, (powerOn config bus).calls bound cs = some m →
        (m.cpu.nmi = true ↔ Waiting ((powerOn config bus).record bound cs).items) ∧
          ∀ data, m.cpu.interrupt = some data ↔
            Asserted ((powerOn config bus).record bound cs).items data := by
  have hkeeps := keeps_record (m := powerOn config bus) (.powerOn config) bound cs
  refine ⟨machine?_record bound _ cs, hkeeps.lawful, fun past p mid p' later heq => ?_, ?_⟩
  · have heq' : ((powerOn config bus).record bound cs).items =
        (past ++ .event p :: mid) ++ .event p' :: later := by rw [heq]; simp
    have hlawful := hkeeps.lawful _ p' later heq'
    obtain ⟨before, e, after⟩ := p
    refine ⟨?_, ?_⟩
    · rintro rfl hp'
      have hwaiting := hlawful.nmi.mp hp'
      obtain ⟨x, hx, rfl⟩ := Since.exists_mem_of_ended (by trivial) (by simp) hwaiting
      exact hx
    · rintro data data' rfl hp'
      have hasserted := ((hlawful.interrupt data').mp hp').2.1
      obtain ⟨x, hx, rfl⟩ := Since.exists_mem_of_ended (by trivial) (by simp) hasserted
      exact hx
  · intro m hm
    have htracks := hkeeps.tracks m ((machine?_record bound _ cs).trans hm)
    exact ⟨htracks.nmi, htracks.line⟩

/-- After EI the interrupt is accepted one NOP later than it could have been. -/
theorem record_lawful_ei :
    ∃ past p, ((powerOn .standard (Board.blank.load 0 [0xFB])).record 4
        [.requestInterrupt 0xFF, .step, .step, .step]).items = past ++ [.event p] ∧
      p.event = .interrupt 0xFF ∧ past.length = 6 ∧ Asserted past 0xFF ∧ ¬ Shadowed past := by
  have hlaw := (record_lawful .standard (Board.blank.load 0 [0xFB]) 4
    [.requestInterrupt 0xFF, .step, .step, .step]).2.1
  obtain ⟨past, p, hitems, hevent, hlength⟩ : ∃ past p,
      ((powerOn .standard (Board.blank.load 0 [0xFB])).record 4
        [.requestInterrupt 0xFF, .step, .step, .step]).items = past ++ [.event p] ∧
      p.event = .interrupt 0xFF ∧ past.length = 6 :=
    ⟨[_, _, _, _, _, _], ⟨_, _, _⟩, rfl, rfl, rfl⟩
  obtain ⟨-, hasserted, -, hlit⟩ := ((hlaw past p [] hitems).interrupt 0xFF).mp hevent
  exact ⟨past, p, hitems, hevent, hlength, hasserted, hlit⟩

end Machine

end Records

end Z80
