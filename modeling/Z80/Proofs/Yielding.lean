/-
What becomes of a request to yield.

A bus may ask the run loop to return in any of its answers.  After an instruction the loop
looks whether it has, so a request that is made during an instruction ends the run with that
instruction, and none is left behind.  After the acceptance of an interrupt the loop does not
look.  A request made there waits for the instruction that follows, and when the budget is
used up before that, it outlives the run.

What has been asked of a bus is in its log, and `Bus.requests` finds the requests by asking
once more.  The record of a run then tells of every event whether a request was made during it
(`Passage.raises`), and `recordOut_passage` takes a run apart at any event of its record.
-/
import Z80.Proofs.Chronicle
import Z80.Proofs.Waiting

namespace Z80

variable {β : Type} [Bus β]

/-! ### Requests in a log -/

/-- Does one of the answers to these accesses ask the run loop to return? -/
def Bus.requests (b : β) : List Asked → Bool
  | [] => false
  | a :: asked => (respond b a.clock a.access).yields || requests (respond b a.clock a.access).bus asked

theorem Bus.requests_append (b : β) (asked asked' : List Asked) :
    requests b (asked ++ asked') = (requests b asked || requests (after b asked) asked') := by
  induction asked generalizing b with
  | nil => rfl
  | cons a asked ih => simp only [List.cons_append, requests, after, ih, Bool.or_assoc]

/-- After a stretch of time a request is pending if it was before, or if one has been made since. -/
structure Requests (asked : List Asked) (t t' : Timed (Logged β)) : Prop where
  log : t'.bus.log = t.bus.log ++ asked
  bus : t'.bus.bus = Bus.after t.bus.bus asked
  pending : t'.clock.yieldRequested = (t.clock.yieldRequested || Bus.requests t.bus.bus asked)

namespace Requests

variable {asked asked' : List Asked} {t t' t'' : Timed (Logged β)}

theorem refl (t : Timed (Logged β)) : Requests [] t t :=
  ⟨(List.append_nil _).symm, rfl, (Bool.or_false _).symm⟩

theorem trans (h : Requests asked t t') (h' : Requests asked' t' t'') :
    Requests (asked ++ asked') t t'' := by
  refine ⟨?_, ?_, ?_⟩
  · rw [h'.log, h.log, List.append_assoc]
  · rw [h'.bus, h.bus, Bus.after_append]
  · rw [h'.pending, h.pending, h.bus, Bus.requests_append, Bool.or_assoc]

theorem advance (t : Timed (Logged β)) (n : Nat) : Requests [] t (t.advance n) :=
  ⟨(List.append_nil _).symm, rfl, (Bool.or_false _).symm⟩

theorem access (t : Timed (Logged β)) (a : Access) : Requests [⟨a, t.clock⟩] t (t.access a).2 := by
  refine ⟨rfl, rfl, ?_⟩
  have hyields : (Bus.respond t.bus t.clock a).yields = (Bus.respond t.bus.bus t.clock a).yields := rfl
  simp only [Timed.access, Bus.requests, Bool.or_false, hyields]
  cases (Bus.respond t.bus.bus t.clock a).yields with
  | true => exact (Bool.or_true _).symm
  | false => exact (Bool.or_false _).symm

theorem run {α : Type} (s : Script α) (t : Timed (Logged β)) : ∃ asked, Requests asked t (s.run t).2 := by
  refine s.run_preserves (I := fun t' => ∃ asked, Requests asked t t') ?_ ?_ ⟨[], refl t⟩
  · rintro t' n ⟨asked, h⟩
    exact ⟨_, h.trans (advance t' n)⟩
  · rintro t' a ⟨asked, h⟩
    exact ⟨_, h.trans (access t' a)⟩

end Requests

namespace Passage

/-- What the bus was asked during an event. -/
def asked (p : Passage (Logged β)) : List Asked := p.after.bus.log.drop p.before.bus.log.length

/-- Has the bus asked the run loop to return during an event? -/
def raises (p : Passage (Logged β)) : Bool := Bus.requests p.before.bus.bus p.asked

/-- During the event an interrupt of either kind is accepted. -/
def Accepts (p : Passage β) : Prop := p.event.due = .nmi ∨ ∃ data, p.event.due = .interrupt data

end Passage

/-- What is asked for during an event is on the log, and a request for a return is pending after it. -/
theorem Machine.next_requests {bound : Nat} {m m' : Machine (Logged β)} (h : m.next bound = some m') :
    ∃ asked, Requests asked m.outside m'.outside := by
  rw [next_outside h]
  exact Requests.run _ _

/-- A request is pending after an event if it was before, or if the event has raised one. -/
theorem Passage.pending_after {bound : Nat} {m m' : Machine (Logged β)} (h : m.next bound = some m')
    (e : Event) :
    m'.clock.yieldRequested =
      (m.clock.yieldRequested || (⟨m, e, m'⟩ : Passage (Logged β)).raises) := by
  obtain ⟨asked, hasked⟩ := Machine.next_requests h
  have hlog : m'.bus.log = m.bus.log ++ asked := hasked.log
  have hdropped : (⟨m, e, m'⟩ : Passage (Logged β)).asked = asked := by
    show m'.bus.log.drop m.bus.log.length = asked
    rw [hlog, List.drop_left]
  rw [raises, hdropped]
  exact hasked.pending

/-! ### Between an acceptance and the handler -/

theorem Cpu.acceptNMI_closes (cpu : Cpu) : cpu.acceptNMI.Ensures fun _ o => o.cpu.regs.iff1 = false := by
  simp [acceptNMI]
  rfl

theorem Cpu.acceptInterrupt_closes (cpu : Cpu) (data : UInt8) :
    (cpu.acceptInterrupt data).Ensures fun _ o => o.cpu.regs.iff1 = false := by
  simp only [acceptInterrupt, Script.ensures_bind, Script.ensures_internal, ensures_push,
    Script.ensures_pure]
  exact (handler_ensures _ data).mono fun n p _ => rfl

namespace Machine

/-- After the acceptance of an interrupt an instruction is due, whatever else may wait. -/
theorem due_of_accepts {m m' : Machine β} {e : Event} (hdue : e.due = m.cpu.due)
    (h : m.Happens e m') (haccepts : Passage.Accepts ⟨m, e, m'⟩) : m'.cpu.due = .instruction := by
  have hlatches := h.latches
  have hnmi : m'.cpu.nmi = (e.latch m.cpu.latches).nmi := by rw [← hlatches]; rfl
  have hhalted : m'.cpu.regs.halted = (e.latch m.cpu.latches).halted := by rw [← hlatches]; rfl
  have hclosed : m'.cpu.regs.iff1 = false → m'.cpu.acceptable? = none := by
    intro hiff1
    rw [Cpu.acceptable?, hiff1]
    rfl
  rw [Cpu.due_eq_instruction_iff]
  cases h with
  | nmi =>
      obtain ⟨-, hiff1⟩ := (Cpu.acceptNMI_closes { m.cpu with shadow := false }).run m.outside
      exact ⟨hnmi, hclosed hiff1, hhalted⟩
  | interrupt data =>
      obtain ⟨-, hiff1⟩ := (Cpu.acceptInterrupt_closes { m.cpu with shadow := false } data).run m.outside
      obtain ⟨hwaits, -⟩ := (Cpu.due_eq_interrupt_iff _ data).mp hdue.symm
      exact ⟨hnmi.trans hwaits, hclosed hiff1, hhalted⟩
  | idle n => simp [Passage.Accepts, Event.due] at haccepts
  | instruction _ _ => simp [Passage.Accepts, Event.due] at haccepts

omit [Bus β] in
/-- A period that a halted processor has used up is exhausted. -/
theorem exhausted_idleOut {m : Machine β} (htarget : m.clock.target.toNat ≤ 2 ^ 32 - 4)
    (hex : ¬ m.clock.exhausted = true) : m.idleOut.clock.exhausted = true := by
  have hlt := m.clock.not_exhausted_iff.mp (Bool.eq_false_iff.mpr hex)
  have hnops := m.clock.toNat_haltNops
  have helapsed : Clock.Elapsed (m.clock.haltNops.toNat * 4) m.clock m.idleOut.clock := .advance _ _
  rw [Clock.exhausted_iff, helapsed.target, helapsed.toNat_current (by omega)]
  omega

/-! ### Taking a run apart -/

/-- An event of a run, and how the run goes on from there. -/
inductive Stands (bound : Nat) : Passage β → List (Item β) → Prop
  /-- A halted processor uses up the period, and the run is over. -/
  | idled {m : Machine β} (hex : ¬ m.clock.exhausted = true) (hdue : m.cpu.due = .halted) :
      Stands bound ⟨m, .idle m.clock.haltNops.toNat, m.idleOut⟩ []
  /-- After an instruction a request is pending, and the run is over. -/
  | yielded {m m' : Machine β} {e : Event} (hex : ¬ m.clock.exhausted = true)
      (hdue : e.due = m.cpu.due) (hnext : m.next bound = some m')
      (hy : m.cpu.due = .instruction ∧ m'.clock.yieldRequested = true) : Stands bound ⟨m, e, m'⟩ []
  /-- The run goes on. -/
  | further {m m' : Machine β} {e : Event} (events : Nat) (hex : ¬ m.clock.exhausted = true)
      (hdue : e.due = m.cpu.due) (hawake : ¬ m.cpu.due = .halted) (hnext : m.next bound = some m')
      (hhappens : m.Happens e m')
      (hy : ¬ (m.cpu.due = .instruction ∧ m'.clock.yieldRequested = true)) :
      Stands bound ⟨m, e, m'⟩ (m'.recordOut bound events).items

namespace Stands

variable {bound : Nat}

/-- A request that is made during an event is pending after it. -/
theorem pending {p : Passage (Logged β)} {later : List (Item (Logged β))} (h : Stands bound p later)
    (hraises : p.raises = true) : p.after.clock.yieldRequested = true := by
  cases h with
  | idled hex hdue =>
      -- idling leaves the bus alone
      simp [Passage.raises, Passage.asked, idleOut, bus, Bus.requests] at hraises
  | yielded hex hdue hnext hy => exact hy.2
  | further events hex hdue hawake hnext hhappens hy =>
      rw [Passage.pending_after hnext _, hraises, Bool.or_true]

variable {p : Passage β} {later : List (Item β)}

/-- A pending request is taken at the end of an instruction. -/
theorem of_instruction (h : Stands bound p later) (hdue : p.event.due = .instruction)
    (hpending : p.after.clock.yieldRequested = true) : later = [] ∧ Ran p.before p.after.takeYield.2 := by
  cases h with
  | idled hex hhalted => exact absurd hdue (by simp [Event.due])
  | yielded hex hdue' hnext hy => exact ⟨rfl, .yielded hex hy.1 ⟨bound, hnext⟩ hy.2⟩
  | further events hex hdue' hawake hnext hhappens hy =>
      exact absurd ⟨hdue'.symm.trans hdue, hpending⟩ hy

/-- An acceptance is followed by what the run does next, whether a request is pending or not. -/
theorem of_accepts (h : Stands bound p later) (haccepts : p.Accepts) :
    p.after.cpu.due = .instruction ∧ (∃ events, later = (p.after.recordOut bound events).items) ∧
      ∀ r, Ran p.after r → Ran p.before r := by
  have hother : ¬ p.event.due = .halted ∧ ¬ p.event.due = .instruction := by
    rcases haccepts with hdue | ⟨data, hdue⟩ <;> simp [hdue]
  cases h with
  | idled hex hhalted => exact absurd rfl hother.1
  | yielded hex hdue hnext hy => exact absurd (hdue.trans hy.1) hother.2
  | further events hex hdue hawake hnext hhappens hy =>
      exact ⟨due_of_accepts hdue hhappens haccepts, ⟨events, rfl⟩,
        fun r hrest => .further hex hawake ⟨bound, hnext⟩ hy hrest⟩

end Stands

theorem items_recordOut_of_exhausted {m : Machine β} (bound events : Nat)
    (hex : m.clock.exhausted = true) : (m.recordOut bound events).items = [] := by
  cases events with
  | zero => rfl
  | succ events => rw [recordOut, if_pos hex]; rfl

/-- The record of a run that goes on begins with the event that is due. -/
theorem recordOut_succ_of_next {bound : Nat} {m m₁ : Machine β} (hex : ¬ m.clock.exhausted = true)
    (hawake : ¬ m.cpu.due = .halted) (hnext : m.next bound = some m₁) (events : Nat) :
    ∃ e, e.due = m.cpu.due ∧ m.Happens e m₁ ∧
      m.recordOut bound (events + 1) =
        if m.cpu.due = .instruction ∧ m₁.clock.yieldRequested = true then
          ⟨[.event ⟨m, e, m₁⟩], some m₁.takeYield.2⟩
        else
          ⟨.event ⟨m, e, m₁⟩ :: (m₁.recordOut bound events).items, m₁.runOut bound events⟩ := by
  obtain ⟨e, hrecord, -, hdue, hhappens⟩ := recordNext_of_next hnext
  refine ⟨e, hdue, hhappens, ?_⟩
  rw [recordOut, if_neg hex, if_neg hawake, hrecord]
  simp only [Chronicle.andThen, ← machine?_recordOut]
  split <;> rfl

/-- The first event on the record of a run, and what is left of the run after it. -/
theorem recordOut_cons {bound events : Nat} {m : Machine β} {x : Item β} {rest : List (Item β)}
    (h : (m.recordOut bound (events + 1)).items = x :: rest) :
    ∃ p, x = .event p ∧ p.before = m ∧ Stands bound p rest ∧
      (rest ≠ [] → rest = (p.after.recordOut bound events).items ∧
        ∀ m', Ran p.after m' → Ran m m') := by
  by_cases hex : m.clock.exhausted = true
  · simp [recordOut, hex, Chronicle.silent] at h
  by_cases hhalted : m.cpu.due = .halted
  · rw [recordOut, if_neg hex, if_pos hhalted] at h
    obtain ⟨rfl, rfl⟩ := List.cons.inj h
    exact ⟨_, rfl, rfl, .idled hex hhalted, fun hne => absurd rfl hne⟩
  cases hnext : m.next bound with
  | none =>
      rw [recordOut, if_neg hex, if_neg hhalted, recordNext_of_none hnext] at h
      simp [Chronicle.andThen, Chronicle.broken] at h
  | some m₁ =>
      obtain ⟨e, hdue, hhappens, hrecord⟩ := recordOut_succ_of_next hex hhalted hnext events
      rw [hrecord] at h
      by_cases hy : m.cpu.due = .instruction ∧ m₁.clock.yieldRequested = true
      · rw [if_pos hy] at h
        obtain ⟨rfl, rfl⟩ := List.cons.inj h
        exact ⟨_, rfl, rfl, .yielded hex hdue hnext hy,
          fun hne => absurd rfl hne⟩
      · rw [if_neg hy] at h
        obtain ⟨rfl, rfl⟩ := List.cons.inj h
        exact ⟨_, rfl, rfl, .further events hex hdue hhalted hnext hhappens hy,
          fun _ => ⟨rfl, fun m' hrest => .further hex hhalted ⟨bound, hnext⟩ hy hrest⟩⟩

/-- Every event on the record of a run stands in it, and as the run goes on there it ends. -/
theorem recordOut_passage {bound events : Nat} {m : Machine β} {earlier later : List (Item β)}
    {p : Passage β} (h : (m.recordOut bound events).items = earlier ++ .event p :: later) :
    (∀ m', Ran p.before m' → Ran m m') ∧ Stands bound p later := by
  induction events generalizing m earlier with
  | zero => simp [recordOut, Chronicle.broken] at h
  | succ events ih =>
      cases earlier with
      | nil =>
          obtain ⟨q, hp, hbefore, hstands, -⟩ := recordOut_cons h
          obtain rfl := Item.event.inj hp
          exact ⟨fun _ hran => hbefore ▸ hran, hstands⟩
      | cons x earlier =>
          obtain ⟨q, -, -, -, hrest⟩ := recordOut_cons h
          obtain ⟨hitems, hgo⟩ := hrest (by simp)
          obtain ⟨hran, hstands⟩ := ih hitems.symm
          exact ⟨fun m' hend => hgo m' (hran m' hend), hstands⟩

/-! ### What a run leaves -/

variable {bound events : Nat}

omit [Bus β] in
/-- An event after which the run goes on was an acceptance, if a request is pending. -/
theorem accepts_of_pending {m m₁ : Machine (Logged β)} {e : Event} (hdue : e.due = m.cpu.due)
    (hawake : ¬ m.cpu.due = .halted)
    (hy : ¬ (m.cpu.due = .instruction ∧ m₁.clock.yieldRequested = true))
    (hpending : m₁.clock.yieldRequested = true) : Passage.Accepts ⟨m, e, m₁⟩ := by
  unfold Passage.Accepts
  cases hm : m.cpu.due with
  | nmi => exact .inl (hdue.trans hm)
  | interrupt data => exact .inr ⟨data, hdue.trans hm⟩
  | halted => exact absurd hm hawake
  | instruction => exact absurd ⟨hm, hpending⟩ hy

/-- A run leaves a request behind if its last event is an acceptance that has raised it, and only then. -/
theorem recordOut_pending_iff {m r : Machine (Logged β)}
    (hhead : m.clock.yieldRequested = true → m.cpu.due = .instruction)
    (h : m.runOut bound events = some r) :
    r.clock.yieldRequested = true ↔
      ((m.recordOut bound events).items = [] ∧ m.clock.yieldRequested = true) ∨
        ∃ p, (m.recordOut bound events).items.getLast? = some (.event p) ∧ p.Accepts ∧
          p.raises = true := by
  induction events generalizing m with
  | zero => simp [runOut] at h
  | succ events ih =>
      rw [runOut_succ] at h
      by_cases hex : m.clock.exhausted = true
      · rw [if_pos hex, Option.some.injEq] at h
        rw [items_recordOut_of_exhausted bound _ hex, h]
        simp
      rw [if_neg hex] at h
      by_cases hhalted : m.cpu.due = .halted
      · rw [if_pos hhalted, Option.some.injEq] at h
        have hunasked : ¬ m.clock.yieldRequested = true := by
          intro hm
          rw [hhead hm] at hhalted
          cases hhalted
        rw [← h, recordOut, if_neg hex, if_pos hhalted]
        refine iff_of_false hunasked ?_
        rintro (⟨hitems, -⟩ | ⟨p, hlast, haccepts, -⟩)
        · cases hitems
        · obtain rfl := Item.event.inj (Option.some.inj hlast)
          simp [Passage.Accepts, Event.due] at haccepts
      rw [if_neg hhalted] at h
      obtain ⟨m₁, hnext, h⟩ := Option.bind_eq_some_iff.mp h
      obtain ⟨e, hdue, hhappens, hrecord⟩ := recordOut_succ_of_next hex hhalted hnext events
      rw [hrecord]
      by_cases hy : m.cpu.due = .instruction ∧ m₁.clock.yieldRequested = true
      · rw [if_pos hy, Option.some.injEq] at h
        rw [if_pos hy, ← h]
        refine iff_of_false Bool.false_ne_true ?_
        rintro (⟨hitems, -⟩ | ⟨p, hlast, haccepts, -⟩)
        · cases hitems
        · obtain rfl := Item.event.inj (Option.some.inj hlast)
          simp [Passage.Accepts, hdue, hy.1] at haccepts
      rw [if_neg hy] at h ⊢
      have haccepts := accepts_of_pending (e := e) hdue hhalted hy
      have hhead₁ : m₁.clock.yieldRequested = true → m₁.cpu.due = .instruction :=
        fun hm₁ => due_of_accepts hdue hhappens (haccepts hm₁)
      have hpending := Passage.pending_after hnext e
      rw [ih hhead₁ h]
      cases hitems : (m₁.recordOut bound events).items with
      | nil =>
          -- the run ends with this event, and before it nothing was pending
          have hfirst : m₁.clock.yieldRequested = true ↔ Passage.Accepts ⟨m, e, m₁⟩ ∧
              Passage.raises ⟨m, e, m₁⟩ = true := by
            constructor
            · intro hm₁
              have hm : m.clock.yieldRequested = false :=
                Bool.eq_false_iff.mpr fun hm => hy ⟨hhead hm, hm₁⟩
              rw [hm, Bool.false_or] at hpending
              exact ⟨haccepts hm₁, hpending ▸ hm₁⟩
            · rintro ⟨-, hraises⟩
              rw [hpending, hraises, Bool.or_true]
          simp [hfirst]
      | cons x rest => simp [List.getLast?_cons]

/-- A run that stops early has been asked to, by a request from before it or by one made in it. -/
theorem recordOut_early {m r : Machine (Logged β)} (htarget : m.clock.target.toNat ≤ 2 ^ 32 - 4)
    (h : m.runOut bound events = some r) (hearly : r.clock.exhausted = false) :
    m.clock.yieldRequested = true ∨
      ∃ p, .event p ∈ (m.recordOut bound events).items ∧ p.raises = true := by
  induction events generalizing m with
  | zero => simp [runOut] at h
  | succ events ih =>
      rw [runOut_succ] at h
      by_cases hex : m.clock.exhausted = true
      · rw [if_pos hex, Option.some.injEq] at h
        exact absurd (h ▸ hex) (Bool.eq_false_iff.mp hearly)
      rw [if_neg hex] at h
      by_cases hhalted : m.cpu.due = .halted
      · rw [if_pos hhalted, Option.some.injEq] at h
        exact absurd (h ▸ exhausted_idleOut htarget hex) (Bool.eq_false_iff.mp hearly)
      rw [if_neg hhalted] at h
      obtain ⟨m₁, hnext, h⟩ := Option.bind_eq_some_iff.mp h
      obtain ⟨e, -, -, hrecord⟩ := recordOut_succ_of_next hex hhalted hnext events
      -- a request that is pending after the event was pending before it or raised in it
      have hfirst : m₁.clock.yieldRequested = true → m.clock.yieldRequested = true ∨
          ∃ p, .event p ∈ (m.recordOut bound (events + 1)).items ∧ p.raises = true := by
        intro hm₁
        rw [Passage.pending_after hnext e, Bool.or_eq_true] at hm₁
        refine hm₁.imp_right fun hraises => ⟨_, ?_, hraises⟩
        rw [hrecord]
        split <;> exact List.mem_cons_self
      by_cases hy : m.cpu.due = .instruction ∧ m₁.clock.yieldRequested = true
      · exact hfirst hy.2
      rw [if_neg hy] at h
      obtain ⟨n, helapsed⟩ := next_elapsed hnext
      rcases ih (by rw [helapsed.target]; exact htarget) h with hm₁ | ⟨p, hp, hraises⟩
      · exact hfirst hm₁
      · refine .inr ⟨p, ?_, hraises⟩
        rw [hrecord, if_neg hy]
        exact List.mem_cons_of_mem _ hp

/--
**A request to yield ends the run that raised it, unless it is raised while an interrupt is
accepted.**  Whatever the bus asks for and whenever it does, a run in which an instruction raises
a request returns after that instruction with the request taken.  A request that is raised during
an acceptance is not looked at there.  If the acceptance uses up the budget, the run returns and
leaves the request pending; if not, an instruction is due, and the run returns after it.  In no
other way does a run leave a request behind, and it stops before its budget is exhausted only
because of a request that was raised in it.
-/
theorem run_yields (m : Machine β) (budget : UInt32) (hunasked : m.clock.yieldRequested = false)
    (hbudget : budget.toNat ≤ 2 ^ 32 - 4) (bound : Nat) :
    (∀ (earlier : List (Item (Logged β))) (p : Passage (Logged β)) (later : List (Item (Logged β))),
      (m.logged.recordCall bound (.run budget)).items = earlier ++ .event p :: later →
      p.raises = true →
        (p.event.due = .instruction →
          later = [] ∧ Returns (m.logged.run · budget) p.after.takeYield.2) ∧
        (p.Accepts → p.after.clock.exhausted = true →
          later = [] ∧ Returns (m.logged.run · budget) p.after ∧
            p.after.clock.yieldRequested = true) ∧
        (p.Accepts → p.after.clock.exhausted = false →
          p.after.cpu.due = .instruction ∧ ∀ after : Machine (Logged β), Returns p.after.next after →
            Returns (m.logged.run · budget) after.takeYield.2)) ∧
      ∀ r : Machine (Logged β), (m.logged.recordCall bound (.run budget)).machine? = some r →
        Returns (m.run · budget) r.unlogged ∧
          (r.clock.yieldRequested = true ↔ ∃ p : Passage (Logged β),
            (m.logged.recordCall bound (.run budget)).items.getLast? = some (.event p) ∧
              p.Accepts ∧ p.raises = true) ∧
          (r.clock.exhausted = false → ∃ p : Passage (Logged β),
            .event p ∈ (m.logged.recordCall bound (.run budget)).items ∧ p.raises = true) := by
  have hbegun : ¬ (m.logged.begun budget).clock.yieldRequested = true := Bool.eq_false_iff.mp hunasked
  refine ⟨?_, ?_⟩
  · intro earlier p later hitems hraises
    obtain ⟨hran, hstands⟩ := recordOut_passage hitems
    have hpending := hstands.pending hraises
    refine ⟨?_, ?_, ?_⟩
    · intro hdue
      obtain ⟨hlast, hend⟩ := hstands.of_instruction hdue hpending
      exact ⟨hlast, returns_run_iff_ran.mpr (hran _ hend)⟩
    · intro haccepts hex
      obtain ⟨-, ⟨events, hlater⟩, hgo⟩ := hstands.of_accepts haccepts
      rw [items_recordOut_of_exhausted bound events hex] at hlater
      exact ⟨hlater, returns_run_iff_ran.mpr (hran _ (hgo _ (.exhausted hex))), hpending⟩
    · intro haccepts hex
      obtain ⟨hdue, -, hgo⟩ := hstands.of_accepts haccepts
      refine ⟨hdue, fun after hnext => ?_⟩
      have hstill : after.clock.yieldRequested = true := by
        obtain ⟨bound, hnext⟩ := hnext
        rw [Passage.pending_after hnext .nmi, hpending, Bool.true_or]
      exact returns_run_iff_ran.mpr
        (hran _ (hgo _ (.yielded (Bool.eq_false_iff.mp hex) hdue hnext hstill)))
  · intro r hr
    rw [machine?_recordCall] at hr
    have hrun : (m.logged.begun budget).runOut bound bound = some r := hr
    refine ⟨⟨bound, ?_⟩, ?_, ?_⟩
    · have hbare := run_unlogged bound budget m.logged
      rw [show m.logged.run bound budget = some r from hr] at hbare
      exact hbare.symm
    · rw [recordOut_pending_iff (fun hm => absurd hm hbegun) hrun]
      exact or_iff_right fun h => hbegun h.2
    · intro hearly
      have htarget : (m.logged.begun budget).clock.target.toNat ≤ 2 ^ 32 - 4 := hbudget
      exact (recordOut_early htarget hrun hearly).resolve_left hbegun

/-- A board that asks for a return after an access to port 5 or to the byte at FFFE. -/
def trapped (bytes : List UInt8) : Trapping (Board Memory) :=
  { bus := Board.blank.load 0 bytes, ports := [0x05], addresses := [0xFFFE] }

/-- OUT to a watched port ends a run of a hundred T-states after eleven. -/
theorem run_yields_out :
    ∃ (m : Machine (Trapping (Board Memory))) (p : Passage (Logged (Trapping (Board Memory)))),
      m.bus = trapped [0xD3, 0x05] ∧ m.clock.yieldRequested = false ∧
        (100 : UInt32).toNat ≤ 2 ^ 32 - 4 ∧
        (m.logged.recordCall 2 (.run 100)).items = [.event p] ∧ p.raises = true ∧
        Returns (m.logged.run · 100) p.after.takeYield.2 ∧ p.after.clock.total = 11 := by
  obtain ⟨hevents, -⟩ := run_yields (powerOn .standard (trapped [0xD3, 0x05])) 100 rfl (by decide) 2
  obtain ⟨hinstruction, -⟩ := hevents [] _ [] rfl rfl
  obtain ⟨-, hreturns⟩ := hinstruction rfl
  exact ⟨_, _, rfl, rfl, by decide, rfl, rfl, hreturns, rfl⟩

/-- The acceptance of an NMI writes to a watched place and uses up the budget, and the request stays. -/
theorem run_leaves_request :
    ¬ ∀ (m : Machine (Trapping (Board Memory))) (budget : UInt32) (m' : Machine (Trapping (Board Memory))),
      m.clock.yieldRequested = false → budget.toNat ≤ 2 ^ 32 - 4 → Returns (m.run · budget) m' →
        m'.clock.yieldRequested = false := by
  intro hclaim
  have hpending := hclaim ((powerOn .standard (trapped [])).mapCpu (·.requestNMI)) 11 _ rfl
    (by decide) ⟨2, rfl⟩
  exact absurd hpending (by decide)

end Machine

end Z80
