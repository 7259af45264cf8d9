/-
The events of a history.

The machine itself keeps no record of what has happened to it.  `Machine.record` follows a
list of calls and writes down, in order, every call and every event with the machines
between which it happened.  It is the loops of the machine once more, with a record kept
beside them, and `machine?_record` says that beside the record they are the same.

When a bound is reached there is no machine to go on with, but what has been written down
until then stays.  So the boundaries inside a run that never ends are on record too, each
of them from some bound on.

The last part is the induction along a record.  A property of the record and of the processor is
an `Inductive` invariant if every event preserves it and, having it, obeys a law; then, if the calls
preserve it too, the law holds of every event on record (`Inductive.keeps_record`).
-/
import Z80.Proofs.Calls

namespace Z80

/-- An event, with the machines between which it happened. -/
structure Passage (β : Type) where
  before : Machine β
  event : Event
  after : Machine β

/-- What is written down of a history. -/
inductive Item (β : Type) where
  | call (c : Call)
  | event (p : Passage β)

/-- What has been written down, and the machine to go on with. -/
structure Chronicle (β : Type) where
  items : List (Item β)
  machine? : Option (Machine β)

namespace Chronicle

variable {β : Type}

/-- Nothing to write down. -/
def silent (m : Machine β) : Chronicle β := ⟨[], some m⟩

/-- A bound has been reached. -/
def broken : Chronicle β := ⟨[], none⟩

/-- Goes on with the machine, if there is one. -/
def andThen (r : Chronicle β) (f : Machine β → Chronicle β) : Chronicle β :=
  match r.machine? with
  | none => r
  | some m => ⟨r.items ++ (f m).items, (f m).machine?⟩

@[simp] theorem machine?_andThen (r : Chronicle β) (f : Machine β → Chronicle β) :
    (r.andThen f).machine? = r.machine?.bind fun m => (f m).machine? := by
  unfold andThen
  cases h : r.machine? <;> simp [h]

end Chronicle

namespace Machine

variable {β : Type} [Bus β]

/-- `next`, on record. -/
def recordNext (bound : Nat) (m : Machine β) : Chronicle β :=
  match m.coming? bound, m.next bound with
  | some e, some after => ⟨[.event ⟨m, e, after⟩], some after⟩
  | _, _ => .broken

/-- `runOut`, on record. -/
def recordOut (bound : Nat) : (events : Nat) → Machine β → Chronicle β
  | 0, _ => .broken
  | events + 1, m =>
      if m.clock.exhausted = true then .silent m
      else if m.cpu.due = .halted then
        ⟨[.event ⟨m, .idle m.clock.haltNops.toNat, m.idleOut⟩], some m.idleOut⟩
      else (m.recordNext bound).andThen fun m₁ =>
        if m.cpu.due = .instruction ∧ m₁.clock.yieldRequested = true then .silent m₁.takeYield.2
        else m₁.recordOut bound events

/-- `call`, on record. -/
def recordCall (bound : Nat) (c : Call) (m : Machine β) : Chronicle β :=
  match c with
  | .step => (m.recordNext bound).andThen fun m => .silent m.takeYield.2
  | .run budget => (m.begun budget).recordOut bound bound
  | c => ⟨[], m.call bound c⟩

/-- `calls`, on record. -/
def record (bound : Nat) : List Call → Machine β → Chronicle β
  | [], m => .silent m
  | c :: cs, m =>
      Chronicle.andThen ⟨.call c :: (m.recordCall bound c).items, (m.recordCall bound c).machine?⟩
        (record bound cs)

variable (bound : Nat) (m : Machine β)

theorem recordNext_of_next {m m' : Machine β} {bound : Nat} (h : m.next bound = some m') :
    ∃ e, m.recordNext bound = ⟨[.event ⟨m, e, m'⟩], some m'⟩ ∧ m.coming? bound = some e ∧
      e.due = m.cpu.due ∧ m.Happens e m' := by
  obtain ⟨e, hcoming, hdue, hhappens⟩ := next_happens h
  refine ⟨e, ?_, hcoming, hdue, hhappens⟩
  unfold recordNext
  rw [hcoming, h]

theorem recordNext_of_none {m : Machine β} {bound : Nat} (h : m.next bound = none) :
    m.recordNext bound = .broken := by
  unfold recordNext
  rw [h]
  cases m.coming? bound <;> rfl

@[simp] theorem machine?_recordNext : (m.recordNext bound).machine? = m.next bound := by
  cases h : m.next bound with
  | none =>
      rw [recordNext_of_none h]
      rfl
  | some m' =>
      obtain ⟨e, hrecord, -⟩ := recordNext_of_next h
      rw [hrecord]

@[simp] theorem machine?_recordOut (events : Nat) :
    (m.recordOut bound events).machine? = m.runOut bound events := by
  induction events generalizing m with
  | zero => rfl
  | succ events ih =>
      rw [runOut_succ, recordOut]
      split
      · rfl
      · split
        · rfl
        · rw [Chronicle.machine?_andThen, machine?_recordNext]
          congr 1
          funext m₁
          split
          · rfl
          · exact ih m₁

@[simp] theorem machine?_recordCall (c : Call) :
    (m.recordCall bound c).machine? = m.call bound c := by
  cases c with
  | step =>
      simp only [recordCall, Chronicle.machine?_andThen, machine?_recordNext, call, step]
      cases m.next bound <;> rfl
  | run budget => exact machine?_recordOut _ _ _
  | _ => rfl

/-- Keeping a record makes no difference to the machine. -/
theorem machine?_record (cs : List Call) : (m.record bound cs).machine? = m.calls bound cs := by
  induction cs generalizing m with
  | nil => rfl
  | cons c cs ih => simp [record, calls, ih]

end Machine

/-! ### What holds along a record

A property of what is on record and of the processor that goes on is an invariant if every call and
every event preserves it.  Then it holds at every event of a record, and so does any law that the
invariant makes single events obey.
-/

/-- What a call makes of the processor before any event. -/
def Call.apply : Call → Cpu → Cpu
  | requestInterrupt data, cpu => cpu.requestInterrupt data
  | clearInterrupt, cpu => cpu.clearInterrupt
  | requestNMI, cpu => cpu.requestNMI
  | reset, cpu => cpu.reset
  | restore s, cpu => cpu.restore s
  | write r, cpu => { cpu with regs := { r with halted := cpu.regs.halted } }
  | step, cpu | run _, cpu => cpu

namespace Chronicle

variable {β : Type}

/-- After `past`, every event on a record obeys the law, and the invariant holds where it ends. -/
structure Keeps (I : List (Item β) → Cpu → Prop) (law : List (Item β) → Passage β → Prop)
    (past : List (Item β)) (r : Chronicle β) : Prop where
  lawful : ∀ newer p later, r.items = newer ++ .event p :: later → law (past ++ newer) p
  tracks : ∀ m, r.machine? = some m → I (past ++ r.items) m.cpu

section Keeps

variable {I : List (Item β) → Cpu → Prop} {law : List (Item β) → Passage β → Prop}
  {past : List (Item β)}

namespace Keeps

theorem of_no_items {m? : Option (Machine β)} (h : ∀ m, m? = some m → I past m.cpu) :
    Keeps I law past ⟨[], m?⟩ := by
  refine ⟨fun newer p later heq => absurd heq (by simp), fun m hm => ?_⟩
  rw [List.append_nil]
  exact h m hm

theorem silent {m : Machine β} (h : I past m.cpu) : Keeps I law past (.silent m) := by
  refine of_no_items fun m' hm => ?_
  exact Option.some.inj hm ▸ h

theorem broken : Keeps I law past .broken :=
  of_no_items fun _ h => absurd h (by simp)

theorem passage {p : Passage β} (hlaw : law past p) (hI : I (past ++ [.event p]) p.after.cpu) :
    Keeps I law past ⟨[.event p], some p.after⟩ := by
  refine ⟨fun newer p' later heq => ?_, fun m hm => Option.some.inj hm ▸ hI⟩
  obtain ⟨rfl, hp⟩ : newer = [] ∧ Item.event p = .event p' := by
    cases newer with
    | nil => exact ⟨rfl, (List.cons.inj heq).1⟩
    | cons x newer => exact absurd (List.cons.inj heq).2 (by simp)
  obtain rfl := Item.event.inj hp
  rw [List.append_nil]
  exact hlaw

theorem call {c : Call} {r : Chronicle β} (h : Keeps I law (past ++ [.call c]) r) :
    Keeps I law past ⟨.call c :: r.items, r.machine?⟩ := by
  refine ⟨fun newer p later heq => ?_, fun m hm => ?_⟩
  · cases newer with
    | nil => exact absurd (List.cons.inj heq).1 (by simp)
    | cons x newer =>
        obtain ⟨rfl, hrest⟩ := List.cons.inj heq
        rw [List.append_cons]
        exact h.lawful newer p later hrest
  · show I (past ++ .call c :: r.items) m.cpu
    rw [List.append_cons]
    exact h.tracks m hm

theorem andThen {r : Chronicle β} {f : Machine β → Chronicle β} (h : Keeps I law past r)
    (hf : ∀ m, I (past ++ r.items) m.cpu → Keeps I law (past ++ r.items) (f m)) :
    Keeps I law past (r.andThen f) := by
  unfold Chronicle.andThen
  cases hm : r.machine? with
  | none => exact h
  | some m =>
      have hrest := hf m (h.tracks m hm)
      refine ⟨fun newer p later heq => ?_, fun m' hm' => ?_⟩
      · -- the event is on the part added last, or still on the part before it
        rcases List.append_eq_append_iff.mp heq with ⟨newer', rfl, heq'⟩ | ⟨later', hitems, heq'⟩
        · rw [← List.append_assoc]
          exact hrest.lawful newer' p later heq'
        · cases later' with
          | nil =>
              rw [List.append_nil] at hitems
              rw [← hitems, ← List.append_nil r.items, ← List.append_assoc]
              exact hrest.lawful [] p later heq'.symm
          | cons x later' =>
              obtain ⟨rfl, -⟩ := List.cons.inj heq'
              exact h.lawful newer p later' hitems
      · rw [← List.append_assoc]
        exact hrest.tracks m' hm'

end Keeps

/--
Every event that was due obeys the law and preserves the invariant.  Where a processor idles, it is
for one NOP or for as many as its budget leaves.
-/
def Inductive [Bus β] (I : List (Item β) → Cpu → Prop) (law : List (Item β) → Passage β → Prop) : Prop :=
  ∀ (past : List (Item β)) (p : Passage β), I past p.before.cpu → p.event.due = p.before.cpu.due →
    p.before.Happens p.event p.after →
    (∀ n, p.event = .idle n → n = 1 ∨ n = p.before.clock.haltNops.toNat) →
    law past p ∧ I (past ++ [.event p]) p.after.cpu

namespace Inductive

variable [Bus β] (hI : Inductive I law) {m : Machine β}
include hI

theorem keeps_recordNext (h : I past m.cpu) (bound : Nat) :
    Keeps I law past (m.recordNext bound) := by
  cases hnext : m.next bound with
  | none => exact Machine.recordNext_of_none hnext ▸ .broken
  | some m' =>
      obtain ⟨e, hrecord, hcoming, hdue, hhappens⟩ := Machine.recordNext_of_next hnext
      obtain ⟨hlaw, hafter⟩ := hI past ⟨m, e, m'⟩ h hdue hhappens fun n hn => by
        obtain rfl : e = .idle n := hn
        unfold Machine.coming? at hcoming
        rw [← hdue] at hcoming
        exact .inl (Event.idle.inj (Option.some.inj hcoming)).symm
      rw [hrecord]
      exact .passage hlaw hafter

theorem keeps_recordOut (h : I past m.cpu) (bound events : Nat) :
    Keeps I law past (m.recordOut bound events) := by
  induction events generalizing past m with
  | zero => exact .broken
  | succ events ih =>
      rw [Machine.recordOut]
      split
      · exact .silent h
      · split
        · rename_i hdue
          obtain ⟨hlaw, hafter⟩ := hI past ⟨m, .idle m.clock.haltNops.toNat, m.idleOut⟩ h hdue.symm
            (Machine.idleOut_eq_idled m ▸ .idle _) fun n hn => .inr (Event.idle.inj hn).symm
          exact .passage hlaw hafter
        · refine (hI.keeps_recordNext h bound).andThen fun m₁ h₁ => ?_
          split
          · exact .silent h₁
          · exact ih h₁

/-- A call keeps the law, from the record on which it stands itself. -/
theorem keeps_recordCall {c : Call} (hc : I (past ++ [.call c]) (c.apply m.cpu)) (bound : Nat) :
    Keeps I law (past ++ [.call c]) (m.recordCall bound c) := by
  cases c with
  | step => exact (hI.keeps_recordNext hc bound).andThen fun _ h => .silent h
  | run budget => exact hI.keeps_recordOut (m := m.begun budget) hc bound bound
  | _ => exact .of_no_items fun _ hm => Option.some.inj hm ▸ hc

/-- The record of any calls that preserve the invariant keeps the law. -/
theorem keeps_record {cs : List Call}
    (hcs : ∀ c ∈ cs, ∀ past cpu, I past cpu → I (past ++ [.call c]) (c.apply cpu))
    (h : I past m.cpu) (bound : Nat) : Keeps I law past (m.record bound cs) := by
  induction cs generalizing past m with
  | nil => exact .silent h
  | cons c cs ih =>
      obtain ⟨hc, hcs⟩ := List.forall_mem_cons.mp hcs
      exact (hI.keeps_recordCall (hc past m.cpu h) bound).call.andThen fun _ h => ih hcs h

end Inductive

end Keeps

end Chronicle

end Z80
