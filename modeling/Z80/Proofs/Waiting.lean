/-
Waiting costs time and nothing else.

Take two buses that carry the same bytes at all times and differ only in how long they make
the processor wait: that is a relation between them which `Bus.Mirrors` accesses.  Machines on
the two then do the same, step after step, interrupts included.  They ask their buses for the
same things in the same order, the same bytes go over the lines, and what their clocks have
counted differs by the waits alone.

A log holds every access with the clock reading that the bus was handed, so what the bus has
answered, and how long it has taken, can be found by asking it once more (`Bus.traffic`,
`Bus.waits`).  `Passes` says what a stretch of time has come to in these terms, and `Parallel`
puts two stretches side by side.  Stretches compose, and the rest is an induction on scripts
and one on steps.
-/
import Z80.Bus.Probe
import Z80.Proofs.Answers
import Z80.Proofs.Stepping

namespace Z80

variable {α β γ : Type} [Bus β] [Bus γ]

/-! ### Asking a bus once more -/

namespace Bus

/-- What a bus becomes when it is asked these things. -/
def after (b : β) : List Asked → β
  | [] => b
  | a :: asked => after (respond b a.clock a.access).bus asked

/-- How long it makes the processor wait meanwhile. -/
def waits (b : β) : List Asked → Nat
  | [] => 0
  | a :: asked =>
      (respond b a.clock a.access).wait + waits (respond b a.clock a.access).bus asked

/-- The accesses, with the bytes that go over the data lines. -/
def traffic (b : β) : List Asked → List (Access × UInt8)
  | [] => []
  | a :: asked =>
      (a.access, a.access.byte (respond b a.clock a.access).data) ::
        traffic (respond b a.clock a.access).bus asked

theorem after_append (b : β) (asked asked' : List Asked) :
    after b (asked ++ asked') = after (after b asked) asked' := by
  induction asked generalizing b with
  | nil => rfl
  | cons a asked ih => exact ih _

theorem waits_append (b : β) (asked asked' : List Asked) :
    waits b (asked ++ asked') = waits b asked + waits (after b asked) asked' := by
  induction asked generalizing b with
  | nil => exact (Nat.zero_add _).symm
  | cons a asked ih =>
      simp only [List.cons_append, waits, after, ih, Nat.add_assoc]

theorem traffic_append (b : β) (asked asked' : List Asked) :
    traffic b (asked ++ asked') = traffic b asked ++ traffic (after b asked) asked' := by
  induction asked generalizing b with
  | nil => rfl
  | cons a asked ih =>
      simp only [List.cons_append, traffic, after, ih]

/-- Related buses carry the same bytes and stay related, whenever they are asked. -/
structure Mirrors (R : β → γ → Prop) : Prop where
  byte : ∀ {b c}, R b c → ∀ (clock clock' : Clock) (a : Access),
    a.byte (respond b clock a).data = a.byte (respond c clock' a).data
  bus : ∀ {b c}, R b c → ∀ (clock clock' : Clock) (a : Access),
    R (respond b clock a).bus (respond c clock' a).bus

end Bus

/-! ### Stretches of time -/

/-- Between two moments so much is asked, and so many T-states pass beside the waits. -/
structure Passes (n : Nat) (asked : List Asked) (t t' : Timed (Logged β)) : Prop where
  log : t'.bus.log = t.bus.log ++ asked
  bus : t'.bus.bus = Bus.after t.bus.bus asked
  total : t'.clock.total = t.clock.total + n + Bus.waits t.bus.bus asked

namespace Passes

variable {m n : Nat} {asked asked' : List Asked} {t t' t'' : Timed (Logged β)}

theorem refl (t : Timed (Logged β)) : Passes 0 [] t t := ⟨(List.append_nil _).symm, rfl, rfl⟩

theorem trans (h : Passes m asked t t') (h' : Passes n asked' t' t'') :
    Passes (m + n) (asked ++ asked') t t'' := by
  refine ⟨?_, ?_, ?_⟩
  · rw [h'.log, h.log, List.append_assoc]
  · rw [h'.bus, h.bus, Bus.after_append]
  · rw [h'.total, h.total, h.bus, Bus.waits_append]
    omega

theorem advance (t : Timed (Logged β)) (n : Nat) : Passes n [] t (t.advance n) :=
  ⟨(List.append_nil _).symm, rfl, rfl⟩

theorem access (t : Timed (Logged β)) (a : Access) : Passes 0 [⟨a, t.clock⟩] t (t.access a).2 := by
  refine ⟨rfl, rfl, ?_⟩
  have h := (Script.access_elapsed t a).total
  rw [h, Nat.add_zero]
  rfl

end Passes

/-- In two stretches of time the same bytes go over the lines of related buses. -/
structure Parallel (R : β → γ → Prop) (t t' : Timed (Logged β)) (u u' : Timed (Logged γ)) : Prop where
  related : R t'.bus.bus u'.bus.bus
  passes : ∃ n asked asked', Passes n asked t t' ∧ Passes n asked' u u' ∧
    Bus.traffic t.bus.bus asked = Bus.traffic u.bus.bus asked'

namespace Parallel

variable {R : β → γ → Prop} {t t' t'' : Timed (Logged β)} {u u' u'' : Timed (Logged γ)}

theorem refl (h : R t.bus.bus u.bus.bus) : Parallel R t t u u :=
  ⟨h, 0, [], [], .refl t, .refl u, rfl⟩

theorem trans (h : Parallel R t t' u u') (h' : Parallel R t' t'' u' u'') : Parallel R t t'' u u'' := by
  obtain ⟨-, m, asked₁, asked₁', ht, hu, htraffic⟩ := h
  obtain ⟨hrelated, n, asked₂, asked₂', ht', hu', htraffic'⟩ := h'
  refine ⟨hrelated, m + n, _, _, ht.trans ht', hu.trans hu', ?_⟩
  rw [Bus.traffic_append, Bus.traffic_append, htraffic, ← ht.bus, ← hu.bus, htraffic']

theorem advance (h : R t.bus.bus u.bus.bus) (n : Nat) : Parallel R t (t.advance n) u (u.advance n) :=
  ⟨h, n, [], [], .advance t n, .advance u n, rfl⟩

theorem access (hR : Bus.Mirrors R) (h : R t.bus.bus u.bus.bus) (a : Access) :
    Parallel R t (t.access a).2 u (u.access a).2 := by
  refine ⟨hR.bus h t.clock u.clock a, 0, _, _, .access t a, .access u a, ?_⟩
  simp only [Bus.traffic]
  rw [hR.byte h t.clock u.clock a]

end Parallel

/-! ### Scripts -/

section Run

variable {R : β → γ → Prop} (hR : Bus.Mirrors R) {t : Timed (Logged β)} {u : Timed (Logged γ)}
include hR

/-- A cycle that brings in a byte brings in the same one. -/
theorem Cycle.perform_parallel (c : Cycle) (h : R t.bus.bus u.bus.bus) :
    (c.brings = true → (c.perform t).1 = (c.perform u).1) ∧
      Parallel R t (c.perform t).2 u (c.perform u).2 := by
  have hbyte := fun a => hR.byte h t.clock u.clock a
  have haccess : ∀ a n, Parallel R t ((t.access a).2.advance n) u ((u.access a).2.advance n) := by
    intro a n
    have hasked := Parallel.access hR h a
    exact hasked.trans (.advance hasked.related n)
  cases c with
  | fetch address => exact ⟨fun _ => hbyte (.read address), haccess _ _⟩
  | read address => exact ⟨fun _ => hbyte (.read address), haccess _ _⟩
  | input port => exact ⟨fun _ => hbyte (.input port), haccess _ _⟩
  | write address v => exact ⟨fun hc => absurd hc Bool.false_ne_true, haccess _ _⟩
  | output port v => exact ⟨fun hc => absurd hc Bool.false_ne_true, haccess _ _⟩
  | internal n => exact ⟨fun hc => absurd hc Bool.false_ne_true, .advance h n⟩

/-- Scripts that look at nothing else end alike. -/
theorem Script.run_parallel {s : Script α} (hs : s.Deaf) (h : R t.bus.bus u.bus.bus) :
    (s.run t).1 = (s.run u).1 ∧ Parallel R t (s.run t).2 u (s.run u).2 := by
  induction s generalizing t u with
  | done a => exact ⟨rfl, .refl h⟩
  | cycle c next ih =>
      obtain ⟨hdata, hcycle⟩ := c.perform_parallel hR h
      have hsame : next (c.perform t).1 = next (c.perform u).1 := by
        cases hc : c.brings with
        | true => rw [hdata hc]
        | false => exact hs.1 hc _ _
      obtain ⟨hresult, hrest⟩ := ih (c.perform t).1 (hs.2 _) hcycle.related
      rw [run_cycle, run_cycle, ← hsame]
      exact ⟨hresult, hcycle.trans hrest⟩

end Run

/-! ### Steps -/

/-- Two computations that may fail do so together, and else their results are related. -/
theorem rel_bind {α' β' γ' : Type} {R : α → α' → Prop} {S : β' → γ' → Prop} {a? : Option α}
    {a?' : Option α'} {f : α → Option β'} {f' : α' → Option γ'} (h : Option.Rel R a? a?')
    (hf : ∀ a a', R a a' → Option.Rel S (f a) (f' a')) : Option.Rel S (a?.bind f) (a?'.bind f') := by
  cases h with
  | none => exact .none
  | some ha => exact hf _ _ ha

theorem rel_imp {α' : Type} {R S : α → α' → Prop} {a? : Option α} {a?' : Option α'}
    (h : Option.Rel R a? a?') (hS : ∀ a a', R a a' → S a a') : Option.Rel S a? a?' := by
  cases h with
  | none => exact .none
  | some ha => exact .some (hS _ _ ha)

namespace Machine

/-- Two machines have done the same, with the same bytes on related buses. -/
structure Likewise (R : β → γ → Prop) (m after : Machine (Logged β)) (m' after' : Machine (Logged γ)) :
    Prop where
  cpu : after'.cpu = after.cpu
  outside : Parallel R m.outside after.outside m'.outside after'.outside

theorem Likewise.takeYield {R : β → γ → Prop} {m after : Machine (Logged β)}
    {m' after' : Machine (Logged γ)} (h : Likewise R m after m' after') :
    Likewise R m after.takeYield.2 m' after'.takeYield.2 := by
  obtain ⟨hcpu, hrelated, n, asked, asked', ht, hu, htraffic⟩ := h
  exact ⟨hcpu, hrelated, n, asked, asked', ⟨ht.log, ht.bus, ht.total⟩, ⟨hu.log, hu.bus, hu.total⟩, htraffic⟩

section Steps

variable {R : β → γ → Prop} (hR : Bus.Mirrors R) {m : Machine (Logged β)} {m' : Machine (Logged γ)}
include hR

theorem next_likewise (bound : Nat) (hcpu : m'.cpu = m.cpu) (h : R m.bus.bus m'.bus.bus) :
    Option.Rel (Likewise R m · m' ·) (m.next bound) (m'.next bound) := by
  obtain ⟨houtcome, houtside⟩ := Script.run_parallel hR (m.cpu.event_deaf bound) h
  unfold next
  rw [hcpu]
  rcases hrun : (m.cpu.event bound).run m.outside with ⟨outcome, t⟩
  rcases hrun' : (m.cpu.event bound).run m'.outside with ⟨outcome', u⟩
  rw [hrun, hrun'] at houtcome houtside
  obtain rfl : outcome = outcome' := houtcome
  cases outcome with
  | none => exact .none
  | some o => exact .some ⟨rfl, houtside⟩

theorem step_likewise (bound : Nat) (hcpu : m'.cpu = m.cpu) (h : R m.bus.bus m'.bus.bus) :
    Option.Rel (fun r r' => Likewise R m r.2 m' r'.2) (m.step bound) (m'.step bound) := by
  refine rel_bind (next_likewise hR bound hcpu h) ?_
  intro after after' hafter
  exact .some hafter.takeYield

theorem steps_likewise (bound n : Nat) (hcpu : m'.cpu = m.cpu) (h : R m.bus.bus m'.bus.bus) :
    Option.Rel (Likewise R m · m' ·) (m.steps bound n) (m'.steps bound n) := by
  induction n generalizing m m' with
  | zero => exact .some ⟨hcpu, .refl h⟩
  | succ n ih =>
      refine rel_bind (step_likewise hR bound hcpu h) ?_
      intro r r' hfirst
      refine rel_imp (ih hfirst.cpu hfirst.outside.related) ?_
      intro after after' hafter
      exact ⟨hafter.cpu, hfirst.outside.trans hafter.outside⟩

end Steps

theorem steps_unlogged (bound n : Nat) (m : Machine (Logged β)) :
    (m.steps bound n).map unlogged = m.unlogged.steps bound n := by
  induction n generalizing m with
  | zero => rfl
  | succ n ih =>
      rw [steps, steps, ← step_unlogged]
      cases m.step bound with
      | none => rfl
      | some r => exact ih r.2

/--
Two machines with the same processor, on buses that mirror each other, are alike after every
number of steps, or neither of them gets that far: the processors agree, the buses still mirror
each other, the same bytes have gone over the lines, and the clocks differ by the waits.
-/
theorem steps_mirrored {R : β → γ → Prop} (hR : Bus.Mirrors R) {m : Machine β} {m' : Machine γ}
    (hcpu : m'.cpu = m.cpu) (h : R m.bus m'.bus) (bound n : Nat) :
    Option.Rel (fun after after' => after'.cpu = after.cpu ∧ R after.bus.bus after'.bus.bus ∧
        Bus.traffic m.bus after.bus.log = Bus.traffic m'.bus after'.bus.log ∧
        after.clock.total + m'.clock.total + Bus.waits m'.bus after'.bus.log =
          after'.clock.total + m.clock.total + Bus.waits m.bus after.bus.log)
      (m.logged.steps bound n) (m'.logged.steps bound n) := by
  have hstart : m'.logged.cpu = m.logged.cpu := hcpu
  refine rel_imp (steps_likewise hR bound n hstart h) ?_
  rintro after after' ⟨hcpu', hrelated, k, asked, asked', ht, hu, htraffic⟩
  obtain rfl : after.bus.log = asked := ht.log
  obtain rfl : after'.bus.log = asked' := hu.log
  refine ⟨hcpu', hrelated, htraffic, ?_⟩
  have htotal : after.clock.total = m.clock.total + k + Bus.waits m.bus after.bus.log := ht.total
  have htotal' : after'.clock.total = m'.clock.total + k + Bus.waits m'.bus after'.bus.log := hu.total
  omega

end Machine

end Z80
