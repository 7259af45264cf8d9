/-
Reasoning about scripts.

Two kinds of facts are wanted of a script.  What it ends in, whatever bytes the bus brings,
is `Script.Ensures`: a postcondition on the result and on the sum of the cycle lengths, so
registers and time are spoken about in one sentence.  It is computed along the script, and
the rules for the basic scripts are simp lemmas, so that `simp` reduces the `Ensures` of an
instruction to a statement about registers.

What happens outside while a script is performed is the second kind.  Only two things ever
happen there, T-states that pass and accesses, so whatever both preserve is preserved by
every script (`Script.run_preserves`).  Time moves forward, the promises of a bus stay, and
a quiet bus leaves no yield request behind.
-/
import Z80.Script
import Z80.Proofs.Bus
import Z80.Proofs.Clock

namespace Z80.Script

variable {α γ : Type}

/-! ### What a script ends in -/

/-- Whatever is read, the script ends in an `a` after cycles of `n` T-states such that `P n a`. -/
def Ensures : Script α → (Nat → α → Prop) → Prop
  | done a, P => P 0 a
  | cycle c next, P => ∀ data, (next data).Ensures fun n a => P (c.length + n) a

theorem Ensures.mono {s : Script α} {P Q : Nat → α → Prop} (h : s.Ensures P)
    (hPQ : ∀ n a, P n a → Q n a) : s.Ensures Q := by
  induction s generalizing P Q with
  | done a => exact hPQ 0 a h
  | cycle c next ih => exact fun data => ih data (h data) fun n a => hPQ (c.length + n) a

@[simp] theorem ensures_pure (a : α) (P : Nat → α → Prop) :
    (pure a : Script α).Ensures P ↔ P 0 a := Iff.rfl

@[simp] theorem ensures_bind (s : Script α) (f : α → Script γ) (P : Nat → γ → Prop) :
    (s >>= f).Ensures P ↔ s.Ensures fun m a => (f a).Ensures fun n c => P (m + n) c := by
  induction s generalizing P with
  | done a =>
      show (f a).Ensures P ↔ (f a).Ensures fun n c => P (0 + n) c
      simp only [Nat.zero_add]
  | cycle c next ih =>
      show (∀ data, (next data >>= f).Ensures _) ↔ ∀ data, (next data).Ensures _
      simp only [ih, Nat.add_assoc]

@[simp] theorem ensures_map (f : α → γ) (s : Script α) (P : Nat → γ → Prop) :
    (f <$> s).Ensures P ↔ s.Ensures fun n a => P n (f a) := by
  rw [← bind_pure_comp, ensures_bind]
  rfl

@[simp] theorem ensures_ite (p : Prop) [Decidable p] (s s' : Script α) (P : Nat → α → Prop) :
    (if p then s else s').Ensures P ↔ (p → s.Ensures P) ∧ (¬ p → s'.Ensures P) := by
  split <;> simp_all

@[simp] theorem ensures_fetch (address : UInt16) (P : Nat → UInt8 → Prop) :
    (fetch address).Ensures P ↔ ∀ data, P 4 data := Iff.rfl

@[simp] theorem ensures_read (address : UInt16) (P : Nat → UInt8 → Prop) :
    (read address).Ensures P ↔ ∀ data, P 3 data := Iff.rfl

@[simp] theorem ensures_write (address : UInt16) (value : UInt8) (P : Nat → Unit → Prop) :
    (write address value).Ensures P ↔ P 3 () := forall_const UInt8

@[simp] theorem ensures_input (port : UInt16) (P : Nat → UInt8 → Prop) :
    (input port).Ensures P ↔ ∀ data, P 4 data := Iff.rfl

@[simp] theorem ensures_output (port : UInt16) (value : UInt8) (P : Nat → Unit → Prop) :
    (output port value).Ensures P ↔ P 4 () := forall_const UInt8

@[simp] theorem ensures_internal (n : Nat) (P : Nat → Unit → Prop) :
    (internal n).Ensures P ↔ P n () := forall_const UInt8

@[simp] theorem ensures_readWord (address : UInt16) (P : Nat → UInt16 → Prop) :
    (readWord address).Ensures P ↔ ∀ low high, P 6 (Word.ofBytes high low) := by
  simp [readWord]

@[simp] theorem ensures_writeWord (address value : UInt16) (P : Nat → Unit → Prop) :
    (writeWord address value).Ensures P ↔ P 6 () := by
  simp [writeWord]

@[simp] theorem ensures_push (sp value : UInt16) (P : Nat → UInt16 → Prop) :
    (push sp value).Ensures P ↔ P 6 (sp - 2) := by
  simp [push]

@[simp] theorem ensures_pop (sp : UInt16) (P : Nat → UInt16 × UInt16 → Prop) :
    (pop sp).Ensures P ↔ ∀ low high, P 6 (Word.ofBytes high low, sp + 2) := by
  simp [pop]

/-! ### What happens outside -/

section Outside

variable {β : Type} [Bus β]

@[simp] theorem run_pure (a : α) (t : Timed β) : (pure a : Script α).run t = (a, t) := rfl

@[simp] theorem run_cycle (c : Cycle) (next : UInt8 → Script α) (t : Timed β) :
    (cycle c next).run t = (next (c.perform t).1).run (c.perform t).2 := rfl

@[simp] theorem run_bind' (s : Script α) (f : α → Script γ) (t : Timed β) :
    (s >>= f).run t = (f (s.run t).1).run (s.run t).2 := run_bind s f t

@[simp] theorem run_map (f : α → γ) (s : Script α) (t : Timed β) :
    (f <$> s).run t = (f (s.run t).1, (s.run t).2) := by
  rw [← bind_pure_comp, run_bind']
  rfl

/-- What passing time and accesses preserve, a cycle preserves. -/
theorem perform_preserves {I : Timed β → Prop} (hpass : ∀ t n, I t → I (t.advance n))
    (haccess : ∀ t a, I t → I (t.access a).2) (c : Cycle) {t : Timed β} (h : I t) :
    I (c.perform t).2 := by
  unfold Cycle.perform
  split
  · exact hpass _ _ (haccess _ _ h)
  · exact hpass _ _ h

/-- What passing time and accesses preserve, every script preserves. -/
theorem run_preserves {I : Timed β → Prop} (hpass : ∀ t n, I t → I (t.advance n))
    (haccess : ∀ t a, I t → I (t.access a).2) (s : Script α) {t : Timed β} (h : I t) :
    I (s.run t).2 := by
  induction s generalizing t with
  | done a => exact h
  | cycle c next ih => exact ih _ (perform_preserves hpass haccess c h)

/-- An access takes as long as the bus makes it wait. -/
theorem access_elapsed (t : Timed β) (a : Access) :
    Clock.Elapsed (Bus.respond t.bus t.clock a).wait t.clock (t.access a).2.clock := by
  simp only [Timed.access]
  split
  · exact (Clock.Elapsed.advance _ _).withYield true
  · exact Clock.Elapsed.advance _ _

/-- A script takes some time, and that is all it does to the clock. -/
theorem run_elapsed (s : Script α) (t : Timed β) :
    ∃ n, Clock.Elapsed n t.clock (s.run t).2.clock := by
  refine run_preserves (I := fun t' => ∃ n, Clock.Elapsed n t.clock t'.clock) ?_ ?_ s ⟨0, .refl _⟩
  · rintro t' n ⟨m, h⟩
    exact ⟨_, h.trans (.advance _ n)⟩
  · rintro t' a ⟨m, h⟩
    exact ⟨_, h.trans (access_elapsed t' a)⟩

/-- The promises of a bus outlive a script. -/
theorem run_always {P : Reply β → Prop} (s : Script α) {t : Timed β} (h : Bus.Always P t.bus) :
    Bus.Always P (s.run t).2.bus :=
  run_preserves (I := fun t => Bus.Always P t.bus) (fun _ _ h => h)
    (fun t a h => h.respond t.clock a) s h

/-- On a quiet bus no script leaves a yield request behind. -/
theorem run_quiet (s : Script α) {t : Timed β} (hq : Bus.Quiet t.bus)
    (hy : t.clock.yieldRequested = false) : (s.run t).2.clock.yieldRequested = false := by
  refine (run_preserves
    (I := fun t => Bus.Quiet t.bus ∧ t.clock.yieldRequested = false) ?_ ?_ s ⟨hq, hy⟩).2
  · exact fun t n h => h
  · intro t a h
    have hreply : (Bus.respond t.bus t.clock a).yields = false := h.1.reply t.clock a
    refine ⟨h.1.respond t.clock a, ?_⟩
    simp only [Timed.access, hreply]
    exact h.2

/-- On a prompt bus a cycle takes its length, and the bus stays prompt. -/
theorem perform_prompt (c : Cycle) {t : Timed β} (hp : Bus.Prompt t.bus) :
    Clock.Elapsed c.length t.clock (c.perform t).2.clock ∧ Bus.Prompt (c.perform t).2.bus := by
  refine ⟨?_, perform_preserves (I := fun t => Bus.Prompt t.bus) (fun _ _ h => h)
    (fun t a h => h.respond t.clock a) c hp⟩
  unfold Cycle.perform
  split
  · rename_i a _
    have hwait := access_elapsed t a
    rw [show (Bus.respond t.bus t.clock a).wait = 0 from hp.reply t.clock a] at hwait
    have h := hwait.trans (.advance _ c.length)
    rw [Nat.zero_add] at h
    exact h
  · exact .advance _ c.length

/-- On a prompt bus a script takes the sum of its cycles. -/
theorem Ensures.run_prompt {s : Script α} {P : Nat → α → Prop} (h : s.Ensures P) {t : Timed β}
    (hp : Bus.Prompt t.bus) :
    ∃ n, P n (s.run t).1 ∧ Clock.Elapsed n t.clock (s.run t).2.clock := by
  induction s generalizing P t with
  | done a => exact ⟨0, h, .refl _⟩
  | cycle c next ih =>
      obtain ⟨hcycle, hp'⟩ := perform_prompt c hp
      obtain ⟨n, hn, helapsed⟩ := ih _ (h (c.perform t).1) hp'
      exact ⟨c.length + n, hn, hcycle.trans helapsed⟩

/-- Whatever the bus, a script ends as it must. -/
theorem Ensures.run {s : Script α} {P : Nat → α → Prop} (h : s.Ensures P) (t : Timed β) :
    ∃ n, P n (s.run t).1 := by
  induction s generalizing P t with
  | done a => exact ⟨0, h⟩
  | cycle c next ih =>
      obtain ⟨n, hn⟩ := ih _ (h (c.perform t).1) (c.perform t).2
      exact ⟨c.length + n, hn⟩

end Outside

end Z80.Script
