/-
What a bus is asked.

A claim about the accesses of a run needs the run to leave them behind.  `Logged β` is a
bus that answers as the bus inside it and writes down each access with the clock reading it
was handed.  Nobody can tell the difference: a machine on a logged bus does what the machine
on the bare bus does (`run_unlogged` and its companions), so what the log of such a machine
says holds of the machine without one.

The log only grows, and the readings in it lie on the way: `Along t t'` says that everything
written down between two moments was written down at some time between them.
-/
import Z80.Proofs.Machine

namespace Z80

variable {α β : Type}

/-- An access together with the clock reading that the bus was handed. -/
structure Asked where
  access : Access
  clock : Clock
deriving DecidableEq, Repr

/-- A bus whose accesses are written down, oldest first. -/
structure Logged (β : Type) where
  bus : β
  log : List Asked

instance [Bus β] : Bus (Logged β) where
  respond l clock a :=
    let reply := Bus.respond l.bus clock a
    { data := reply.data, wait := reply.wait, yields := reply.yields
      bus := ⟨reply.bus, l.log ++ [⟨a, clock⟩]⟩ }

theorem Logged.quiet [Bus β] {l : Logged β} (h : Bus.Quiet l.bus) : Bus.Quiet l := by
  have hinner : ∀ l' : Logged β, Bus.Becomes l l' → Bus.Becomes l.bus l'.bus := by
    intro l' hl'
    induction hl' with
    | refl => exact .refl
    | respond _ clock a ih => exact .respond ih clock a
  exact fun l' hl' clock a => h l'.bus (hinner l' hl') clock a

/-! ### A log changes nothing -/

/-- The bare bus with its clock. -/
def Timed.unlogged (t : Timed (Logged β)) : Timed β := ⟨t.clock, t.bus.bus⟩

namespace Machine

/-- The machine on a bus that starts to write down what it is asked. -/
def logged (m : Machine β) : Machine (Logged β) := ⟨m.cpu, ⟨m.clock, ⟨m.bus, []⟩⟩, m.notices⟩

/-- The machine on the bare bus. -/
def unlogged (m : Machine (Logged β)) : Machine β := ⟨m.cpu, m.outside.unlogged, m.notices⟩

theorem cpu_unlogged (m : Machine (Logged β)) : m.unlogged.cpu = m.cpu := rfl

theorem clock_unlogged (m : Machine (Logged β)) : m.unlogged.clock = m.clock := rfl

end Machine

section Bare

variable [Bus β]

theorem Cycle.perform_unlogged (c : Cycle) (t : Timed (Logged β)) :
    (c.perform t).1 = (c.perform t.unlogged).1 ∧
      (c.perform t).2.unlogged = (c.perform t.unlogged).2 := by
  unfold Cycle.perform
  split
  · exact ⟨rfl, rfl⟩
  · exact ⟨rfl, rfl⟩

theorem Script.run_unlogged (s : Script α) (t : Timed (Logged β)) :
    (s.run t).1 = (s.run t.unlogged).1 ∧ (s.run t).2.unlogged = (s.run t.unlogged).2 := by
  induction s generalizing t with
  | done a => exact ⟨rfl, rfl⟩
  | cycle c next ih =>
      obtain ⟨hdata, houtside⟩ := c.perform_unlogged t
      simp only [run_cycle]
      rw [← hdata, ← houtside]
      exact ih _ _

namespace Machine

theorem next_unlogged (bound : Nat) (m : Machine (Logged β)) :
    (m.next bound).map unlogged = m.unlogged.next bound := by
  obtain ⟨hresult, houtside⟩ := (m.cpu.event bound).run_unlogged m.outside
  show (Option.map _ ((m.cpu.event bound).run m.outside).1).map unlogged =
    ((m.cpu.event bound).run m.outside.unlogged).1.map fun o =>
      ⟨o.cpu, ((m.cpu.event bound).run m.outside.unlogged).2, m.notices ++ o.notices.toArray⟩
  rw [← hresult, ← houtside, Option.map_map]
  rfl

theorem step_unlogged (bound : Nat) (m : Machine (Logged β)) :
    (m.step bound).map (fun r => (r.1, r.2.unlogged)) = m.unlogged.step bound := by
  unfold step
  rw [← next_unlogged]
  cases m.next bound <;> rfl

theorem runOut_unlogged (bound events : Nat) (m : Machine (Logged β)) :
    (m.runOut bound events).map unlogged = m.unlogged.runOut bound events := by
  induction events generalizing m with
  | zero => rfl
  | succ events ih =>
      rw [runOut_succ, runOut_succ, ← next_unlogged, cpu_unlogged, clock_unlogged]
      split
      · rfl
      · split
        · rfl
        · cases m.next bound with
          | none => rfl
          | some m₁ =>
              simp only [Option.bind_some, Option.map_some, clock_unlogged, ← ih]
              split <;> rfl

theorem run_unlogged (bound : Nat) (budget : UInt32) (m : Machine (Logged β)) :
    (m.run bound budget).map unlogged = m.unlogged.run bound budget :=
  runOut_unlogged bound bound _

end Machine

end Bare

/-! ### A log lies on the way -/

/-- Between two moments the clock has moved on, and the log by accesses made meanwhile. -/
def Along (t t' : Timed (Logged β)) : Prop :=
  ∃ n asked, Clock.Elapsed n t.clock t'.clock ∧ t'.bus.log = t.bus.log ++ asked ∧
    ∀ a ∈ asked, ∃ k, k ≤ n ∧ Clock.Elapsed k t.clock a.clock

namespace Along

variable {t t' t'' : Timed (Logged β)}

theorem refl (t : Timed (Logged β)) : Along t t :=
  ⟨0, [], .refl _, (List.append_nil _).symm, fun _ h => absurd h List.not_mem_nil⟩

theorem trans (h : Along t t') (h' : Along t' t'') : Along t t'' := by
  obtain ⟨m, asked, hm, hlog, hon⟩ := h
  obtain ⟨n, asked', hn, hlog', hon'⟩ := h'
  refine ⟨m + n, asked ++ asked', hm.trans hn, by rw [hlog', hlog, List.append_assoc], ?_⟩
  intro a ha
  rcases List.mem_append.mp ha with ha | ha
  · obtain ⟨k, hk, hka⟩ := hon a ha
    exact ⟨k, by omega, hka⟩
  · obtain ⟨k, hk, hka⟩ := hon' a ha
    exact ⟨m + k, by omega, hm.trans hka⟩

theorem advance (t : Timed (Logged β)) (n : Nat) : Along t (t.advance n) :=
  ⟨n, [], .advance _ n, (List.append_nil _).symm, fun _ h => absurd h List.not_mem_nil⟩

theorem access [Bus β] (t : Timed (Logged β)) (a : Access) : Along t (t.access a).2 := by
  refine ⟨_, [⟨a, t.clock⟩], Script.access_elapsed t a, rfl, ?_⟩
  intro b hb
  obtain rfl := List.mem_singleton.mp hb
  exact ⟨0, Nat.zero_le _, .refl _⟩

theorem run [Bus β] (s : Script α) (t : Timed (Logged β)) : Along t (s.run t).2 :=
  s.run_preserves (I := Along t) (fun _ n h => h.trans (advance _ n))
    (fun _ a h => h.trans (access _ a)) (refl t)

end Along

namespace Machine

variable {m m' : Machine (Logged β)} {bound : Nat}

theorem takeYield_along {t : Timed (Logged β)} (h : Along t m.outside) :
    Along t m.takeYield.2.outside := by
  obtain ⟨n, asked, hn, hlog, hon⟩ := h
  exact ⟨n, asked, hn.withYield false, hlog, hon⟩

variable [Bus β]

theorem next_along (h : m.next bound = some m') : Along m.outside m'.outside := by
  rw [next_outside h]
  exact Along.run _ _

theorem ran_along (h : Ran m m') : Along m.outside m'.outside := by
  induction h with
  | exhausted _ => exact .refl _
  | idled _ _ => exact .advance _ _
  | yielded _ _ hnext _ =>
      obtain ⟨bound, hnext⟩ := hnext
      exact takeYield_along (next_along hnext)
  | further _ _ hnext _ _ ih =>
      obtain ⟨bound, hnext⟩ := hnext
      exact (next_along hnext).trans ih

end Machine

end Z80
