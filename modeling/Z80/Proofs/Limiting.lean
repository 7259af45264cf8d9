/-
Programs that run up to a limit.

A limited run looks at the limit between its slices only.  With a larger limit it does the same at
first, and may then go on: that is why its output can only grow (`Limited.split`).  How far past the
limit a run can get is a matter of its last slice.  That slice has begun below the limit, and what it
counts beyond its budget is less than the cost of an instruction in it (`Ran.last_event`).

A slice need not make progress, since an overrun may be larger than a budget.  It then takes the
budget off the overrun.  Where it does make progress, the lifetime count grows.  So the T-states that
are missing from the limit and the overrun, taken as two digits of one number, fall with every slice,
and on that number goes the induction that every limited run comes to an end (`Viable.limited`).
-/
import Z80.Proofs.Printing

namespace Z80

/-! ### Time in a run -/

namespace Machine

section Time

variable {β : Type} [Bus β] {m m₁ m₂ : Machine β}

theorem Ran.total_mono (h : Ran m m₁) : m.clock.total ≤ m₁.clock.total := by
  induction h with
  | exhausted hex => exact Nat.le_refl _
  | idled hex hdue => exact Nat.le_add_right _ _
  | yielded hex hdue hnext hy =>
      obtain ⟨bound, hnext⟩ := hnext
      obtain ⟨n, helapsed⟩ := next_elapsed hnext
      exact Nat.le.intro helapsed.total.symm
  | further hex hdue hnext hy hrest ih =>
      obtain ⟨bound, hnext⟩ := hnext
      obtain ⟨n, helapsed⟩ := next_elapsed hnext
      exact Nat.le_trans (Nat.le.intro helapsed.total.symm) ih

/-- A run reaches the machine it begins with, or one that an event has led to. -/
theorem Reaches.last (h : Reaches m m₁) : m₁ = m ∨ ∃ m₀, Reaches m m₀ ∧
    ¬ m₀.clock.exhausted = true ∧ ¬ m₀.cpu.due = .halted ∧ Returns m₀.next m₁ := by
  cases h with
  | start => exact .inl rfl
  | further hbefore hex hawake hnext _ => exact .inr ⟨_, hbefore, hex, hawake, hnext⟩

variable [View β] [Plain β]

/-- While there is room, the count of the period and the lifetime count go together. -/
theorem Reaches.counts (h : Reaches m m₁) (hroomy : m.Roomy) :
    m.clock.total ≤ m₁.clock.total ∧
      m₁.clock.total + m.clock.current.toNat = m.clock.total + m₁.clock.current.toNat := by
  induction h with
  | start => exact ⟨Nat.le_refl _, rfl⟩
  | @further m₁ m₂ hbefore hex hawake hnext hy ih =>
      have hroom := hroomy m₁ m₂ hbefore hex hnext
      obtain ⟨bound, hnext⟩ := hnext
      obtain ⟨n, -, -, helapsed⟩ := next_lasts hnext
      have htotal := helapsed.total
      have hcurrent := helapsed.toNat_current (by omega)
      omega

/-- An event that begins before the end of the period is over its own cost after it at most. -/
theorem Reaches.event (h : Reaches m m₁) (hroomy : m.Roomy) (hex : ¬ m₁.clock.exhausted = true)
    (hnext : Returns m₁.next m₂) :
    m.clock.total < m₂.clock.total ∧ m₁.clock.total + 4 ≤ m₂.clock.total ∧
      m₂.clock.total + m.clock.current.toNat <
        m.clock.total + m.clock.target.toNat + (m₂.clock.total - m₁.clock.total) := by
  obtain ⟨hmono, hcounts⟩ := h.counts hroomy
  have hlt := m₁.clock.not_exhausted_iff.mp (Bool.eq_false_iff.mpr hex)
  rw [h.target] at hlt
  obtain ⟨bound, hnext⟩ := hnext
  obtain ⟨n, hn, -, helapsed⟩ := next_lasts hnext
  have htotal := helapsed.total
  omega

/-- **A run takes at most the cost of one of its events more than its period.** -/
theorem Ran.last_event (h : Ran m m₂) (hroomy : m.Roomy) (hex : ¬ m.clock.exhausted = true)
    (hawake : ¬ m.cpu.due = .halted) :
    m.clock.total < m₂.clock.total ∧ ∃ m₀ m₁, Reaches m m₀ ∧ ¬ m₀.cpu.due = .halted ∧
      Returns m₀.next m₁ ∧ m₂.clock.total + m.clock.current.toNat <
        m.clock.total + m.clock.target.toNat + (m₁.clock.total - m₀.clock.total) := by
  obtain ⟨m₁, hreaches, hends⟩ := h.exists_ends
  cases hends with
  | exhausted hex₁ =>
      obtain rfl | ⟨m₀, hreaches₀, hex₀, hawake₀, hnext⟩ := hreaches.last
      · exact absurd hex₁ hex
      obtain ⟨hlater, -, hover⟩ := hreaches₀.event hroomy hex₀ hnext
      exact ⟨hlater, m₀, _, hreaches₀, hawake₀, hnext, hover⟩
  | idled hex₁ hdue =>
      obtain rfl | ⟨m₀, hreaches₀, hex₀, hawake₀, hnext⟩ := hreaches.last
      · exact absurd hdue hawake
      obtain ⟨hlater, hcost, -⟩ := hreaches₀.event hroomy hex₀ hnext
      -- the NOPs are rounded up, by less than an event takes
      obtain ⟨-, hcounts⟩ := hreaches.counts hroomy
      have hlt := m₁.clock.not_exhausted_iff.mp (Bool.eq_false_iff.mpr hex₁)
      rw [hreaches.target] at hlt
      have hnops := m₁.clock.toNat_haltNops
      rw [hreaches.target] at hnops
      have htotal : m₁.idleOut.clock.total = m₁.clock.total + m₁.clock.haltNops.toNat * 4 := rfl
      exact ⟨by omega, m₀, m₁, hreaches₀, hawake₀, hnext, by omega⟩
  | @yielded m₃ hex₁ hdue hnext hy =>
      obtain ⟨hlater, -, hover⟩ := hreaches.event hroomy hex₁ hnext
      exact ⟨hlater, m₁, m₃, hreaches, by simp [hdue], hnext, hover⟩

end Time

end Machine

namespace Cpm

open Machine

/-! ### Slices that go on -/

/-- A session that nobody disturbs and that does not get stuck. -/
structure Viable (s : Session) : Prop where
  unlatched : Unlatched s
  lasts : ∃ t, Abreast s t ∧ Lasting t

section Slice

variable {s s' : Session} {bytes : List UInt8}

/-- A slice is a run and the answer to it. -/
theorem returns_slice_iff {p : List UInt8 × Session} :
    Returns (s.slice ·) p ↔ ∃ s₁ : Session, Ran (s.begun sliceBudget) s₁ ∧ p = s₁.answer := by
  constructor
  · rintro ⟨bound, hslice⟩
    obtain ⟨s₁, hrun, rfl⟩ := Option.map_eq_some_iff.mp hslice
    exact ⟨s₁, returns_run_iff_ran.mp ⟨bound, hrun⟩, rfl⟩
  · rintro ⟨s₁, hran, rfl⟩
    obtain ⟨bound, hrun⟩ := returns_run_iff_ran.mpr hran
    exact ⟨bound, Option.map_eq_some_iff.mpr ⟨s₁, hrun, rfl⟩⟩

theorem elapsed_answer (s : Session) : s.answer.2.elapsed = s.elapsed := by
  obtain ⟨-, hclock, -⟩ := answer_spec s
  exact congrArg Clock.total hclock

theorem finished_answer (s : Session) : s.answer.2.finished = s.finished := by
  obtain ⟨hcpu, -, -⟩ := answer_spec s
  exact congrArg (·.regs.halted) hcpu

theorem elapsed_slice {p : List UInt8 × Session} (h : Returns (s.slice ·) p) :
    s.elapsed ≤ p.2.elapsed := by
  obtain ⟨s₁, hran, rfl⟩ := returns_slice_iff.mp h
  rw [elapsed_answer]
  exact hran.total_mono

/-- **A slice takes a budget off the overrun, or makes progress.**  In the second case it counts less
than its budget and the cost of one of its instructions. -/
theorem Viable.slice (h : Viable s) (hfinished : s.finished = false) :
    ∃ p, Returns (s.slice ·) p ∧ Viable p.2 ∧
      (p.2.finished = false ∧ p.2.elapsed = s.elapsed ∧
          p.2.clock.overrun.toNat < s.clock.overrun.toNat ∨
        s.elapsed < p.2.elapsed ∧ ∃ s₁ s₂ : Session, Reaches (s.begun sliceBudget) s₁ ∧
          s₁.cpu.due = .instruction ∧ Returns s₁.next s₂ ∧
          p.2.elapsed < s.elapsed + 100000 + (s₂.elapsed - s₁.elapsed)) := by
  obtain ⟨t, habreast, hlasting⟩ := h.lasts
  obtain ⟨k, bytes, s', t', hkept, -⟩ := h.unlatched.slice habreast hlasting
  obtain ⟨bound, hslices⟩ := hkept.slices
  obtain ⟨p, q, hslice, hnil, hq⟩ := Session.slices_succ_eq_some_iff.mp hslices
  obtain rfl : s' = p.2 := (Prod.mk.inj hq).2.trans (congrArg Prod.snd (Option.some.inj hnil)).symm
  obtain ⟨s₁, hran, rfl⟩ := returns_slice_iff.mp ⟨bound, hslice⟩
  refine ⟨s₁.answer, ⟨bound, hslice⟩,
    ⟨hkept.unlatched, t', hkept.abreast, hlasting.tells hkept.steps⟩, ?_⟩
  rw [finished_answer, elapsed_answer]
  have htarget : (s.begun sliceBudget).clock.target.toNat = 100000 := rfl
  have hcurrent : (s.begun sliceBudget).clock.current = s.clock.overrun := rfl
  have hbegun := h.unlatched.begun sliceBudget
  by_cases hex : (s.begun sliceBudget).clock.exhausted = true
  · obtain rfl := hran.of_exhausted hex
    obtain ⟨-, hclock, -⟩ := answer_spec (s.begun sliceBudget)
    rw [Clock.exhausted_iff, htarget, hcurrent] at hex
    refine .inl ⟨hfinished, rfl, ?_⟩
    rw [hclock, Clock.toNat_overrun, htarget, hcurrent]
    omega
  · have hawake : ¬ (s.begun sliceBudget).cpu.due = .halted := by
      rw [hbegun.undisturbed.due_eq_halted_iff]
      exact Bool.eq_false_iff.mp hfinished
    obtain ⟨hlater, s₂, s₃, hreaches, hawake₂, hnext, hover⟩ :=
      hran.last_event (roomy_of_target (by omega)) hex hawake
    obtain ⟨-, -, -, -, hunlatched, -⟩ := hbegun.reaches ⟨habreast.cpu, habreast.board⟩ hreaches
    refine .inr ⟨hlater, s₂, s₃, hreaches,
      hunlatched.undisturbed.due_eq_instruction_iff.mpr hawake₂, hnext, ?_⟩
    have hstart : (s.begun sliceBudget).clock.total = s.elapsed := rfl
    unfold Session.elapsed at *
    omega

end Slice

/-! ### Limited runs -/

/-- How far a limit lets a session run, and what is printed on the way. -/
inductive Limited (limit : Nat) : Session → String → Session → Prop
  | ended {s : Session} (hends : ¬ s.goesOn limit = true) : Limited limit s "" s
  | slice {s s' : Session} {p : List UInt8 × Session} {output : String}
      (hgoes : s.goesOn limit = true) (hslice : Returns (s.slice ·) p)
      (hrest : Limited limit p.2 output s') : Limited limit s (text p.1 ++ output) s'

/-- The boundaries between the instructions of a limited run. -/
inductive Stands (limit : Nat) : Session → Session → Prop
  | inside {s s₁ : Session} (hgoes : s.goesOn limit = true)
      (hreaches : Reaches (s.begun sliceBudget) s₁) : Stands limit s s₁
  | later {s s₁ : Session} {p : List UInt8 × Session} (hgoes : s.goesOn limit = true)
      (hslice : Returns (s.slice ·) p) (hrest : Stands limit p.2 s₁) : Stands limit s s₁

theorem goesOn_iff {limit : Nat} {s : Session} :
    s.goesOn limit = true ↔ s.finished = false ∧ s.elapsed < limit := by
  simp [Session.goesOn]

section Limited

variable {limit limit' bound bound' slices slices' : Nat} {s s' s'' : Session}
  {output output' : String} {r : Run}

theorem resume_succ (bound limit slices : Nat) (output : String) (s : Session) :
    Run.resume bound limit (slices + 1) output s =
      if s.goesOn limit = true then (s.slice bound).bind fun p =>
        Run.resume bound limit slices (output ++ text p.1) p.2
      else some ⟨output, s.elapsed, s.finished⟩ := rfl

theorem resume_mono (hle : bound ≤ bound') (hle' : slices ≤ slices')
    (h : Run.resume bound limit slices output s = some r) :
    Run.resume bound' limit slices' output s = some r := by
  induction slices generalizing slices' output s with
  | zero => cases h
  | succ slices ih =>
      obtain ⟨slices', rfl⟩ : ∃ n, slices' = n + 1 := ⟨slices' - 1, by omega⟩
      rw [resume_succ] at h ⊢
      by_cases hgoes : s.goesOn limit = true
      · rw [if_pos hgoes] at h ⊢
        obtain ⟨p, hslice, hrest⟩ := Option.bind_eq_some_iff.mp h
        exact Option.bind_eq_some_iff.mpr ⟨p, Session.slice_mono hle hslice, ih (by omega) hrest⟩
      · rwa [if_neg hgoes] at h ⊢

theorem limited_of_resume (h : Run.resume bound limit slices output s = some r) :
    ∃ output' s', Limited limit s output' s' ∧ r = ⟨output ++ output', s'.elapsed, s'.finished⟩ := by
  induction slices generalizing output s with
  | zero => cases h
  | succ slices ih =>
      rw [resume_succ] at h
      by_cases hgoes : s.goesOn limit = true
      · rw [if_pos hgoes] at h
        obtain ⟨p, hslice, hrest⟩ := Option.bind_eq_some_iff.mp h
        obtain ⟨output', s', hlimited, rfl⟩ := ih hrest
        refine ⟨_, s', .slice hgoes ⟨bound, hslice⟩ hlimited, ?_⟩
        rw [String.append_assoc]
      · rw [if_neg hgoes] at h
        refine ⟨"", s, .ended hgoes, ?_⟩
        rw [String.append_empty]
        exact (Option.some.inj h).symm

theorem Limited.exists_resume (h : Limited limit s output' s') (output : String) :
    ∃ bound, Run.resume bound limit bound output s =
      some ⟨output ++ output', s'.elapsed, s'.finished⟩ := by
  induction h generalizing output with
  | ended hends =>
      refine ⟨1, ?_⟩
      rw [resume_succ, if_neg hends, String.append_empty]
  | @slice s s' p output' hgoes hslice hrest ih =>
      obtain ⟨bound, hslice⟩ := hslice
      obtain ⟨bound', hresume⟩ := ih (output ++ text p.1)
      refine ⟨max bound bound' + 1, ?_⟩
      rw [resume_succ, if_pos hgoes, Session.slice_mono (by omega) hslice, Option.bind_some,
        ← String.append_assoc]
      exact resume_mono (by omega) (by omega) hresume

/-! ### How far a limit lets a session run -/

theorem Limited.mono (h : Limited limit s output s') : s.elapsed ≤ s'.elapsed := by
  induction h with
  | ended _ => exact Nat.le_refl _
  | slice _ hslice _ ih => exact Nat.le_trans (elapsed_slice hslice) ih

/-- A run that stops has ended or has reached its limit. -/
theorem Limited.stops (h : Limited limit s output s') : ¬ s'.goesOn limit = true := by
  induction h with
  | ended hends => exact hends
  | slice _ _ _ ih => exact ih

theorem Limited.reached (h : Limited limit s output s') (hawake : s'.finished = false) :
    limit ≤ s'.elapsed := by
  by_cases hbelow : s'.elapsed < limit
  · exact absurd (goesOn_iff.mpr ⟨hawake, hbelow⟩) h.stops
  · omega

/-- **A larger limit lets a run go on from where it would have stopped.** -/
theorem Limited.split (h : Limited limit s output s') (hle : limit ≤ limit')
    (h' : Limited limit' s output' s'') :
    ∃ rest, Limited limit' s' rest s'' ∧ output' = output ++ rest := by
  induction h generalizing output' with
  | ended _ => exact ⟨output', h', String.empty_append.symm⟩
  | slice hgoes hslice hrest ih =>
      cases h' with
      | ended hends =>
          obtain ⟨hfinished, hbelow⟩ := goesOn_iff.mp hgoes
          exact absurd (goesOn_iff.mpr ⟨hfinished, by omega⟩) hends
      | slice hgoes' hslice' hrest' =>
          obtain rfl := Returns.unique (fun hle h => Session.slice_mono hle h) hslice hslice'
          obtain ⟨rest, hlimited, rfl⟩ := ih hrest'
          exact ⟨rest, hlimited, String.append_assoc.symm⟩

/-- A program that has ended runs no further. -/
theorem Limited.of_finished (h : Limited limit s output s') (hfinished : s.finished = true) :
    output = "" ∧ s' = s := by
  cases h with
  | ended _ => exact ⟨rfl, rfl⟩
  | slice hgoes _ _ =>
      obtain ⟨hawake, -⟩ := goesOn_iff.mp hgoes
      rw [hfinished] at hawake
      cases hawake

theorem Limited.unique (h : Limited limit s output s') (h' : Limited limit s output' s'') :
    output' = output ∧ s'' = s' := by
  obtain ⟨rest, hrest, rfl⟩ := h.split (Nat.le_refl limit) h'
  cases hrest with
  | ended _ => exact ⟨String.append_empty, rfl⟩
  | slice hgoes _ _ => exact absurd hgoes h.stops

/-- The T-states that are missing from a limit and the overrun, as two digits of one number. -/
def missing (limit : Nat) (s : Session) : Nat :=
  (limit - s.elapsed) * 2 ^ 32 + s.clock.overrun.toNat

/-- **Every limit is respected sooner or later.** -/
theorem Viable.limited (h : Viable s) (limit : Nat) : ∃ output s', Limited limit s output s' := by
  induction hmissing : missing limit s using Nat.strongRecOn generalizing s with
  | _ n ih =>
      by_cases hgoes : s.goesOn limit = true
      · obtain ⟨hfinished, hbelow⟩ := goesOn_iff.mp hgoes
        obtain ⟨p, hslice, hviable, hprogress⟩ := h.slice hfinished
        have hless : missing limit p.2 < n := by
          have hoverrun := p.2.clock.overrun.toNat_lt
          unfold missing at hmissing ⊢
          rcases hprogress with ⟨-, helapsed, hless⟩ | ⟨hmore, -⟩
          · rw [helapsed]
            omega
          · omega
        obtain ⟨output, s', hlimited⟩ := ih _ hless hviable rfl
        exact ⟨_, s', .slice hgoes hslice hlimited⟩
      · exact ⟨"", s, .ended hgoes⟩

/-- **The limit is passed by less than a slice and one instruction.** -/
theorem Viable.within (h : Viable s) (hlimited : Limited limit s output s')
    (hgoes : s.goesOn limit = true) :
    ∃ s₁ s₂ : Session, Stands limit s s₁ ∧ s₁.cpu.due = .instruction ∧ Returns s₁.next s₂ ∧
      s'.elapsed < limit + 100000 + (s₂.elapsed - s₁.elapsed) := by
  induction hlimited with
  | ended hends => exact absurd hgoes hends
  | @slice s s' p output hgoes hslice hrest ih =>
      obtain ⟨hfinished, hbelow⟩ := goesOn_iff.mp hgoes
      obtain ⟨p', hslice', hviable, hprogress⟩ := h.slice hfinished
      obtain rfl := Returns.unique (fun hle h => Session.slice_mono hle h) hslice' hslice
      by_cases hagain : p'.2.goesOn limit = true
      · obtain ⟨s₁, s₂, hstands, hrest⟩ := ih hviable hagain
        exact ⟨s₁, s₂, .later hgoes hslice hstands, hrest⟩
      -- the slice that is the last one has made progress
      rcases hprogress with ⟨hawake, helapsed, -⟩ | ⟨-, s₁, s₂, hreaches, hdue, hnext, hover⟩
      · exact absurd (goesOn_iff.mpr ⟨hawake, by omega⟩) hagain
      · cases hrest with
        | slice hagain' _ _ => exact absurd hagain' hagain
        | ended _ => exact ⟨s₁, s₂, .inside hgoes hreaches, hdue, hnext, by omega⟩

/-- T-states that fit into 64 bits still do at the end, if the limit leaves room for that. -/
theorem Viable.fits (h : Viable s) (hlimited : Limited limit s output s')
    (hlimit : limit ≤ 2 ^ 63) (hbefore : s.elapsed < 2 ^ 64) : s'.elapsed < 2 ^ 64 := by
  by_cases hgoes : s.goesOn limit = true
  · obtain ⟨s₁, s₂, -, -, ⟨bound, hnext⟩, hover⟩ := h.within hlimited hgoes
    obtain ⟨n, -, hn, helapsed⟩ := next_lasts hnext
    have hcost : s₂.elapsed = s₁.elapsed + n := helapsed.total
    omega
  · cases hlimited with
    | ended _ => exact hbefore
    | slice hgoes' _ _ => exact absurd hgoes' hgoes

end Limited

/-! ### Programs -/

/-- A run of a program up to a limit has this result, if the bounds are large enough. -/
def Outcome (limit : Nat) (program : List UInt8) (r : Run) : Prop :=
  ∃ bound, Run.ofProgram bound limit program = .ok (some r)

section Programs

variable {limit limit' : Nat} {program : List UInt8} {s : Session} {r r' : Run}

/-- A program is refused when there is nothing in it or no room for it. -/
theorem start_eq_error_iff :
    (∃ why, Session.start program = .error why) ↔ program = [] ∨ 0xFD00 < program.length := by
  have hcapacity : capacity = 0xFD00 := rfl
  unfold Session.start Environment.load
  by_cases hempty : program.isEmpty = true
  · rw [if_pos hempty]
    exact ⟨fun _ => .inl (List.isEmpty_iff.mp hempty), fun _ => ⟨.empty, rfl⟩⟩
  by_cases hlarge : capacity < program.length
  · rw [if_neg hempty, if_pos hlarge]
    exact ⟨fun _ => .inr (hcapacity ▸ hlarge), fun _ => ⟨.tooLarge _, rfl⟩⟩
  rw [if_neg hempty, if_neg hlarge]
  constructor
  · rintro ⟨why, herror⟩
    cases herror
  · rintro (rfl | hlong)
    · exact absurd rfl hempty
    · exact absurd (hcapacity ▸ hlong) hlarge

/-- A program begins awake and at once. -/
theorem start_fresh (hstart : Session.start program = .ok s) :
    s.finished = false ∧ s.elapsed = 0 := by
  obtain ⟨e, -, rfl⟩ := exists_load_of_start hstart
  exact ⟨rfl, rfl⟩

theorem ofProgram_eq (hstart : Session.start program = .ok s) (bound limit : Nat) :
    Run.ofProgram bound limit program = .ok (Run.resume bound limit bound "" s) := by
  unfold Run.ofProgram
  rw [hstart]
  rfl

theorem ofProgram_eq_error_iff (bound limit : Nat) (program : List UInt8) :
    (∃ why, Run.ofProgram bound limit program = .error why) ↔
      program = [] ∨ 0xFD00 < program.length := by
  rw [← start_eq_error_iff]
  cases hstart : Session.start program with
  | error why =>
      have hrefused : Run.ofProgram bound limit program = .error why := by
        unfold Run.ofProgram
        rw [hstart]
        rfl
      exact ⟨fun _ => ⟨why, rfl⟩, fun _ => ⟨why, hrefused⟩⟩
  | ok s =>
      rw [ofProgram_eq hstart]
      exact ⟨fun ⟨_, h⟩ => absurd h (by simp), fun ⟨_, h⟩ => absurd h (by simp)⟩

theorem outcome_iff (hstart : Session.start program = .ok s) : Outcome limit program r ↔
    ∃ output s', Limited limit s output s' ∧ r = ⟨output, s'.elapsed, s'.finished⟩ := by
  unfold Outcome
  constructor
  · rintro ⟨bound, hrun⟩
    rw [ofProgram_eq hstart, Except.ok.injEq] at hrun
    obtain ⟨output, s', hlimited, rfl⟩ := limited_of_resume hrun
    exact ⟨output, s', hlimited, by rw [String.empty_append]⟩
  · rintro ⟨output, s', hlimited, rfl⟩
    obtain ⟨bound, hresume⟩ := hlimited.exists_resume ""
    exact ⟨bound, by rw [ofProgram_eq hstart, hresume, String.empty_append]⟩

theorem Outcome.unique (hstart : Session.start program = .ok s) (h : Outcome limit program r)
    (h' : Outcome limit program r') : r' = r := by
  obtain ⟨output, s₁, hlimited, rfl⟩ := (outcome_iff hstart).mp h
  obtain ⟨output', s₂, hlimited', rfl⟩ := (outcome_iff hstart).mp h'
  obtain ⟨rfl, rfl⟩ := hlimited.unique hlimited'
  rfl

/-- **What a run does up to a limit is the beginning of what it does up to a larger one.** -/
theorem Outcome.mono (hstart : Session.start program = .ok s) (hle : limit ≤ limit')
    (h : Outcome limit program r) (h' : Outcome limit' program r') :
    (∃ rest, r'.output = r.output ++ rest) ∧ r.elapsed ≤ r'.elapsed ∧
      (r.completed = true → r' = r) := by
  obtain ⟨output, s₁, hlimited, rfl⟩ := (outcome_iff hstart).mp h
  obtain ⟨output', s₂, hlimited', rfl⟩ := (outcome_iff hstart).mp h'
  obtain ⟨rest, hrest, rfl⟩ := hlimited.split hle hlimited'
  refine ⟨⟨rest, rfl⟩, hrest.mono, fun hfinished => ?_⟩
  obtain ⟨rfl, rfl⟩ := hrest.of_finished hfinished
  rw [String.append_empty]

end Programs

/--
**A limit is respected, and larger limits only let a program get further.**  Programs are refused for
their length alone.  A program whose instructions all come to an end has exactly one outcome for every
limit.  If it has not ended, the limit has been reached; and a limit above zero is passed by less than
a slice and one of the instructions that were run, so that up to 2⁶³ the T-states fit into 64 bits.
For a larger limit more is printed, if anything, and no less time passes; and a program that has ended
within the smaller one has the same outcome.
-/
theorem run_limited (program : List UInt8) :
    (∀ bound limit, (∃ why, Run.ofProgram bound limit program = .error why) ↔
      program = [] ∨ 0xFD00 < program.length) ∧
    ∀ s, Session.start program = .ok s → Lasting s →
      (∀ limit, ∃ r, Outcome limit program r ∧ (∀ r', Outcome limit program r' → r' = r) ∧
        (r.completed = false → limit ≤ r.elapsed) ∧
        (0 < limit → ∃ s₁ s₂ : Session, Stands limit s s₁ ∧ s₁.cpu.due = .instruction ∧
          Returns s₁.next s₂ ∧ r.elapsed < limit + 100000 + (s₂.elapsed - s₁.elapsed)) ∧
        (limit ≤ 2 ^ 63 → r.elapsed < 2 ^ 64)) ∧
      ∀ limit limit' r r', limit ≤ limit' → Outcome limit program r → Outcome limit' program r' →
        (∃ rest, r'.output = r.output ++ rest) ∧ r.elapsed ≤ r'.elapsed ∧
          (r.completed = true → r' = r) := by
  refine ⟨fun bound limit => ofProgram_eq_error_iff bound limit program, ?_⟩
  intro s hstart hlasting
  have hviable : Viable s := ⟨unlatched_start hstart, s, ⟨rfl, rfl⟩, hlasting⟩
  obtain ⟨hawake, hzero⟩ := start_fresh hstart
  refine ⟨fun limit => ?_, fun _ _ _ _ hle hr hr' => hr.mono hstart hle hr'⟩
  obtain ⟨output, s', hlimited⟩ := hviable.limited limit
  have houtcome : Outcome limit program ⟨output, s'.elapsed, s'.finished⟩ :=
    (outcome_iff hstart).mpr ⟨output, s', hlimited, rfl⟩
  refine ⟨_, houtcome, fun _ hr => houtcome.unique hstart hr, hlimited.reached, fun hpos => ?_,
    fun hlimit => ?_⟩
  · exact hviable.within hlimited (goesOn_iff.mpr ⟨hawake, by omega⟩)
  · exact hviable.fits hlimited hlimit (by omega)

/-- The program that prints a letter has ended after a slice, whatever limit above zero it is given. -/
theorem run_limited_letterA :
    ∃ s, Session.start letterA = .ok s ∧ Lasting s ∧ ∃ r, Outcome 1000000 letterA r ∧
      r.output = "A" ∧ r.completed = true ∧
      ∀ limit r', 1000000 ≤ limit → Outcome limit letterA r' → r' = r := by
  have hlasting : ∃ s, Session.start letterA = .ok s ∧ Lasting s := by
    refine ⟨_, rfl, ?_⟩
    exact .of_step ⟨2, rfl⟩ (.of_step ⟨2, rfl⟩ (.of_step ⟨2, rfl⟩ (.of_step ⟨2, rfl⟩
      (.of_halted rfl rfl))))
  obtain ⟨s, hstart, hlasting⟩ := hlasting
  obtain ⟨-, hprogram⟩ := run_limited letterA
  obtain ⟨-, hlonger⟩ := hprogram s hstart hlasting
  have hrun : ∃ r, Outcome 1000000 letterA r ∧ r.output = "A" ∧ r.completed = true :=
    ⟨_, ⟨5, rfl⟩, rfl, rfl⟩
  obtain ⟨r, hr, houtput, hcompleted⟩ := hrun
  refine ⟨s, hstart, hlasting, r, hr, houtput, hcompleted, fun limit r' hle hr' => ?_⟩
  obtain ⟨-, -, hsame⟩ := hlonger _ _ r r' hle hr hr'
  exact hsame hcompleted

end Cpm

end Z80
