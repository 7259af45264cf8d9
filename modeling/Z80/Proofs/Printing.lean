/-
What a CP/M program prints.

Programs are run in slices, and a call of the system is answered between two of them.  Two latches
have to stay in step for that: the bus notes the call and the clock notes the request to return.
Single steps know of neither.  What a program should have printed is therefore said of its single
steps alone (`Tells`): each write to the trap port counts once, and the system answers it with the
registers and the memory right after the instruction.

A slice is then held against the steps.  `Abreast` relates a session in a slice to one that is
stepped.  They have the same processor and the same memory, while their clocks and latches are their
own.  An instruction takes them on abreast, and it leaves both latches of the slice as they were, or
sets both and has made exactly one call (`Unlatched.next`).  In the first case the slice goes on, in
the second it ends there and then, so at the end of a slice there is at most one call to answer, and
the registers still stand as they did when it was made.
-/
import Z80.Cpm.Session
import Z80.Proofs.Progress
import Z80.Proofs.Sending
import Z80.Proofs.Yielding

namespace Z80

/-- The accesses that a bus was asked for can be read off the traffic. -/
theorem Bus.map_fst_traffic {β : Type} [Bus β] (b : β) (asked : List Asked) :
    (traffic b asked).map (·.1) = asked.map (·.access) := by
  induction asked generalizing b with
  | nil => rfl
  | cons a asked ih => simp only [traffic, List.map_cons, ih]

namespace Cpm

open Machine

instance : Plain Environment where
  read _ _ _ := rfl
  prompt := Bus.Always.of_forall (by intro b clock a; cases a <;> rfl)

/-! ### What should be printed -/

/-- Is an access a call of the system? -/
def calls : Access → Bool
  | .output port _ => Word.low port == trapPort
  | _ => false

/-- What the system says to a call with these registers and this memory. -/
def said (r : RegisterSet) (memory : Memory) : List UInt8 :=
  if r.c = 2 then [r.e]
  else if r.c = 9 then (peekBytes memory r.de 0x10000).takeWhile (· != 0x24)
  else []

/-- What is to be printed after a step: for each call in it, what the system says right after it. -/
def spoken (m : Machine (Logged Environment)) : List UInt8 :=
  ((m.bus.log.map (·.access)).filter calls).flatMap fun _ =>
    said m.cpu.regs.main m.bus.bus.board.memory

/-- A number of single steps leads from one session to another, and that is to be printed meanwhile.
Every step is taken on a new log, which then holds what was asked in it. -/
inductive Tells : Session → Nat → List UInt8 → Session → Prop
  | start {s : Session} : Tells s 0 [] s
  | step {s t : Session} {r : UInt32 × Machine (Logged Environment)} {n : Nat} {text : List UInt8}
      (hstep : Returns s.logged.step r) (hrest : Tells r.2.unlogged n text t) :
      Tells s (n + 1) (spoken r.2 ++ text) t

theorem Tells.trans {s t u : Session} {m n : Nat} {text text' : List UInt8} (h : Tells s m text t)
    (h' : Tells t n text' u) : Tells s (m + n) (text ++ text') u := by
  induction h with
  | start =>
      rw [Nat.zero_add]
      exact h'
  | step hstep hrest ih =>
      rw [Nat.add_right_comm, List.append_assoc]
      exact .step hstep (ih h')

namespace Environment

theorem textAt_eq_takeWhile (e : Environment) (address : UInt16) (limit : Nat) :
    e.textAt address limit = (peekBytes e.board.memory address limit).takeWhile (· != 0x24) := by
  induction limit generalizing address with
  | zero => rfl
  | succ limit ih =>
      have hbyte : peek e address = peek e.board.memory address := rfl
      simp only [textAt, peekBytes, List.takeWhile_cons, hbyte, ih]
      by_cases h : peek e.board.memory address = 0x24 <;> simp [h]

/-- The system says what it should. -/
theorem printed_eq_said (e : Environment) (r : RegisterSet) : e.printed r = said r e.board.memory := by
  unfold printed said
  rw [textAt_eq_takeWhile]

end Environment

/-! ### The latches -/

/-- The bus notes the calls that it answers. -/
theorem called_after (e : Environment) (asked : List Asked) :
    (Bus.after e asked).called = (e.called || (asked.map (·.access)).any calls) := by
  induction asked generalizing e with
  | nil => exact (Bool.or_false _).symm
  | cons a asked ih =>
      have hfirst : (Bus.respond e a.clock a.access).bus.called = (e.called || calls a.access) := by
        cases a.access with
        | output port v => rfl
        | read address | write address v | input port => exact (Bool.or_false _).symm
      rw [Bus.after, ih, hfirst, List.map_cons, List.any_cons, Bool.or_assoc]

/-- It asks for a return in its answers to calls, and in no other. -/
theorem requests_eq_any (e : Environment) (asked : List Asked) :
    Bus.requests e asked = (asked.map (·.access)).any calls := by
  induction asked generalizing e with
  | nil => rfl
  | cons a asked ih =>
      have hfirst : (Bus.respond e a.clock a.access).yields = calls a.access := by
        cases a.access with
        | output port v | read address | write address v | input port => rfl
      rw [Bus.requests, ih, hfirst, List.map_cons, List.any_cons]

theorem sends_of_calls {a : Access} (h : calls a = true) : a.sends = true := by
  cases a with
  | output port v => rfl
  | read address => cases h
  | write address v => cases h
  | input port => cases h

/-- An event makes at most one call, so what is to be printed after it is one answer or nothing. -/
theorem spoken_of_next {s : Session} {m : Machine (Logged Environment)} {bound : Nat}
    (h : s.logged.next bound = some m) :
    spoken m = if (m.bus.log.map (·.access)).any calls then
      said m.cpu.regs.main m.bus.bus.board.memory else [] := by
  obtain ⟨asked, hlog, hcount⟩ := next_sends h
  obtain rfl : m.bus.log = asked := hlog
  have hone : ((m.bus.log.map (·.access)).filter calls).length ≤ 1 := by
    rw [← List.countP_eq_length_filter, List.countP_map]
    exact Nat.le_trans (List.countP_mono_left fun a _ ha => sends_of_calls ha) hcount
  unfold spoken
  cases hcalls : (m.bus.log.map (·.access)).filter calls with
  | nil =>
      have hnone : (m.bus.log.map (·.access)).any calls = false :=
        List.any_eq_false.mpr (List.filter_eq_nil_iff.mp hcalls)
      rw [hnone]
      rfl
  | cons a rest =>
      rw [hcalls, List.length_cons] at hone
      obtain rfl : rest = [] := List.length_eq_zero_iff.mp (by omega)
      have hmem : a ∈ (m.bus.log.map (·.access)).filter calls := hcalls ▸ List.mem_cons_self
      have hsome : (m.bus.log.map (·.access)).any calls = true :=
        List.any_eq_true.mpr ⟨a, List.mem_filter.mp hmem⟩
      rw [hsome]
      simp

/-! ### Nobody else -/

/-- Nobody interrupts the processor, and it has not been halted in the shadow of EI. -/
structure Undisturbed (cpu : Cpu) : Prop where
  nmi : cpu.nmi = false
  interrupt : cpu.interrupt = none
  calm : ¬ (cpu.regs.halted = true ∧ cpu.shadow = true)

namespace Undisturbed

variable {cpu : Cpu}

theorem acceptable? (h : Undisturbed cpu) : cpu.acceptable? = none := by
  rw [Cpu.acceptable?, h.interrupt, ite_self]

theorem due_eq_halted_iff (h : Undisturbed cpu) : cpu.due = .halted ↔ cpu.regs.halted = true := by
  simp [Cpu.due_eq_halted_iff, h.nmi, h.acceptable?]

theorem due_eq_instruction_iff (h : Undisturbed cpu) :
    cpu.due = .instruction ↔ ¬ cpu.due = .halted := by
  simp [Cpu.due_eq_instruction_iff, h.due_eq_halted_iff, h.nmi, h.acceptable?]

theorem shadow (h : Undisturbed cpu) (hhalted : cpu.due = .halted) : cpu.shadow = false :=
  Bool.eq_false_iff.mpr fun hshadow => h.calm ⟨h.due_eq_halted_iff.mp hhalted, hshadow⟩

/-- No event disturbs it. -/
theorem next {β : Type} [Bus β] {m m' : Machine β} {bound : Nat} (h : Undisturbed m.cpu)
    (hnext : m.next bound = some m') : Undisturbed m'.cpu := by
  obtain ⟨e, -, hdue, hhappens⟩ := next_happens hnext
  have hlatches := hhappens.latches
  have hnmi : m'.cpu.nmi = (e.latch m.cpu.latches).nmi := by rw [← hlatches]; rfl
  have hinterrupt : m'.cpu.interrupt = (e.latch m.cpu.latches).interrupt := by rw [← hlatches]; rfl
  refine ⟨?_, ?_, hhappens.calm hdue⟩
  · rw [hnmi]
    cases e <;> simp [Event.latch, Cpu.latches, h.nmi]
  · rw [hinterrupt]
    cases e <;> simp [Event.latch, Cpu.latches, h.interrupt]

end Undisturbed

/-! ### A slice and the steps -/

/-- A session with the latches down, which nobody but the host disturbs. -/
structure Unlatched (s : Session) : Prop where
  undisturbed : Undisturbed s.cpu
  called : s.bus.called = false
  unasked : s.clock.yieldRequested = false

/-- Two sessions with the same processor and the same memory. -/
structure Abreast (s t : Session) : Prop where
  cpu : s.cpu = t.cpu
  board : s.bus.board = t.bus.board

/-- Environments with the same memory carry the same bytes. -/
theorem mirrors_board :
    Bus.Mirrors fun e e' : Environment => e.board = e'.board where
  byte := by
    rintro ⟨board, called⟩ ⟨board', called'⟩ rfl clock clock' a
    cases a <;> rfl
  bus := by
    rintro ⟨board, called⟩ ⟨board', called'⟩ rfl clock clock' a
    cases a <;> rfl

section Events

variable {s s₁ t : Session} {l : Machine (Logged Environment)} {bound : Nat}

/-- Sessions that are abreast make the same accesses in the same order, and stay abreast. -/
theorem Abreast.next (h : Abreast s t) (bound : Nat) :
    Option.Rel (fun l l' => Abreast l.unlogged l'.unlogged ∧
        l.bus.log.map (·.access) = l'.bus.log.map (·.access))
      (s.logged.next bound) (t.logged.next bound) := by
  have hcpu : t.logged.cpu = s.logged.cpu := h.cpu.symm
  refine rel_imp (next_likewise mirrors_board bound hcpu h.board) ?_
  rintro l l' ⟨hcpu, hboard, n, asked, asked', hasked, hasked', htraffic⟩
  obtain rfl : l.bus.log = asked := hasked.log
  obtain rfl : l'.bus.log = asked' := hasked'.log
  have haccesses := congrArg (List.map Prod.fst) htraffic
  rw [Bus.map_fst_traffic, Bus.map_fst_traffic] at haccesses
  exact ⟨⟨hcpu.symm, hboard⟩, haccesses⟩

theorem Abreast.isSome_next (h : Abreast s t) (bound : Nat) :
    (s.next bound).isSome = (t.next bound).isSome := by
  have hrel := h.next bound
  have hs : s.next bound = (s.logged.next bound).map unlogged := (next_unlogged bound s.logged).symm
  have ht : t.next bound = (t.logged.next bound).map unlogged := (next_unlogged bound t.logged).symm
  rw [hs, ht, Option.isSome_map, Option.isSome_map]
  generalize s.logged.next bound = after at hrel ⊢
  generalize t.logged.next bound = after' at hrel ⊢
  cases hrel with
  | none => rfl
  | some _ => rfl

/-- Both latches are up after an event if it has made a call, and only then. -/
theorem Unlatched.latches (hs : Unlatched s) (h : s.logged.next bound = some l) :
    l.unlogged.bus.called = (l.bus.log.map (·.access)).any calls ∧
      l.unlogged.clock.yieldRequested = (l.bus.log.map (·.access)).any calls := by
  obtain ⟨asked, hasked⟩ := next_requests h
  obtain rfl : l.bus.log = asked := hasked.log
  have hbus : l.unlogged.bus = Bus.after s.bus l.bus.log := hasked.bus
  have hpending : l.unlogged.clock.yieldRequested =
      (s.clock.yieldRequested || Bus.requests s.bus l.bus.log) := hasked.pending
  rw [hbus, called_after, hs.called, hpending, requests_eq_any, hs.unasked, Bool.false_or]
  exact ⟨rfl, rfl⟩

/-- **An event takes both sessions on abreast.**  The latches of the one go up together, and they do
when the other is to print something. -/
theorem Unlatched.next (hs : Unlatched s) (h : Abreast s t) (hnext : Returns s.next s₁) :
    Undisturbed s₁.cpu ∧ s₁.bus.called = s₁.clock.yieldRequested ∧
      ∃ r, Returns t.logged.step r ∧ Abreast s₁ r.2.unlogged ∧
        spoken r.2 = if s₁.bus.called then said s₁.cpu.regs.main s₁.bus.board.memory else [] := by
  obtain ⟨bound, hnext⟩ := hnext
  have hs₁ : s.next bound = some s₁ := hnext
  have hbare : (s.logged.next bound).map unlogged = s.next bound := next_unlogged bound s.logged
  rw [hs₁] at hbare
  obtain ⟨l, hl, rfl⟩ := Option.map_eq_some_iff.mp hbare
  obtain ⟨hcalled, hpending⟩ := hs.latches hl
  have hrel := h.next bound
  rw [hl] at hrel
  cases hl' : t.logged.next bound with
  | none =>
      rw [hl'] at hrel
      cases hrel
  | some l' =>
      rw [hl'] at hrel
      obtain ⟨h₁, haccesses⟩ := Option.rel_some_some.mp hrel
      refine ⟨hs.undisturbed.next hs₁, hcalled.trans hpending.symm, (_, l'.takeYield.2),
        ⟨bound, step_eq_some_iff.mpr ⟨l', hl', rfl⟩⟩, ⟨h₁.cpu, h₁.board⟩, ?_⟩
      have hspoken : spoken l' = if (l'.bus.log.map (·.access)).any calls then
          said l'.unlogged.cpu.regs.main l'.unlogged.bus.board.memory else [] := spoken_of_next hl'
      rw [← haccesses, ← h₁.cpu, ← h₁.board, ← hcalled] at hspoken
      exact hspoken

end Events

/-! ### Stepping -/

/-- A stepped session that goes on for as long as it is stepped. -/
def Lasting (t : Session) : Prop := ∀ n text t', Tells t n text t' → ∃ r, Returns t'.step r

/-- Steps come out in one way only, so a session lasts if it does after one of them. -/
theorem Lasting.of_step {t : Session} {r : UInt32 × Machine (Logged Environment)}
    (hstep : Returns t.logged.step r) (hlasting : Lasting r.2.unlogged) : Lasting t := by
  intro n text t' h
  cases h with
  | start =>
      obtain ⟨bound, hstep⟩ := hstep
      exact ⟨_, bound, (step_unlogged bound t.logged).symm.trans (congrArg _ hstep)⟩
  | step hstep' hrest =>
      obtain rfl := Returns.unique (fun hle h => step_mono hle h) hstep' hstep
      exact hlasting _ _ _ hrest

theorem Lasting.tells {t t' : Session} {n : Nat} {text : List UInt8} (hlasting : Lasting t)
    (h : Tells t n text t') : Lasting t' :=
  fun _ _ _ h' => hlasting _ _ _ (h.trans h')

section Halted

variable {t t' : Session} {n : Nat} {text : List UInt8}

/-- What a step of a halted processor is. -/
theorem returns_step_of_halted (hdue : t.cpu.due = .halted) :
    ∃ time, Returns t.logged.step (time, (t.logged.idled 1).takeYield.2) :=
  ⟨_, 0, step_eq_some_iff.mpr ⟨_, next_of_halted 0 hdue, rfl⟩⟩

/-- A halted processor idles through its steps, and says nothing. -/
theorem exists_tells_idled (hdue : t.cpu.due = .halted) (hshadow : t.cpu.shadow = false) (n : Nat) :
    ∃ t', Tells t n [] t' ∧ t'.cpu = (t.idled n).cpu ∧ t'.bus = t.bus := by
  induction n generalizing t with
  | zero => exact ⟨t, .start, by rw [idled_zero hshadow], rfl⟩
  | succ n ih =>
      obtain ⟨time, hstep⟩ := returns_step_of_halted hdue
      have hdue₁ : (t.logged.idled 1).takeYield.2.unlogged.cpu.due = .halted := due_idled hdue hshadow 1
      obtain ⟨t', htells, hcpu, hbus⟩ := ih hdue₁ rfl
      refine ⟨t', .step hstep htells, ?_, hbus⟩
      rw [hcpu, Nat.add_comm n 1, ← idled_idled]
      rfl

/-- Nothing else becomes of a halted processor. -/
theorem Tells.of_halted (h : Tells t n text t') (hdue : t.cpu.due = .halted)
    (hshadow : t.cpu.shadow = false) : text = [] ∧ t'.cpu.due = .halted := by
  induction h with
  | start => exact ⟨rfl, hdue⟩
  | step hstep _ ih =>
      obtain ⟨time, hidled⟩ := returns_step_of_halted hdue
      obtain rfl := Returns.unique (fun hle h => step_mono hle h) hstep hidled
      obtain ⟨rfl, hend⟩ := ih (due_idled hdue hshadow 1) rfl
      exact ⟨rfl, hend⟩

theorem Lasting.of_halted (hdue : t.cpu.due = .halted) (hshadow : t.cpu.shadow = false) :
    Lasting t := by
  intro n text t' h
  obtain ⟨-, hend⟩ := h.of_halted hdue hshadow
  exact ⟨_, 0, step_eq_some_iff.mpr ⟨_, next_of_halted 0 hend, rfl⟩⟩

end Halted

/-! ### Slices -/

section Slice

variable {s s' s₁ t t' : Session}

theorem Unlatched.begun (hs : Unlatched s) (budget : UInt32) : Unlatched (s.begun budget) :=
  ⟨hs.undisturbed, hs.called, hs.unasked⟩

/-- While a slice goes on nothing is to be printed. -/
theorem Unlatched.reaches (hs : Unlatched s) (h : Abreast s t) (hreaches : Reaches s s₁) :
    ∃ n t₁, Tells t n [] t₁ ∧ Abreast s₁ t₁ ∧ Unlatched s₁ ∧ (n = 0 → s₁ = s) := by
  induction hreaches with
  | start => exact ⟨0, t, .start, h, hs, fun _ => rfl⟩
  | @further s₁ s₂ _ _ hawake hnext hy ih =>
      obtain ⟨n, t₁, htells, h₁, hs₁, -⟩ := ih
      obtain ⟨hundisturbed, hlatches, r, hstep, h₂, hspoken⟩ := hs₁.next h₁ hnext
      have hunasked : s₂.clock.yieldRequested = false :=
        Bool.eq_false_iff.mpr fun hy' => hy ⟨hs₁.undisturbed.due_eq_instruction_iff.mpr hawake, hy'⟩
      have hcalled : s₂.bus.called = false := hlatches.trans hunasked
      rw [hcalled] at hspoken
      have htells₂ := htells.trans (.step hstep .start)
      rw [hspoken] at htells₂
      exact ⟨n + 1, _, htells₂, h₂, ⟨hundisturbed, hcalled, hunasked⟩, fun hn => absurd hn (by omega)⟩

/-- What the system says after a slice. -/
theorem answer_text (s : Session) :
    s.answer.1 = if s.bus.called then said s.cpu.regs.main s.bus.board.memory else [] := by
  obtain ⟨cpu, ⟨clock, ⟨board, called⟩⟩, notices⟩ := s
  cases called with
  | false => rfl
  | true => exact Environment.printed_eq_said _ _

/-- The answer changes the latch and nothing that a program sees. -/
theorem answer_spec (s : Session) :
    s.answer.2.cpu = s.cpu ∧ s.answer.2.clock = s.clock ∧ s.answer.2.bus = s.bus.takeCall.2 := by
  obtain ⟨cpu, ⟨clock, ⟨board, called⟩⟩, notices⟩ := s
  cases called with
  | false => exact ⟨rfl, rfl, rfl⟩
  | true => exact ⟨rfl, rfl, rfl⟩

/-- **A slice prints what its steps tell.** -/
theorem Unlatched.ran (hs : Unlatched s) (h : Abreast s t) (hran : Ran s s') :
    ∃ n t', Tells t n s'.answer.1 t' ∧ Abreast s'.answer.2 t' ∧ Unlatched s'.answer.2 ∧
      (n = 0 → s' = s ∧ s.clock.exhausted = true) := by
  obtain ⟨s₁, hreaches, hends⟩ := hran.exists_ends
  obtain ⟨n, t₁, htells, h₁, hs₁, hn⟩ := hs.reaches h hreaches
  obtain ⟨hcpu, hclock, hbus⟩ := answer_spec s'
  have habreast : ∀ {t'}, Abreast s' t' → Abreast s'.answer.2 t' :=
    fun h' => ⟨hcpu.trans h'.cpu, by rw [hbus]; exact h'.board⟩
  have hhead : Undisturbed s'.cpu → s'.clock.yieldRequested = false → Unlatched s'.answer.2 :=
    fun hu hy => ⟨by rw [hcpu]; exact hu, by rw [hbus]; rfl, by rw [hclock]; exact hy⟩
  rw [answer_text]
  cases hends with
  | exhausted hex =>
      rw [hs₁.called]
      exact ⟨n, t₁, htells, habreast h₁, hhead hs₁.undisturbed hs₁.unasked,
        fun hzero => ⟨hn hzero, hn hzero ▸ hex⟩⟩
  | idled hex hdue =>
      have hshadow := hs₁.undisturbed.shadow hdue
      obtain ⟨t₂, hidles, hcpu₂, hbus₂⟩ := exists_tells_idled (h₁.cpu ▸ hdue) (h₁.cpu ▸ hshadow)
        s₁.clock.haltNops.toNat
      have h₂ : Abreast s₁.idleOut t₂ := by
        refine ⟨?_, by rw [hbus₂]; exact h₁.board⟩
        rw [hcpu₂, idleOut_eq_idled]
        show _ = ({ t₁.cpu with regs := t₁.cpu.regs.refresh _, shadow := false } : Cpu)
        rw [← h₁.cpu]
        rfl
      have hcalled : s₁.idleOut.bus.called = false := hs₁.called
      rw [hcalled]
      have hsome : 0 < s₁.clock.haltNops.toNat := by
        have := s₁.clock.not_exhausted_iff.mp (Bool.eq_false_iff.mpr hex)
        rw [Clock.toNat_haltNops]
        omega
      refine ⟨_, t₂, htells.trans hidles, habreast h₂, hhead ?_ hs₁.unasked, fun hzero => by omega⟩
      exact ⟨hs₁.undisturbed.nmi, hs₁.undisturbed.interrupt, fun hcalm => Bool.false_ne_true hcalm.2⟩
  | @yielded s₂ hex hdue hnext hy =>
      obtain ⟨hundisturbed, hlatches, r, hstep, h₂, hspoken⟩ := hs₁.next h₁ hnext
      have htells₂ := htells.trans (.step hstep .start)
      rw [hspoken, List.nil_append, List.append_nil] at htells₂
      exact ⟨_, _, htells₂, habreast ⟨h₂.cpu, h₂.board⟩, hhead hundisturbed rfl,
        fun hzero => absurd hzero (by omega)⟩

/-- A session in step with one that lasts does not get stuck in a slice. -/
theorem Unlatched.ready (hs : Unlatched s) (h : Abreast s t) (hlasting : Lasting t) : s.Ready := by
  intro s₁ hreaches _
  obtain ⟨n, t₁, htells, h₁, -, -⟩ := hs.reaches h hreaches
  obtain ⟨r, bound, hstep⟩ := hlasting _ _ _ htells
  obtain ⟨after, hnext, -⟩ := step_eq_some_iff.mp hstep
  have hsome : (s₁.next bound).isSome = true := by
    rw [h₁.isSome_next, hnext]
    rfl
  obtain ⟨after', hnext'⟩ := Option.isSome_iff_exists.mp hsome
  exact ⟨after', bound, hnext'⟩

end Slice

namespace Session

/-- Runs a number of slices; also says what is printed. -/
def slices (bound : Nat) : (n : Nat) → Session → Option (List UInt8 × Session)
  | 0, s => some ([], s)
  | n + 1, s => do
      let (text, s) ← s.slice bound
      let (text', s) ← slices bound n s
      return (text ++ text', s)

variable {s s' s'' : Session} {bound bound' m n : Nat} {text text' : List UInt8}

theorem slices_succ_eq_some_iff {p : List UInt8 × Session} : s.slices bound (n + 1) = some p ↔
    ∃ q q', s.slice bound = some q ∧ q.2.slices bound n = some q' ∧ p = (q.1 ++ q'.1, q'.2) := by
  constructor
  · intro h
    obtain ⟨q, hslice, h⟩ := Option.bind_eq_some_iff.mp h
    obtain ⟨q', hrest, h⟩ := Option.bind_eq_some_iff.mp h
    exact ⟨q, q', hslice, hrest, (Option.some.inj h).symm⟩
  · rintro ⟨q, q', hslice, hrest, rfl⟩
    exact Option.bind_eq_some_iff.mpr ⟨q, hslice, Option.bind_eq_some_iff.mpr ⟨q', hrest, rfl⟩⟩

theorem slice_mono {p : List UInt8 × Session} (hle : bound ≤ bound') (h : s.slice bound = some p) :
    s.slice bound' = some p := by
  obtain ⟨s₁, hrun, rfl⟩ := Option.map_eq_some_iff.mp h
  exact Option.map_eq_some_iff.mpr ⟨s₁, run_mono hle hrun, rfl⟩

theorem slices_mono {p : List UInt8 × Session} (hle : bound ≤ bound')
    (h : s.slices bound n = some p) : s.slices bound' n = some p := by
  induction n generalizing s p with
  | zero => exact h
  | succ n ih =>
      obtain ⟨q, q', hslice, hrest, rfl⟩ := slices_succ_eq_some_iff.mp h
      exact slices_succ_eq_some_iff.mpr ⟨q, q', slice_mono hle hslice, ih hrest, rfl⟩

/-- Slices and the slices after them. -/
theorem returns_slices_add (h : Returns (s.slices · m) (text, s'))
    (h' : Returns (s'.slices · n) (text', s'')) :
    Returns (s.slices · (m + n)) (text ++ text', s'') := by
  obtain ⟨b, h⟩ := h
  obtain ⟨b', h'⟩ := h'
  induction m generalizing s text with
  | zero =>
      obtain ⟨rfl, rfl⟩ := Prod.mk.inj (Option.some.inj h)
      exact ⟨b', by rw [Nat.zero_add]; exact h'⟩
  | succ m ih =>
      obtain ⟨q, q', hslice, hrest, hq⟩ := slices_succ_eq_some_iff.mp h
      obtain ⟨rfl, rfl⟩ := Prod.mk.inj hq
      obtain ⟨b'', hboth⟩ := ih hrest
      refine ⟨max b b'', ?_⟩
      rw [Nat.add_right_comm]
      refine slices_succ_eq_some_iff.mpr ⟨q, _, slice_mono (Nat.le_max_left b b'') hslice,
        slices_mono (Nat.le_max_right b b'') hboth, ?_⟩
      rw [List.append_assoc]

/-- One slice. -/
theorem returns_slices_one (h : Returns (s.slice ·) (text, s')) :
    Returns (s.slices · 1) (text, s') := by
  obtain ⟨b, h⟩ := h
  exact ⟨b, slices_succ_eq_some_iff.mpr ⟨_, ([], s'), h, rfl, by rw [List.append_nil]⟩⟩

end Session

/-- Slices of one session and steps of another tell the same and leave them abreast. -/
structure KeepsUp (s t : Session) (n k : Nat) (text : List UInt8) (s' t' : Session) : Prop where
  slices : Returns (s.slices · n) (text, s')
  steps : Tells t k text t'
  abreast : Abreast s' t'
  unlatched : Unlatched s'

section KeepsUp

variable {s s' s'' t t' t'' : Session} {m n k l : Nat} {text text' : List UInt8}

theorem KeepsUp.trans (h : KeepsUp s t m k text s' t') (h' : KeepsUp s' t' n l text' s'' t'') :
    KeepsUp s t (m + n) (k + l) (text ++ text') s'' t'' :=
  ⟨Session.returns_slices_add h.slices h'.slices, h.steps.trans h'.steps, h'.abreast, h'.unlatched⟩

/-- **One slice is kept up with.**  If it takes no step, the last one has overrun by a whole slice. -/
theorem Unlatched.slice (hs : Unlatched s) (h : Abreast s t) (hlasting : Lasting t) :
    ∃ k text s' t', KeepsUp s t 1 k text s' t' ∧
      (k = 0 → s'.clock.overrun.toNat + sliceBudget.toNat ≤ s.clock.overrun.toNat) := by
  have hbegun := hs.begun sliceBudget
  have habreast : Abreast (s.begun sliceBudget) t := ⟨h.cpu, h.board⟩
  have htarget : (s.begun sliceBudget).clock.target.toNat = 100000 := rfl
  have hstops : ∃ bound, ∃ s₁ : Session, (s.begun sliceBudget).runOut bound (25000 + 1) = some s₁ :=
    runOut_stops (hbegun.ready habreast hlasting) (roomy_of_target (by omega)) (by omega)
  obtain ⟨bound, s₁, hrun⟩ := hstops
  have hran := ran_of_runOut hrun
  obtain ⟨k, t', htells, h', hs', hk⟩ := hbegun.ran habreast hran
  obtain ⟨bound', hreturns⟩ := returns_run_iff_ran.mpr hran
  have hslice : Returns (s.slice ·) (s₁.answer.1, s₁.answer.2) :=
    ⟨bound', Option.map_eq_some_iff.mpr ⟨s₁, hreturns, rfl⟩⟩
  refine ⟨k, s₁.answer.1, s₁.answer.2, t',
    ⟨Session.returns_slices_one hslice, htells, h', hs'⟩, ?_⟩
  intro hzero
  obtain ⟨rfl, hex⟩ := hk hzero
  obtain ⟨-, hclock, -⟩ := answer_spec (s.begun sliceBudget)
  have hcurrent : (s.begun sliceBudget).clock.current = s.clock.overrun := rfl
  rw [Clock.exhausted_iff, htarget, hcurrent] at hex
  rw [hclock, Clock.toNat_overrun, htarget, hcurrent, show sliceBudget.toNat = 100000 from rfl]
  omega

/-- Any number of slices is kept up with. -/
theorem Unlatched.slices (hs : Unlatched s) (h : Abreast s t) (hlasting : Lasting t) (n : Nat) :
    ∃ k text s' t', KeepsUp s t n k text s' t' := by
  induction n generalizing s t with
  | zero => exact ⟨0, [], s, t, ⟨0, rfl⟩, .start, h, hs⟩
  | succ n ih =>
      obtain ⟨k, text, s₁, t₁, hfirst, -⟩ := hs.slice h hlasting
      obtain ⟨l, text', s', t', hrest⟩ :=
        ih hfirst.unlatched hfirst.abreast (hlasting.tells hfirst.steps)
      rw [Nat.add_comm n 1]
      exact ⟨_, _, s', t', hfirst.trans hrest⟩

/-- Sooner or later a slice takes a step, since each that does not makes up for an overrun. -/
theorem Unlatched.slices_pos (hs : Unlatched s) (h : Abreast s t) (hlasting : Lasting t) :
    ∃ n k text s' t', KeepsUp s t n k text s' t' ∧ 0 < k := by
  induction hoverrun : s.clock.overrun.toNat using Nat.strongRecOn generalizing s t with
  | _ overrun ih =>
      obtain ⟨k, text, s₁, t₁, hfirst, hk⟩ := hs.slice h hlasting
      by_cases hzero : k = 0
      · have hless := hk hzero
        rw [show sliceBudget.toNat = 100000 from rfl] at hless
        obtain ⟨n, l, text', s', t', hrest, hl⟩ :=
          ih _ (by omega) hfirst.unlatched hfirst.abreast (hlasting.tells hfirst.steps) rfl
        exact ⟨_, _, _, s', t', hfirst.trans hrest, by omega⟩
      · exact ⟨1, k, text, s₁, t₁, hfirst, by omega⟩

/-- So enough slices take as many steps as one likes. -/
theorem Unlatched.slices_reach (hs : Unlatched s) (h : Abreast s t) (hlasting : Lasting t)
    (steps : Nat) : ∃ n k text s' t', KeepsUp s t n k text s' t' ∧ steps ≤ k := by
  induction steps generalizing s t with
  | zero => exact ⟨0, 0, [], s, t, ⟨⟨0, rfl⟩, .start, h, hs⟩, Nat.le_refl 0⟩
  | succ steps ih =>
      obtain ⟨m, k, text, s₁, t₁, hfirst, hk⟩ := hs.slices_pos h hlasting
      obtain ⟨n, l, text', s', t', hrest, hl⟩ :=
        ih hfirst.unlatched hfirst.abreast (hlasting.tells hfirst.steps)
      exact ⟨_, _, _, s', t', hfirst.trans hrest, by omega⟩

/-- Once a program has ended, slices print nothing more. -/
theorem Unlatched.slices_finished (hs : Unlatched s) (hfinished : s.finished = true) (n : Nat) :
    ∃ s', Returns (s.slices · n) ([], s') ∧ s'.finished = true := by
  have hdue := hs.undisturbed.due_eq_halted_iff.mpr hfinished
  have hshadow := hs.undisturbed.shadow hdue
  obtain ⟨k, text, s', t', hkept⟩ := hs.slices ⟨rfl, rfl⟩ (.of_halted hdue hshadow) n
  obtain ⟨rfl, hend⟩ := hkept.steps.of_halted hdue hshadow
  refine ⟨s', hkept.slices, hkept.unlatched.undisturbed.due_eq_halted_iff.mp ?_⟩
  rw [hkept.abreast.cpu]
  exact hend

end KeepsUp

/-- A program begins on a machine that has just been switched on, with nothing but the program
counter set. -/
theorem exists_load_of_start {program : List UInt8} {s : Session} (h : Session.start program = .ok s) :
    ∃ e, Environment.load program = .ok e ∧
      s = (Machine.powerOn .standard e).mapCpu (·.setPC programStart) := by
  unfold Session.start at h
  cases hload : Environment.load program with
  | error _ =>
      rw [hload] at h
      cases h
  | ok e =>
      rw [hload] at h
      exact ⟨e, rfl, (Except.ok.inj h).symm⟩

/-- A program begins with the latches down. -/
theorem unlatched_start {program : List UInt8} {s : Session} (h : Session.start program = .ok s) :
    Unlatched s := by
  obtain ⟨e, hload, rfl⟩ := exists_load_of_start h
  refine ⟨⟨rfl, rfl, fun hcalm => Bool.false_ne_true hcalm.1⟩, ?_, rfl⟩
  unfold Environment.load at hload
  split at hload
  · cases hload
  · split at hload
    · cases hload
    · obtain rfl := Except.ok.inj hload
      rfl

/--
**What slices print is what single steps tell.**  For a program whose instructions all come to an
end, what `n` slices print is what is to be printed for the writes to the trap port in some number of
single steps from the same start, each with the registers and the memory right after it.  The
processor and the memory are then those that the steps have led to.  The slices get as far as one
likes, and after the end of the program they print nothing.
-/
theorem slices_tell (program : List UInt8) (s : Session) (hstart : Session.start program = .ok s)
    (hlasting : Lasting s) :
    (∀ n, ∃ k text s' t, Returns (s.slices · n) (text, s') ∧ Tells s k text t ∧ s'.cpu = t.cpu ∧
      s'.bus.board = t.bus.board ∧
      (s'.finished = true → ∀ n', ∃ s'', Returns (s'.slices · n') ([], s'') ∧ s''.finished = true)) ∧
      ∀ steps, ∃ n k text s' t, Returns (s.slices · n) (text, s') ∧ Tells s k text t ∧
        s'.cpu = t.cpu ∧ s'.bus.board = t.bus.board ∧ steps ≤ k := by
  have hs := unlatched_start hstart
  refine ⟨fun n => ?_, fun steps => ?_⟩
  · obtain ⟨k, text, s', t, hkept⟩ := hs.slices ⟨rfl, rfl⟩ hlasting n
    exact ⟨k, text, s', t, hkept.slices, hkept.steps, hkept.abreast.cpu, hkept.abreast.board,
      fun hfinished n' => hkept.unlatched.slices_finished hfinished n'⟩
  · obtain ⟨n, k, text, s', t, hkept, hk⟩ := hs.slices_reach ⟨rfl, rfl⟩ hlasting steps
    exact ⟨n, k, text, s', t, hkept.slices, hkept.steps, hkept.abreast.cpu, hkept.abreast.board, hk⟩

/-- LD E,41; LD C,2; OUT (5),A; HALT: it prints a letter and ends. -/
def letterA : List UInt8 := [0x1E, 0x41, 0x0E, 0x02, 0xD3, 0x05, 0x76]

/-- Two slices print the letter, and no more of them will print anything else. -/
theorem slices_tell_letterA :
    ∃ s s' t k, Session.start letterA = .ok s ∧ Lasting s ∧ Returns (s.slices · 2) ([0x41], s') ∧
      Tells s k [0x41] t ∧ s'.cpu = t.cpu ∧ s'.finished = true ∧
      ∀ n, ∃ s'', Returns (s'.slices · n) ([], s'') := by
  have hlasting : ∃ s, Session.start letterA = .ok s ∧ Lasting s ∧
      ∃ s', Returns (s.slices · 2) ([0x41], s') ∧ s'.finished = true := by
    refine ⟨_, rfl, ?_, _, ⟨5, rfl⟩, rfl⟩
    exact .of_step ⟨2, rfl⟩ (.of_step ⟨2, rfl⟩ (.of_step ⟨2, rfl⟩ (.of_step ⟨2, rfl⟩
      (.of_halted rfl rfl))))
  obtain ⟨s, hstart, hlasting, s', hprinted, hfinished⟩ := hlasting
  obtain ⟨hslices, -⟩ := slices_tell letterA s hstart hlasting
  obtain ⟨k, text, s₁, t, hreturns, htells, hcpu, -, hafter⟩ := hslices 2
  obtain ⟨rfl, rfl⟩ := Prod.mk.inj (Returns.unique Session.slices_mono hreturns hprinted)
  refine ⟨s, _, t, k, hstart, hlasting, hprinted, htells, hcpu, hfinished, fun n => ?_⟩
  obtain ⟨s'', hnone, -⟩ := hafter hfinished n
  exact ⟨s'', hnone⟩

end Cpm

end Z80
