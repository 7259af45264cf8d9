/-
What the exerciser reports.

The tool and the library run the same sessions, each with a loop of its own.  The tool prints as it
goes and takes the notices away after each slice, while the library collects what is printed and
leaves the notices where they are.  Nothing that a machine does depends on its notices, so sessions
which differ in them alone go on alike (`hushed_slice`), and the loops stay side by side.

`Exerciser.run` speaks to a console of any monad.  What it says is a list of utterances, the same for
all of them, and the console is handed one after the other: this is what `Says` states.  It is closed
under sequencing, and the induction along the loop carries it together with what has been printed.
-/
import Z80.Exerciser
import Z80.Proofs.Machine

namespace Z80

/-! ### Machines without notices -/

namespace Machine

variable {β : Type}

/-- A machine that has nothing to say. -/
def hushed (m : Machine β) : Machine β := { m with notices := #[] }

theorem hushed_eq_iff {m m' : Machine β} :
    m.hushed = m'.hushed ↔ m.cpu = m'.cpu ∧ m.outside = m'.outside := by
  simp [hushed]

variable [Bus β]

theorem hushed_next (bound : Nat) {m m' : Machine β} (h : m.hushed = m'.hushed) :
    (m.next bound).map hushed = (m'.next bound).map hushed := by
  obtain ⟨hcpu, houtside⟩ := hushed_eq_iff.mp h
  simp only [next, hcpu, houtside, Option.map_map]
  rfl

theorem hushed_runOut (bound events : Nat) {m m' : Machine β} (h : m.hushed = m'.hushed) :
    (m.runOut bound events).map hushed = (m'.runOut bound events).map hushed := by
  induction events generalizing m m' with
  | zero => rfl
  | succ events ih =>
      obtain ⟨hcpu, houtside⟩ := hushed_eq_iff.mp h
      have hclock : m.clock = m'.clock := congrArg Timed.clock houtside
      rw [runOut_succ, runOut_succ, hcpu, hclock]
      by_cases hex : m'.clock.exhausted = true
      · simp only [if_pos hex, Option.map_some, h]
      by_cases hdue : m'.cpu.due = .halted
      · simp only [if_neg hex, if_pos hdue, Option.map_some, idleOut, hcpu, houtside, hclock]
        rfl
      simp only [if_neg hex, if_neg hdue]
      have hnext := hushed_next bound h
      cases hfirst : m.next bound with
      | none =>
          rw [hfirst, Option.map_none, eq_comm, Option.map_eq_none_iff] at hnext
          rw [hnext]
      | some m₁ =>
          rw [hfirst, Option.map_some, eq_comm, Option.map_eq_some_iff] at hnext
          obtain ⟨m₁', hnext', h₁⟩ := hnext
          obtain ⟨hcpu₁, houtside₁⟩ := hushed_eq_iff.mp h₁
          have hclock₁ : m₁'.clock = m₁.clock := congrArg Timed.clock houtside₁
          simp only [hnext', Option.bind_some, hclock₁]
          by_cases hy : m'.cpu.due = .instruction ∧ m₁.clock.yieldRequested = true
          · simp only [if_pos hy, Option.map_some, takeYield, mapClock, hcpu₁, houtside₁, hclock₁]
            rfl
          · simp only [if_neg hy]
            exact ih h₁.symm

end Machine

namespace Cpm

open Machine

variable {s s' : Session}

/-- An answer is given without a look at the notices. -/
theorem hushed_answer (h : s.hushed = s'.hushed) :
    Prod.map id hushed s.answer = Prod.map id hushed s'.answer := by
  obtain ⟨cpu, ⟨clock, ⟨board, called⟩⟩, notices⟩ := s
  obtain ⟨cpu', outside', notices'⟩ := s'
  obtain ⟨hcpu, houtside⟩ := hushed_eq_iff.mp h
  obtain rfl : cpu = cpu' := hcpu
  obtain rfl : _ = outside' := houtside
  cases called with
  | false => rfl
  | true => rfl

/-- Sessions that differ in their notices print the same in a slice, and go on so. -/
theorem hushed_slice (bound : Nat) (h : s.hushed = s'.hushed) :
    (s.slice bound).map (Prod.map id hushed) = (s'.slice bound).map (Prod.map id hushed) := by
  have hbegun : (s.begun sliceBudget).hushed = (s'.begun sliceBudget).hushed := by
    obtain ⟨hcpu, houtside⟩ := hushed_eq_iff.mp h
    simp only [begun, mapClock, hushed, hcpu, houtside]
  have hanswer : Prod.map id hushed ∘ Session.answer = (Prod.map id hushed ∘ Session.answer) ∘ hushed :=
    funext fun s => @hushed_answer s s.hushed rfl
  have hrun : (s.run bound sliceBudget).map hushed = (s'.run bound sliceBudget).map hushed :=
    hushed_runOut bound bound hbegun
  simp only [Session.slice, Option.map_map]
  rw [hanswer, ← Option.map_map, hrun, Option.map_map]

end Cpm

/-! ### What is said to a console -/

namespace Exerciser

open Cpm Machine

/-- Something that is said to a console. -/
inductive Utterance where
  | printed (text : String)
  | told (message : Message)
deriving DecidableEq, Repr

/-- Says something to a console. -/
def Console.utter {m : Type → Type} (console : Console m) : Utterance → m Unit
  | .printed text => console.print text
  | .told message => console.tell message

/-- What is printed of it. -/
def Utterance.text : Utterance → String
  | printed text => text
  | told _ => ""

/-- Everything that is printed, in order. -/
def printout (said : List Utterance) : String := String.join (said.map Utterance.text)

theorem printout_cons (u : Utterance) (said : List Utterance) :
    printout (u :: said) = u.text ++ printout said := by
  simp [printout]

theorem printout_append (said said' : List Utterance) :
    printout (said ++ said') = printout said ++ printout said' := by
  simp [printout]

/-- Messages are not printed. -/
theorem printout_told (messages : List Message) : printout (messages.map .told) = "" := by
  induction messages with
  | nil => rfl
  | cons message messages ih =>
      rw [List.map_cons, printout_cons, ih]
      rfl

/-- Whatever the console, this is what a program says to it, and this is its result. -/
def Says {α : Type} (program : ∀ (m : Type → Type) [Monad m], Console m → m α) (said : List Utterance)
    (result : α) : Prop :=
  ∀ (m : Type → Type) [Monad m] [LawfulMonad m] (console : Console m),
    program m console = do
      said.forM console.utter
      return result

namespace Says

variable {α α' : Type} {program : ∀ (m : Type → Type) [Monad m], Console m → m α}
  {next : ∀ (m : Type → Type) [Monad m], Console m → α → m α'} {said said' : List Utterance}
  {a : α} {a' : α'}

theorem nothing (a : α) : Says (fun _ _ _ => return a) [] a := by
  intro m _ _ console
  simp

/-- One program after the other. -/
theorem bind (h : Says program said a) (h' : Says (fun m _ console => next m console a) said' a') :
    Says (fun m _ console => program m console >>= next m console) (said ++ said') a' := by
  intro m _ _ console
  have hfirst := h m console
  have hsecond := h' m console
  simp only at hsecond
  simp only [hfirst, bind_assoc, pure_bind, hsecond, List.forM_eq_forM, List.forM_append]

theorem tell (message : Message) : Says (fun _ _ console => console.tell message) [.told message] () := by
  intro m _ _ console
  simp [Console.utter]

theorem print (text : String) : Says (fun _ _ console => console.print text) [.printed text] () := by
  intro m _ _ console
  simp [Console.utter]

theorem tellNotices (o : Options) (notices : List Notice) :
    Says (fun _ _ console => Exerciser.tellNotices console o notices)
      (((notices.filter o.shows).map .notice).map .told) () := by
  intro m _ _ console
  simp [Exerciser.tellNotices, Console.utter]

/-- A console that writes down what is said to it. -/
def recorder : Console (StateM (List Utterance)) where
  print text := modify (· ++ [.printed text])
  tell message := modify (· ++ [.told message])

theorem run_recorder (said log : List Utterance) :
    (said.forM recorder.utter).run log = ((), log ++ said) := by
  induction said generalizing log with
  | nil => exact Prod.ext rfl (List.append_nil log).symm
  | cons u said ih =>
      have hutter : (recorder.utter u).run log = ((), log ++ [u]) := by
        cases u <;> rfl
      have hboth : ((u :: said).forM recorder.utter).run log =
          (said.forM recorder.utter).run ((recorder.utter u).run log).2 := rfl
      rw [hboth, hutter, ih, List.append_assoc]
      rfl

/-- A program says one thing and has one result. -/
theorem unique {said' : List Utterance} {b : α} (h : Says program said a) (h' : Says program said' b) :
    said = said' ∧ a = b := by
  have hrecorded : ∀ (said : List Utterance) (a : α),
      (do said.forM recorder.utter; return a : StateM (List Utterance) α).run [] = (a, said) := by
    intro said a
    have hbind : (do said.forM recorder.utter; return a : StateM (List Utterance) α).run [] =
        (a, ((said.forM recorder.utter).run []).2) := rfl
    rw [hbind, run_recorder, List.nil_append]
  have hrun := congrArg (StateT.run · []) ((h _ recorder).symm.trans (h' _ recorder))
  simp only [hrecorded] at hrun
  obtain ⟨rfl, rfl⟩ := Prod.mk.inj hrun
  exact ⟨rfl, rfl⟩

end Says

/-! ### The two loops -/

/-- **The loops stay side by side.**  The tool has printed what the library has collected. -/
theorem says_resume (o : Options) (bound slices : Nat) {s s' : Session} (h : s.hushed = s'.hushed)
    (output : String) :
    ∃ said result, Says (fun _ _ console => resume console o bound slices output s) said result ∧
      Run.resume bound o.bound slices output s' =
        result.map (fun p => ⟨p.1, p.2.elapsed, p.2.finished⟩) ∧
      ∀ p, result = some p → p.1 = output ++ printout said := by
  induction slices generalizing s s' output with
  | zero => exact ⟨[], none, .nothing none, rfl, fun p hp => absurd hp (by simp)⟩
  | succ slices ih =>
      obtain ⟨hcpu, houtside⟩ := hushed_eq_iff.mp h
      have hfinished : s.finished = s'.finished := congrArg (·.regs.halted) hcpu
      have helapsed : s.elapsed = s'.elapsed := congrArg (·.clock.total) houtside
      have hgoes : s.goesOn o.bound = s'.goesOn o.bound := by
        simp only [Session.goesOn, hfinished, helapsed]
      unfold resume Run.resume
      by_cases hon : s'.goesOn o.bound = true
      · simp only [hgoes, if_pos hon]
        have hslice := hushed_slice bound h
        cases hfirst : s.slice bound with
        | none =>
            rw [hfirst, Option.map_none, eq_comm, Option.map_eq_none_iff] at hslice
            rw [hslice]
            exact ⟨[], none, .nothing none, rfl, fun p hp => absurd hp (by simp)⟩
        | some q =>
            rw [hfirst, Option.map_some, eq_comm, Option.map_eq_some_iff] at hslice
            obtain ⟨⟨bytes', t'⟩, hslice', hq⟩ := hslice
            obtain ⟨bytes, t⟩ := q
            obtain ⟨rfl, ht⟩ := Prod.mk.inj hq
            obtain ⟨said, result, hsays, hresume, hprinted⟩ :=
              @ih t.hear.2 t' ht.symm (output ++ text bytes')
            simp only [hslice']
            refine ⟨_, result, .bind (.print (text bytes'))
              (.bind (.tellNotices o t.notices.toList) hsays), hresume, ?_⟩
            intro p hp
            rw [printout_append, printout_append, printout_told, hprinted p hp]
            simp [printout, Utterance.text, String.append_assoc]
      · simp only [hgoes, if_neg hon]
        refine ⟨[], some (output, s), .nothing _, ?_, ?_⟩
        · simp [helapsed, hfinished]
        · intro p hp
          obtain rfl := Option.some.inj hp
          simp [printout]

/-- What the tool has to say at the end is told and not printed. -/
theorem says_verdict (output : String) (s : Session) :
    ∃ messages : List Message, Says (fun _ _ console => do
        console.tell (.finished s.elapsed)
        if !s.finished then console.tell .limitReached
        return some (s.finished && !reportsError output))
      (messages.map .told) (some (s.finished && !reportsError output)) := by
  by_cases hfinished : s.finished = true
  · refine ⟨[.finished s.elapsed], .bind (.tell (.finished s.elapsed)) ?_⟩
    simp only [hfinished]
    exact .nothing _
  · refine ⟨[.finished s.elapsed, .limitReached], .bind (.tell (.finished s.elapsed)) ?_⟩
    simp only [Bool.eq_false_iff.mpr hfinished]
    exact .bind (.tell .limitReached) (.nothing _)

/--
**The tool reports what the library finds.**  Whatever the program, the options and the bound, what
the tool says and its verdict are the same for every console.  If the library refuses the program, the
tool fails and prints nothing.  If the library has a result, the tool succeeds just when the run has
passed, and what it prints is the output of the run.  If the bound is too small for the one, it is so
for the other.  A limit of zero stands for 2⁶⁴ - 1 T-states.
-/
theorem run_reports (o : Options) (bound : Nat) (program : List UInt8) :
    ∃ said verdict,
      Says (fun _ _ console => run console o bound (.ok program)) said verdict ∧
      match Run.ofProgram bound (if o.limit = 0 then 2 ^ 64 - 1 else o.limit) program with
      | .error _ => verdict = some false ∧ printout said = ""
      | .ok none => verdict = none
      | .ok (some r) => verdict = some r.passed ∧ printout said = r.output := by
  have hbound : (if o.limit = 0 then 2 ^ 64 - 1 else o.limit) = o.bound := rfl
  rw [hbound]
  cases hstart : Session.start program with
  | error why =>
      simp only [run, Run.ofProgram, hstart]
      exact ⟨[.told (.cannotRun o.program why)] ++ [], some false,
        .bind (.tell (.cannotRun o.program why)) (.nothing (some false)), rfl, rfl⟩
  | ok s =>
      simp only [run, Run.ofProgram, hstart]
      obtain ⟨said, result, hsays, hresume, hprinted⟩ := @says_resume o bound bound s s rfl ""
      have hlibrary : (Except.ok s >>= fun s => pure (Run.resume bound o.bound bound "" s) :
          Except LoadError (Option Run)) = .ok (Run.resume bound o.bound bound "" s) := rfl
      rw [hlibrary, hresume]
      cases result with
      | none =>
          exact ⟨_, none, .bind (.tell (.running o.program)) (.bind hsays (.nothing none)), rfl⟩
      | some p =>
          obtain ⟨output, s₁⟩ := p
          have htold : output = printout said := (hprinted _ rfl).trans String.empty_append
          obtain ⟨messages, hverdict⟩ := says_verdict output s₁
          refine ⟨_, _, .bind (.tell (.running o.program)) (.bind hsays hverdict), rfl, ?_⟩
          rw [printout_append, printout_append, printout_told, htold]
          simp [printout, Utterance.text]

end Exerciser

end Z80
