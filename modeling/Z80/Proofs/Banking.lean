/-
Banked memory as plain memory that makes the processor wait.

While each window shows a bank of its own and none of them is ROM, a banked memory is 64K of
RAM cut into four: what is written at an address is read back there and nowhere else
(`Shows.store`).  Beside the same ports it mirrors the plain board, so a machine on it does what
a machine on the plain board does, and its clock is ahead by what the contention table says for
the accesses to contended windows.
-/
import Z80.Bus.Board
import Z80.Memory.Banked
import Z80.Proofs.Board
import Z80.Proofs.Waiting

namespace Z80

namespace BankedMemory

/-- Each window shows a RAM bank of its own, and together they hold what a plain memory holds. -/
structure Shows (m : BankedMemory) (flat : Memory) : Prop where
  distinct : ∀ w w', m.mapped w = m.mapped w' → w = w'
  ram : ∀ w, m.isROM (m.mapped w) = false
  bytes : ∀ address, peek flat address = peek m address

/-- Is it an access to a contended window? -/
def slows (m : BankedMemory) : Access → Bool
  | .read address | .write address _ => m.contended.get (windowOf address)
  | .input _ | .output _ _ => false

/-- What the contention table says for the accesses to contended windows, taken together. -/
def delays (m : BankedMemory) (asked : List Asked) : Nat :=
  ((asked.filter fun a => m.slows a.access).map fun a =>
    (m.contention.delayAt a.clock.current).toNat).sum

variable {m : BankedMemory} {flat : Memory}

/-- Addresses in one window with the same place in their bank are the same. -/
theorem eq_of_window_of_offset {address address' : UInt16}
    (hwindow : windowOf address = windowOf address')
    (hoffset : address.toNat % 1 <<< 14 = address'.toNat % 1 <<< 14) : address = address' := by
  have hdiv : address.toNat / 0x4000 = address'.toNat / 0x4000 := congrArg Fin.val hwindow
  apply UInt16.toNat_inj.1
  simp only [Nat.one_shiftLeft] at hoffset
  omega

/-- A byte written through a window of its own is seen at its address and at no other. -/
theorem Shows.peek_store (h : m.Shows flat) (address address' : UInt16) (v : UInt8) :
    peek (Storage.store m address v) address' = if address = address' then v else peek m address' := by
  have hstore : peek (Storage.store m address v) address' =
      ((m.banks.set (m.mapped (windowOf address))
        (m.banks[m.mapped (windowOf address)].set address.toNat v))[m.mapped (windowOf address')]).get
          address'.toNat := by
    simp only [Storage.store, h.ram]
    rfl
  rw [hstore]
  by_cases hwindow : windowOf address = windowOf address'
  · have hoffset : address.toNat % 1 <<< 14 = address'.toNat % 1 <<< 14 ↔ address = address' :=
      ⟨eq_of_window_of_offset hwindow, fun h => h ▸ rfl⟩
    simp only [hwindow, Fin.getElem_fin, Vector.getElem_set_self, Store.get_set, hoffset]
    rfl
  · have hbank : (m.mapped (windowOf address)).val ≠ (m.mapped (windowOf address')).val :=
      fun hbank => hwindow (h.distinct _ _ (Fin.ext hbank))
    have haddress : address ≠ address' := fun h => hwindow (h ▸ rfl)
    rw [if_neg haddress]
    simp only [Fin.getElem_fin, Vector.getElem_set_ne _ _ hbank]
    rfl

/-- Windows go on showing RAM banks of their own, with the bytes of the plain memory. -/
theorem Shows.store (h : m.Shows flat) (address : UInt16) (v : UInt8) :
    (Storage.store m address v).Shows (Storage.store flat address v) := by
  have hbytes : ∀ address', peek (Storage.store flat address v) address' =
      peek (Storage.store m address v) address' := by
    intro address'
    rw [Memory.peek_store, h.peek_store, h.bytes]
  have hwindows := h.distinct
  have hrom := h.ram
  simp only [Storage.store, h.ram] at hbytes ⊢
  exact ⟨hwindows, hrom, hbytes⟩

/-- Beside the same ports, banked memory carries the bytes of the plain memory that it shows. -/
theorem mirrors : Bus.Mirrors fun (b : Board BankedMemory) (c : Board Memory) =>
    b.memory.Shows c.memory ∧ c.ports = b.ports := by
  constructor
  · rintro b c ⟨hshows, hports⟩ clock clock' a
    cases a with
    | read address => exact (hshows.bytes address).symm
    | input port => exact congrArg (Ports.input · port) hports.symm
    | write address v => rfl
    | output port v => rfl
  · rintro b c ⟨hshows, hports⟩ clock clock' a
    cases a with
    | read address => exact ⟨hshows, hports⟩
    | input port => exact ⟨hshows, hports⟩
    | write address v => exact ⟨hshows.store address v, hports⟩
    | output port v => exact ⟨hshows, congrArg (Ports.output · port v) hports⟩

/-! ### What the contention table comes to -/

theorem delays_store (m : BankedMemory) (address : UInt16) (v : UInt8) (asked : List Asked) :
    (Storage.store m address v).delays asked = m.delays asked := by
  simp only [Storage.store]
  split <;> rfl

theorem delays_cons (m : BankedMemory) (a : Asked) (asked : List Asked) :
    m.delays (a :: asked) =
      (if m.slows a.access then (m.contention.delayAt a.clock.current).toNat else 0) +
        m.delays asked := by
  unfold delays
  rw [List.filter_cons]
  split
  · rfl
  · exact (Nat.zero_add _).symm

/-- A write is without effect on contention, so the table tells the waits of a whole run. -/
theorem waits_banked (b : Board BankedMemory) (asked : List Asked) :
    Bus.waits b asked = b.memory.delays asked := by
  induction asked generalizing b with
  | nil => rfl
  | cons a asked ih =>
      rw [Bus.waits, ih, delays_cons]
      rcases a with ⟨a, clock⟩
      cases a with
      | read address => rfl
      | input port => rfl
      | write address v => exact congrArg (_ + ·) (delays_store b.memory address v asked)
      | output port v => rfl

theorem waits_flat (c : Board Memory) (asked : List Asked) : Bus.waits c asked = 0 := by
  induction asked generalizing c with
  | nil => rfl
  | cons a asked ih =>
      rw [Bus.waits, ih]
      cases a.access <;> rfl

/-- Blank RAM that is slow to answer from its lowest window, at the start of a budget period. -/
def sluggish : BankedMemory where
  count := 4
  romCount := 0
  banks := Vector.replicate 4 (Store.uniform 14 0)
  windows := #v[0, 1, 2, 3]
  contended := #v[true, false, false, false]
  contention := ⟨#[6, 5, 4, 3, 2, 1]⟩

theorem sluggish_shows : sluggish.Shows Memory.blank := by
  refine ⟨by decide, by decide, fun address => ?_⟩
  have hbank : ∀ bank : Fin sluggish.count, sluggish.banks[bank] = Store.uniform 14 0 :=
    fun bank => Vector.getElem_replicate bank.isLt
  have hpeek : peek sluggish address = sluggish.banks[sluggish.mapped (windowOf address)].get address.toNat := rfl
  rw [hpeek, hbank]
  exact (Store.get_uniform 16 0 _).trans (Store.get_uniform 14 0 _).symm

end BankedMemory

namespace Machine

/-- The machine with plain memory in the place of the banked one. -/
def plain (m : Machine (Board BankedMemory)) (flat : Memory) : Machine (Board Memory) :=
  ⟨m.cpu, ⟨m.clock, ⟨flat, m.bus.ports⟩⟩, m.notices⟩

/--
**Waiting costs time and nothing else.**  Machines with the same processor, on buses that mirror
each other, are alike after every number of steps, or neither of them gets that far: the
processors agree, the buses still mirror each other, they have been asked for the same things and
the same bytes have gone over the lines, and the clocks differ by the waits.

So a machine whose windows show four RAM banks does what it does with plain memory of the same
bytes, and its clock is ahead by what the contention table says for the accesses to contended
windows, each at the clock reading at which it starts.
-/
theorem steps_waits :
    (∀ {β γ : Type} [Bus β] [Bus γ] (R : β → γ → Prop), Bus.Mirrors R →
      ∀ (m : Machine β) (m' : Machine γ), m'.cpu = m.cpu → R m.bus m'.bus → ∀ bound n : Nat,
        (m.logged.steps bound n).map unlogged = m.steps bound n ∧
        (m'.logged.steps bound n).map unlogged = m'.steps bound n ∧
        Option.Rel (fun after after' => after'.cpu = after.cpu ∧ R after.bus.bus after'.bus.bus ∧
            Bus.traffic m.bus after.bus.log = Bus.traffic m'.bus after'.bus.log ∧
            after.clock.total + m'.clock.total + Bus.waits m'.bus after'.bus.log =
              after'.clock.total + m.clock.total + Bus.waits m.bus after.bus.log)
          (m.logged.steps bound n) (m'.logged.steps bound n)) ∧
    (∀ (m : Machine (Board BankedMemory)) (flat : Memory), m.bus.memory.Shows flat →
      ∀ bound n : Nat,
        Option.Rel (fun after after' => after'.cpu = after.cpu ∧
            after.bus.bus.memory.Shows after'.bus.bus.memory ∧
            after'.bus.bus.ports = after.bus.bus.ports ∧
            Bus.traffic m.bus after.bus.log = Bus.traffic (m.plain flat).bus after'.bus.log ∧
            after.clock.total = after'.clock.total + m.bus.memory.delays after.bus.log)
          (m.logged.steps bound n) ((m.plain flat).logged.steps bound n)) := by
  constructor
  · intro β γ _ _ R hR m m' hcpu h bound n
    exact ⟨steps_unlogged bound n m.logged, steps_unlogged bound n m'.logged,
      steps_mirrored hR hcpu h bound n⟩
  · intro m flat h bound n
    have hcpu : (m.plain flat).cpu = m.cpu := rfl
    refine rel_imp (steps_mirrored BankedMemory.mirrors hcpu ⟨h, rfl⟩ bound n) ?_
    rintro after after' ⟨hcpu', ⟨hshows, hports⟩, htraffic, htotal⟩
    rw [BankedMemory.waits_banked, BankedMemory.waits_flat] at htotal
    have hclock : (m.plain flat).clock.total = m.clock.total := rfl
    exact ⟨hcpu', hshows, hports, htraffic, by omega⟩

/-- The wait of a first NOP lets the second one start where the table ends. -/
theorem steps_waits_contended :
    ∃ (m : Machine (Board BankedMemory)) (after : Machine (Logged (Board BankedMemory)))
      (after' : Machine (Logged (Board Memory))),
      m.bus = .ofMemory .sluggish ∧ m.bus.memory.Shows Memory.blank ∧
        m.steps 1 2 = some after.unlogged ∧
        (m.plain Memory.blank).steps 1 2 = some after'.unlogged ∧
        after'.cpu = after.cpu ∧ m.bus.memory.delays after.bus.log = 6 ∧
        after.clock.total = 14 ∧ after'.clock.total = 8 := by
  have hdelays : ((powerOn .standard (Board.ofMemory BankedMemory.sluggish)).logged.steps 1 2).map
      (fun after => BankedMemory.sluggish.delays after.bus.log) = some 6 := rfl
  have htotal : ((powerOn .standard (Board.ofMemory BankedMemory.sluggish)).logged.steps 1 2).map
      (fun after => after.clock.total) = some 14 := rfl
  obtain ⟨m, hm⟩ : ∃ m : Machine (Board BankedMemory), m = powerOn .standard (.ofMemory .sluggish) :=
    ⟨_, rfl⟩
  have hbus : m.bus = .ofMemory .sluggish := hm ▸ rfl
  have hshows : m.bus.memory.Shows Memory.blank := hbus ▸ BankedMemory.sluggish_shows
  obtain ⟨hlogged, hlogged', -⟩ :=
    steps_waits.1 _ BankedMemory.mirrors m (m.plain Memory.blank) rfl ⟨hshows, rfl⟩ 1 2
  have hsteps := steps_waits.2 m Memory.blank hshows 1 2
  rw [← hm] at hdelays htotal
  generalize m.logged.steps 1 2 = after? at hlogged hsteps hdelays htotal
  generalize (m.plain Memory.blank).logged.steps 1 2 = after?' at hlogged' hsteps
  cases hsteps with
  | none => cases htotal
  | @some after after' h =>
      obtain ⟨hcpu, -, -, -, hclock⟩ := h
      replace htotal : after.clock.total = 14 := Option.some.inj htotal
      replace hdelays : m.bus.memory.delays after.bus.log = 6 := by
        rw [hbus]
        exact Option.some.inj hdelays
      rw [hdelays, htotal] at hclock
      exact ⟨m, after, after', hbus, hshows, hlogged.symm, hlogged'.symm, hcpu, hdelays, htotal,
        by omega⟩

end Machine

end Z80
