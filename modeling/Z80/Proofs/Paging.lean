/-
Banked memory as a store.

`Pool` is what banked memory comes to when one forgets how it is kept: a byte for each bank and
offset, and for each window the number of the bank that it shows.  A host maps banks, loads them and
sets up contention, and the processor reads and writes; `BankedMemory.Use` lists these, and each of
them does to a pool what one would say it does.  `Holds` ties the two together, and every use keeps it
(`use_holds`), so after any sequence of uses the banks hold what the pool says.

What is read at an address, and where a written byte is seen, follows for every banked memory
whatever has been done to it.  Since writing is the only thing a processor can do to memory, it
changes neither the mapping nor a bank of ROM, however long it runs (`calls_keeps`).
-/
import Z80.Memory.Banked
import Z80.Proofs.Calls

namespace Z80

/-- A byte that is loaded is seen where it has been put. -/
theorem Store.get_load {n : Nat} (s : Store n) (start : Nat) (bytes : List UInt8)
    (hfits : start + bytes.length ≤ 2 ^ n) {i : Nat} (hi : i < 2 ^ n) :
    (s.load start bytes).get i =
      if start ≤ i then (bytes[i - start]?).getD (s.get i) else s.get i := by
  induction bytes generalizing s start with
  | nil => simp [load]
  | cons b bytes ih =>
      have hlength : start + 1 + bytes.length ≤ 2 ^ n := by
        rw [List.length_cons] at hfits
        omega
      have hstart : start % 1 <<< n = start := by
        rw [Nat.one_shiftLeft, Nat.mod_eq_of_lt]
        omega
      have hi' : i % 1 <<< n = i := by rw [Nat.one_shiftLeft, Nat.mod_eq_of_lt hi]
      rw [load, ih (s.set start b) (start + 1) hlength, get_set, hstart, hi']
      rcases Nat.lt_trichotomy start i with hlt | rfl | hgt
      · have hindex : i - start = i - (start + 1) + 1 := by omega
        rw [if_pos (by omega), if_neg (by omega), if_pos (by omega), hindex, List.getElem?_cons_succ]
      · rw [if_neg (by omega), if_pos rfl, if_pos (Nat.le_refl start), Nat.sub_self]
        rfl
      · rw [if_neg (by omega), if_neg (by omega), if_neg (by omega)]

namespace BankedMemory

/-! ### Uses -/

/-- What can be done to banked memory. -/
inductive Use where
  | map (window bank : Nat)
  | load (bank : Nat) (bytes : List UInt8)
  | setContended (window : Nat) (contended : Bool)
  | setContention (table : ContentionTable)
  /-- The processor reads a byte, at some reading of the clock. -/
  | read (clock : Clock) (address : UInt16)
  /-- The processor writes a byte. -/
  | write (clock : Clock) (address : UInt16) (value : UInt8)

/-- Banked memory after it has answered an access. -/
def answered (m : BankedMemory) (clock : Clock) (a : Access) : BankedMemory :=
  (Bus.respond (Board.ofMemory m) clock a).bus.memory

/-- Banked memory after it has been used. -/
def use (m : BankedMemory) : Use → BankedMemory
  | .map window bank => m.map window bank
  | .load bank bytes => m.loadBank bank bytes
  | .setContended window contended => m.setContended window contended
  | .setContention table => m.setContention table
  | .read clock address => m.answered clock (.read address)
  | .write clock address value => m.answered clock (.write address value)

/-- Banked memory after it has been used for one thing after the other. -/
def uses (m : BankedMemory) (us : List Use) : BankedMemory := us.foldl use m

/-- Does a use name a bank or a window that does not exist? -/
def Use.Misses (m : BankedMemory) : Use → Prop
  | map window bank => ¬ (window < 4 ∧ bank < m.count)
  | load bank _ => ¬ bank < m.count
  | setContended window _ => ¬ window < 4
  | setContention _ | read .. | write .. => False

/-- The byte of a bank, if there is such a bank. -/
def byte? (m : BankedMemory) (bank offset : Nat) : Option UInt8 := (m.bank? bank).map (·.get offset)

/-- Where in its bank the byte at an address is. -/
def offsetOf (address : UInt16) : Nat := address.toNat % 0x4000

theorem offsetOf_lt (address : UInt16) : offsetOf address < 0x4000 := Nat.mod_lt _ (by decide)

variable (m : BankedMemory)

theorem byte?_of_lt {bank : Nat} (h : bank < m.count) (offset : Nat) :
    m.byte? bank offset = some (m.banks[bank].get offset) := by
  rw [byte?, bank?, Vector.getElem?_eq_getElem h]
  rfl

/-- Another bank in the place of one is seen there and nowhere else. -/
theorem byte?_set {bank : Nat} (h : bank < m.count) (b : Bank) (bank' offset : Nat) :
    ({ m with banks := m.banks.set bank b } : BankedMemory).byte? bank' offset =
      if bank' = bank then some (b.get offset) else m.byte? bank' offset := by
  unfold byte? bank?
  by_cases hbank : bank' = bank
  · subst hbank
    rw [if_pos rfl, Vector.getElem?_set_self]
    rfl
  · rw [if_neg hbank, Vector.getElem?_set_ne _ (Ne.symm hbank)]

theorem get_offsetOf (b : Bank) (address : UInt16) : b.get (offsetOf address) = b.get address.toNat :=
  b.get_mod address.toNat

/-! ### Reading and writing -/

/-- A byte is looked up in the bank that its window shows. -/
theorem byte?_mapped (address : UInt16) :
    m.byte? (m.mapped (windowOf address)) (offsetOf address) = some (peek m address) := by
  rw [byte?_of_lt m (m.mapped (windowOf address)).isLt, get_offsetOf]
  rfl

/-- The bank that a window shows exists. -/
theorem isSome_bank?_mapped (window : Fin 4) : (m.bank? (m.mapped window)).isSome = true := by
  rw [bank?, Vector.getElem?_eq_getElem (m.mapped window).isLt]
  rfl

/-- Writing changes nothing but the banks. -/
theorem store_eq (address : UInt16) (v : UInt8) :
    ∃ banks : Vector Bank m.count, Storage.store m address v = { m with banks := banks } := by
  simp only [Storage.store]
  split
  · exact ⟨m.banks, rfl⟩
  · exact ⟨_, rfl⟩

/-- Writing changes one byte, or none if the window shows ROM. -/
theorem byte?_store (address : UInt16) (v : UInt8) (bank : Nat) {offset : Nat}
    (hoffset : offset < 0x4000) :
    (Storage.store m address v : BankedMemory).byte? bank offset =
      if bank = m.mapped (windowOf address) ∧ offset = offsetOf address ∧ m.isROM bank = false then some v
      else m.byte? bank offset := by
  have hget (b : Bank) : (b.set address.toNat v).get offset =
      if offset = offsetOf address then v else b.get offset := by
    have haddress : address.toNat % 1 <<< 14 = offsetOf address := rfl
    have hmod : offset % 1 <<< 14 = offset := Nat.mod_eq_of_lt hoffset
    rw [Store.get_set, haddress, hmod]
    simp only [eq_comm]
  let shown := m.mapped (windowOf address)
  simp only [Storage.store]
  by_cases hrom : m.isROM shown = true
  · rw [if_pos hrom, if_neg]
    rintro ⟨rfl, -, hram⟩
    exact absurd (hrom.symm.trans hram) (by simp)
  · rw [if_neg hrom, byte?_set m shown.isLt, hget]
    by_cases hbank : bank = shown
    · subst hbank
      have hram := eq_false_of_ne_true hrom
      rw [if_pos rfl, byte?_of_lt m shown.isLt]
      simp only [shown, true_and, hram, and_true]
      split <;> rfl
    · rw [if_neg hbank, if_neg fun h => hbank h.1]

/-- A written byte is seen through every window that shows its bank, at the same offset, and nowhere else. -/
theorem peek_store (address : UInt16) (v : UInt8) (address' : UInt16) :
    peek (Storage.store m address v) address' =
      if m.mapped (windowOf address') = m.mapped (windowOf address) ∧ offsetOf address' = offsetOf address ∧
        m.isROM (m.mapped (windowOf address)) = false then v
      else peek m address' := by
  have hread := byte?_mapped (Storage.store m address v) address'
  have hmapped : ((Storage.store m address v : BankedMemory).mapped (windowOf address')).val =
      m.mapped (windowOf address') := by
    obtain ⟨banks, hstore⟩ := m.store_eq address v
    rw [hstore]
    rfl
  rw [hmapped, byte?_store m address v _ (offsetOf_lt address'), byte?_mapped] at hread
  refine Option.some.inj (hread.symm.trans ?_)
  rw [apply_ite some]
  simp only [← Fin.ext_iff]
  grind

/-- A use that names what does not exist changes nothing. -/
theorem use_of_misses {u : Use} (h : u.Misses m) : m.use u = m := by
  cases u with
  | map window bank =>
      show m.map window bank = m
      unfold map
      split
      · rename_i hwindow
        exact dif_neg fun hbank => h ⟨hwindow, hbank⟩
      · rfl
  | load bank bytes => exact dif_neg h
  | setContended window contended => exact dif_neg h
  | setContention table => exact h.elim
  | read clock address => exact h.elim
  | write clock address value => exact h.elim

end BankedMemory

/-! ### The bytes and the mapping -/

/-- Bytes by bank and offset, and the bank that each window shows. -/
structure Pool where
  /-- How many banks there are. -/
  count : Nat
  /-- How many of them, from the first on, are ROM. -/
  romCount : Nat
  byte : (bank offset : Nat) → UInt8
  shown : Fin 4 → Nat

namespace Pool

/-- A pool of blank banks, ROM first; the windows show the first banks, or the last one. -/
def blank (romCount ramCount : Nat) : Pool :=
  { count := romCount + ramCount, romCount, byte := fun _ _ => 0
    shown := fun w => min w (romCount + ramCount - 1) }

/-- The pool with other bytes in one bank. -/
def refill (p : Pool) (bank : Nat) (bytes : Nat → UInt8) : Pool :=
  { p with byte := fun b => if b = bank then bytes else p.byte b }

/-- What a use makes of a pool. -/
def use (p : Pool) : BankedMemory.Use → Pool
  | .map window bank =>
      if bank < p.count then { p with shown := fun w => if w.val = window then bank else p.shown w } else p
  | .load bank bytes => p.refill bank fun offset => (bytes[offset]?).getD (p.byte bank offset)
  | .write _ address value =>
      let bank := p.shown (BankedMemory.windowOf address)
      if bank < p.romCount then p
      else p.refill bank fun offset =>
        if offset = BankedMemory.offsetOf address then value else p.byte bank offset
  | .setContended .. | .setContention _ | .read .. => p

/-- A pool that has been used for one thing after the other. -/
def uses (p : Pool) (us : List BankedMemory.Use) : Pool := us.foldl use p

end Pool

namespace BankedMemory

/-- Banked memory has the banks of a pool, with its bytes in them and its mapping. -/
structure Holds (m : BankedMemory) (p : Pool) : Prop where
  count : m.count = p.count
  romCount : m.romCount = p.romCount
  byte : ∀ bank < p.count, ∀ offset < 0x4000, m.byte? bank offset = some (p.byte bank offset)
  shown : ∀ w, (m.mapped w).val = p.shown w

variable {m : BankedMemory} {p : Pool}

theorem create_holds {romCount ramCount : Nat} (h : 0 < romCount + ramCount) :
    ∃ m, create romCount ramCount = .ok m ∧ m.Holds (.blank romCount ramCount) := by
  refine ⟨_, dif_pos h, rfl, rfl, fun bank hbank offset _ => ?_, fun w => ?_⟩
  · have hget : (Vector.replicate (romCount + ramCount) (Store.uniform 14 0))[bank] =
        Store.uniform 14 0 := Vector.getElem_replicate _
    rw [byte?_of_lt _ hbank, hget, Store.get_uniform]
    rfl
  · simp [mapped, Pool.blank]

theorem Holds.map (h : m.Holds p) (window bank : Nat) :
    (m.map window bank).Holds (p.use (.map window bank)) := by
  by_cases hexists : window < 4 ∧ bank < m.count
  · obtain ⟨hwindow, hbank⟩ := hexists
    have hpool : bank < p.count := h.count ▸ hbank
    rw [BankedMemory.map, dif_pos hwindow, dif_pos hbank, Pool.use, if_pos hpool]
    refine ⟨h.count, h.romCount, h.byte, fun w => ?_⟩
    simp only [mapped, Fin.getElem_fin, Vector.getElem_set]
    by_cases hw : w.val = window
    · rw [if_pos hw.symm, if_pos hw]
    · rw [if_neg (Ne.symm hw), if_neg hw]
      exact h.shown w
  · have hunchanged : m.map window bank = m := m.use_of_misses (u := .map window bank) hexists
    rw [hunchanged, Pool.use]
    split
    · rename_i hpool
      refine ⟨h.count, h.romCount, h.byte, fun w => (h.shown w).trans (if_neg ?_).symm⟩
      rintro rfl
      exact hexists ⟨w.isLt, h.count ▸ hpool⟩
    · exact h

/-- Other bytes in a bank are other bytes in the pool. -/
theorem Holds.refill (h : m.Holds p) {bank : Nat} (hbank : bank < m.count) (b : Bank) {bytes : Nat → UInt8}
    (hbytes : ∀ offset < 0x4000, b.get offset = bytes offset) :
    ({ m with banks := m.banks.set bank b } : BankedMemory).Holds (p.refill bank bytes) := by
  refine ⟨h.count, h.romCount, fun bank' hbank' offset hoffset => ?_, h.shown⟩
  rw [byte?_set m hbank]
  by_cases heq : bank' = bank
  · simp [Pool.refill, heq, hbytes offset hoffset]
  · simp only [Pool.refill, if_neg heq]
    exact h.byte bank' hbank' offset hoffset

theorem Holds.load (h : m.Holds p) (bank : Nat) (bytes : List UInt8) :
    (m.loadBank bank bytes).Holds (p.use (.load bank bytes)) := by
  by_cases hbank : bank < m.count
  · rw [loadBank, dif_pos hbank]
    refine h.refill hbank _ fun offset hoffset => ?_
    have hfits : 0 + (bytes.take Bank.bytes).length ≤ 2 ^ 14 := by
      rw [Nat.zero_add]
      exact List.length_take_le _ _
    have htake : (bytes.take Bank.bytes)[offset]? = bytes[offset]? := List.getElem?_take_of_lt hoffset
    have hold := h.byte bank (h.count ▸ hbank) offset hoffset
    rw [byte?_of_lt m hbank, Option.some.injEq] at hold
    rw [Store.get_load _ _ _ hfits hoffset, if_pos (Nat.zero_le _), Nat.sub_zero,
      htake, hold]
  · have hunchanged : m.loadBank bank bytes = m := m.use_of_misses (u := .load bank bytes) hbank
    rw [hunchanged]
    -- the bank of the pool that has been filled is one that nobody can see
    refine ⟨h.count, h.romCount, fun bank' hbank' offset hoffset => ?_, h.shown⟩
    have hne : bank' ≠ bank := by
      rintro rfl
      exact hbank (h.count ▸ hbank')
    simp only [Pool.use, Pool.refill, if_neg hne]
    exact h.byte bank' hbank' offset hoffset

theorem Holds.write (h : m.Holds p) (clock : Clock) (address : UInt16) (v : UInt8) :
    (m.answered clock (.write address v)).Holds (p.use (.write clock address v)) := by
  let shown := m.mapped (windowOf address)
  have hshown : p.shown (windowOf address) = shown := (h.shown _).symm
  have hrom : m.isROM shown = true ↔ p.shown (windowOf address) < p.romCount := by
    rw [hshown, ← h.romCount]
    exact decide_eq_true_iff
  show (Storage.store m address v).Holds _
  simp only [Storage.store, Pool.use]
  by_cases hram : m.isROM shown = true
  · rw [if_pos hram, if_pos (hrom.mp hram)]
    exact h
  · rw [if_neg hram, if_neg (mt hrom.mpr hram), hshown]
    refine h.refill shown.isLt _ fun offset hoffset => ?_
    have hold := h.byte shown (h.count ▸ shown.isLt) offset hoffset
    rw [byte?_of_lt m shown.isLt, Option.some.injEq] at hold
    have hmod : offset % 1 <<< 14 = offset := Nat.mod_eq_of_lt hoffset
    have haddress : address.toNat % 1 <<< 14 = offsetOf address := rfl
    rw [Store.get_set, hmod, haddress, ← hold]
    simp only [eq_comm]
    rfl

/-- A use does to banked memory what it does to the pool. -/
theorem Holds.use (h : m.Holds p) (u : Use) : (m.use u).Holds (p.use u) := by
  cases u with
  | map window bank => exact h.map window bank
  | load bank bytes => exact h.load bank bytes
  | setContended window contended =>
      show (m.setContended window contended).Holds p
      unfold setContended
      split
      · exact ⟨h.count, h.romCount, h.byte, h.shown⟩
      · exact h
  | setContention table => exact ⟨h.count, h.romCount, h.byte, h.shown⟩
  | read clock address => exact h
  | write clock address value => exact h.write clock address value

/-- So does any sequence of uses. -/
theorem Holds.uses (h : m.Holds p) (us : List Use) : (m.uses us).Holds (p.uses us) := by
  induction us generalizing m p with
  | nil => exact h
  | cons u us ih => exact ih (h.use u)

end BankedMemory

namespace Pool

/-- No use adds or takes away a bank, or turns RAM into ROM. -/
theorem uses_sizes (p : Pool) (us : List BankedMemory.Use) :
    (p.uses us).count = p.count ∧ (p.uses us).romCount = p.romCount := by
  have huse : ∀ (p : Pool) u, (p.use u).count = p.count ∧ (p.use u).romCount = p.romCount := by
    intro p u
    cases u with
    | map window bank =>
        simp only [use]
        split <;> exact ⟨rfl, rfl⟩
    | write clock address value =>
        simp only [use]
        split <;> exact ⟨rfl, rfl⟩
    | load bank bytes => exact ⟨rfl, rfl⟩
    | setContended window contended => exact ⟨rfl, rfl⟩
    | setContention table => exact ⟨rfl, rfl⟩
    | read clock address => exact ⟨rfl, rfl⟩
  induction us generalizing p with
  | nil => exact ⟨rfl, rfl⟩
  | cons u us ih => exact ⟨(ih _).1.trans (huse p u).1, (ih _).2.trans (huse p u).2⟩

end Pool

/-! ### What a processor can do -/

namespace Machine

variable {β : Type} [Bus β] {m m' : Machine β} {bound : Nat}

theorem next_becomes (h : m.next bound = some m') : Bus.Becomes m.bus m'.bus := by
  have hscript := (m.cpu.event bound).run_preserves (I := fun t => Bus.Becomes m.bus t.bus)
    (fun _ _ ht => ht) (fun t a ht => .respond ht t.clock a) (t := m.outside) .refl
  rw [← next_outside h] at hscript
  exact hscript

theorem ran_becomes (h : Ran m m') : Bus.Becomes m.bus m'.bus := by
  induction h with
  | exhausted hex => exact .refl
  | idled hex hdue => exact .refl
  | @yielded m m₁ hex hdue hnext hy =>
      obtain ⟨bound, hnext⟩ := hnext
      have hbus : Bus.Becomes m.bus m₁.bus := next_becomes hnext
      exact hbus
  | further hex hdue hnext hy hrest ih =>
      obtain ⟨bound, hnext⟩ := hnext
      exact (next_becomes hnext).trans ih

/-- Whatever a host asks of a machine, the bus only answers accesses. -/
theorem call_becomes {c : Call} (h : m.call bound c = some m') : Bus.Becomes m.bus m'.bus := by
  cases c with
  | step =>
      obtain ⟨m₁, hnext, rfl⟩ := exists_next_of_call_step h
      have hbus : Bus.Becomes m.bus m₁.bus := next_becomes hnext
      exact hbus
  | run budget =>
      have hbus : Bus.Becomes (m.begun budget).bus m'.bus := ran_becomes (ran_of_runOut h)
      exact hbus
  | _ =>
      obtain rfl := Option.some.inj h
      exact .refl

theorem calls_becomes {cs : List Call} (h : m.calls bound cs = some m') : Bus.Becomes m.bus m'.bus := by
  induction cs generalizing m with
  | nil =>
      obtain rfl := Option.some.inj h
      exact .refl
  | cons c cs ih =>
      obtain ⟨m₁, hcall, hrest⟩ := Option.bind_eq_some_iff.mp h
      exact (call_becomes hcall).trans (ih hrest)

end Machine

namespace BankedMemory

/-- The mapping and the banks of ROM are as they were. -/
structure Keeps (m m' : BankedMemory) : Prop where
  count : m'.count = m.count
  romCount : m'.romCount = m.romCount
  shown : ∀ w, (m'.mapped w).val = m.mapped w
  rom : ∀ bank, m.isROM bank = true → m'.bank? bank = m.bank? bank

namespace Keeps

variable {m m' m'' : BankedMemory}

theorem refl (m : BankedMemory) : m.Keeps m := ⟨rfl, rfl, fun _ => rfl, fun _ _ => rfl⟩

theorem trans (h : m.Keeps m') (h' : m'.Keeps m'') : m.Keeps m'' := by
  refine ⟨h'.count.trans h.count, h'.romCount.trans h.romCount,
    fun w => (h'.shown w).trans (h.shown w), fun bank hrom => ?_⟩
  have hrom' : m'.isROM bank = true := by
    rw [isROM, h.romCount]
    exact hrom
  exact (h'.rom bank hrom').trans (h.rom bank hrom)

theorem store (m : BankedMemory) (address : UInt16) (v : UInt8) : m.Keeps (Storage.store m address v) := by
  simp only [Storage.store]
  split
  · exact .refl m
  · rename_i hram
    refine ⟨rfl, rfl, fun _ => rfl, fun bank hrom => ?_⟩
    exact Vector.getElem?_set_ne (m.mapped _).isLt fun hbank => hram (hbank ▸ hrom)

/-- All that a bus with banked memory can become keeps its mapping and its ROM. -/
theorem of_becomes {b b' : Board BankedMemory} (h : Bus.Becomes b b') : b.memory.Keeps b'.memory := by
  induction h with
  | refl => exact .refl _
  | respond h clock a ih =>
      refine ih.trans ?_
      cases a with
      | write address v => exact store _ address v
      | read address => exact .refl _
      | input port => exact .refl _
      | output port v => exact .refl _

end Keeps

/-! ### Together -/

/-- Every window shows a bank, reading finds the byte there, and writing changes it unless it is ROM. -/
structure Faithful (m : BankedMemory) : Prop where
  shown : ∀ w, (m.bank? (m.mapped w)).isSome = true
  peek : ∀ address, m.byte? (m.mapped (windowOf address)) (offsetOf address) = some (peek m address)
  read : ∀ ports clock address,
    (Bus.respond (⟨m, ports⟩ : Board BankedMemory) clock (.read address)).data = View.peek m address ∧
      m.use (.read clock address) = m
  /-- The mapping stays. -/
  mapped_write : ∀ clock address v w,
    ((m.use (.write clock address v)).mapped w).val = m.mapped w
  /-- One byte changes if it is in RAM. -/
  byte_write : ∀ clock address v bank, ∀ offset < 0x4000,
    (m.use (.write clock address v)).byte? bank offset =
      if bank = m.mapped (windowOf address) ∧ offset = offsetOf address ∧ m.isROM bank = false then some v
      else m.byte? bank offset
  /-- The change is seen through every window that shows the bank. -/
  peek_write : ∀ clock address v address', View.peek (m.use (.write clock address v)) address' =
    if m.mapped (windowOf address') = m.mapped (windowOf address) ∧ offsetOf address' = offsetOf address ∧
      m.isROM (m.mapped (windowOf address)) = false then v
    else View.peek m address'
  misses : ∀ u : Use, u.Misses m → m.use u = m

theorem faithful (m : BankedMemory) : m.Faithful where
  shown := m.isSome_bank?_mapped
  peek := m.byte?_mapped
  read _ _ _ := ⟨rfl, rfl⟩
  mapped_write _ address v := (Keeps.store m address v).shown
  byte_write _ address v bank _ hoffset := m.byte?_store address v bank hoffset
  peek_write _ address v address' := m.peek_store address v address'
  misses _ := m.use_of_misses

/--
**Banked memory is a faithful store.**  With at least one bank, it can be built, and after any sequence
of uses it has as many banks and as many of ROM as before, with the bytes and the mapping that a pool
has after the same uses; it is faithful in what it reads and writes; and whatever a host then asks of a
machine on it, for any number of steps and runs, the mapping and the banks of ROM stay as they are.
-/
theorem uses_faithful (romCount ramCount : Nat) (h : 0 < romCount + ramCount) :
    ∃ blank, create romCount ramCount = .ok blank ∧ ∀ us : List Use,
      (blank.uses us).count = romCount + ramCount ∧
      (∀ bank, (blank.uses us).isROM bank = true ↔ bank < romCount) ∧
      (blank.uses us).Holds ((Pool.blank romCount ramCount).uses us) ∧
      (blank.uses us).Faithful ∧
      ∀ (m m' : Machine (Board BankedMemory)) (bound : Nat) (calls : List Call),
        m.bus.memory = blank.uses us → m.calls bound calls = some m' →
        (blank.uses us).Keeps m'.bus.memory := by
  obtain ⟨blank, hcreate, hblank⟩ := create_holds h
  refine ⟨blank, hcreate, fun us => ?_⟩
  have hholds := hblank.uses us
  obtain ⟨hcount, hrom⟩ := (Pool.blank romCount ramCount).uses_sizes us
  refine ⟨hholds.count.trans hcount, fun bank => ?_, hholds, faithful _, ?_⟩
  · rw [isROM, hholds.romCount, hrom]
    exact decide_eq_true_iff
  · rintro m m' bound calls hm hcalls
    rw [← hm]
    exact .of_becomes (Machine.calls_becomes hcalls)

/-- A byte that is written through one of two windows onto a bank is read through the other. -/
theorem uses_faithful_aliased :
    0 < 1 + 1 ∧ ∃ blank, create 1 1 = .ok blank ∧
      let m := blank.uses [.map 3 1, .write .zero 0x4010 0x42]
      peek m 0xC010 = 0x42 ∧ m.Faithful ∧
        m.Holds ((Pool.blank 1 1).uses [.map 3 1, .write .zero 0x4010 0x42]) := by
  obtain ⟨blank, hcreate, huses⟩ := uses_faithful 1 1 (by decide)
  obtain ⟨-, -, hholds, hfaithful, -⟩ := huses [.map 3 1, .write .zero 0x4010 0x42]
  refine ⟨by decide, blank, hcreate, ?_, hfaithful, hholds⟩
  obtain rfl := Except.ok.inj hcreate
  rfl

end BankedMemory

end Z80
