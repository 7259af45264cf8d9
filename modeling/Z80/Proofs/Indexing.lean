/-
Memory with indices.

A `Store` has no index out of range, since it looks at as many bits of an address as it has, and
banked memory keeps the number of a bank as a `Fin`.  Here bytes stand in rows and windows hold plain
numbers, so every access is a look-up that can fail: `Flat` is 64K in a row, `Banked` is rows with four
windows onto them, and a run of bytes is looked at modulo its length.

`ofMemory` puts a memory into rows, and whatever is then done to the rows does to them what it does to
the memory (`Represents`).  No look-up fails, since an address is below 64K and has a window below
four, and since the bank that a window shows exists.  The last is the invariant of banked memory: it
holds of banks that have just been built (`create_ofMemory`) and after every use (`use_ofMemory`).
-/
import Z80.Proofs.Guarding
import Z80.Proofs.Paging

namespace Z80

namespace Store

/-- Only the low `n` bits of an address count when a byte is written. -/
theorem set_mod {n : Nat} (s : Store n) (i : Nat) (v : UInt8) : s.set (i % 1 <<< n) v = s.set i v := by
  refine ext_get _ _ fun j => ?_
  rw [get_set, get_set, Nat.mod_mod]

/-- Only the low `n` bits of an address count when bytes are loaded. -/
theorem load_mod {n : Nat} (s : Store n) (i : Nat) (bytes : List UInt8) :
    s.load (i % 1 <<< n) bytes = s.load i bytes := by
  induction bytes generalizing s i with
  | nil => rfl
  | cons b bs ih =>
      have hnext : (i % 1 <<< n + 1) % 1 <<< n = (i + 1) % 1 <<< n := by simp
      rw [load, load, set_mod, ← ih _ (i % 1 <<< n + 1), hnext, ih]

/-- The bytes of a store in a row. -/
def row {n : Nat} (s : Store n) : Vector UInt8 (1 <<< n) := Vector.ofFn fun i => s.get i

end Store

namespace Guard

variable {α : Type}

/-- Puts something at an index. -/
def put {n : Nat} (v : Vector α n) (i : Nat) (a : α) : Except Fault (Vector α n) :=
  if h : i < n then .ok (v.set i a) else .error .index

/-- A remainder. -/
def mod (a b : Nat) : Except Fault Nat := if b = 0 then .error .division else .ok (a % b)

theorem put_of_lt {n : Nat} (v : Vector α n) {i : Nat} (h : i < n) (a : α) : put v i a = .ok (v.set i a) :=
  dif_pos h

theorem look_getElem? {n : Nat} (v : Vector α n) {i : Nat} (h : i < n) : look v[i]? = .ok v[i] := by
  rw [Vector.getElem?_eq_getElem h]
  rfl

/-- A table of what a function of a byte makes of all bytes. -/
def table (f : UInt8 → Flags) : Vector UInt8 256 := Vector.ofFn fun value => (f (.ofNat value)).toByte

theorem look_table (f : UInt8 → Flags) (value : UInt8) :
    look (table f)[value.toNat]? = .ok (f value).toByte := by
  rw [look_getElem? _ value.toNat_lt, table, Vector.getElem_ofFn, UInt8.ofNat_toNat]

@[simp] theorem ok_bind {γ : Type} (a : α) (f : α → Except Fault γ) : Except.ok a >>= f = f a := rfl

/-- A row has a byte for every address, the byte that the store has there. -/
theorem look_row {n : Nat} (s : Store n) {i : Nat} (hi : i < 1 <<< n) : look s.row[i]? = .ok (s.get i) := by
  rw [look_getElem? _ hi, Store.row, Vector.getElem_ofFn]

/-- A byte that is put into a row is written to the store. -/
theorem put_row {n : Nat} (s : Store n) {i : Nat} (hi : i < 1 <<< n) (v : UInt8) :
    put s.row i v = .ok (s.set i v).row := by
  rw [put_of_lt _ hi]
  refine congrArg Except.ok ?_
  ext j hj
  simp only [Store.row, Vector.getElem_set, Vector.getElem_ofFn, Store.get_set, Nat.mod_eq_of_lt hi,
    Nat.mod_eq_of_lt hj]

/-- Memory that is looked at with indices that may be out of range. -/
class View (ρ : Type) where
  peek : ρ → UInt16 → Except Fault UInt8

/-- Memory that is read and written with indices that may be out of range. -/
class Storage (ρ : Type) extends View ρ where
  /-- The byte at an address and the wait states of reading it. -/
  read : ρ → Clock → UInt16 → Except Fault (UInt8 × Nat)
  /-- The memory after a byte has been written, and the wait states of writing it. -/
  write : ρ → Clock → UInt16 → UInt8 → Except Fault (ρ × Nat)

/-- Memory with indices that may be out of range, and never are: it answers as other memory does. -/
structure Represents {μ ρ : Type} [Z80.Storage μ] [Storage ρ] (raw : μ → ρ) : Prop where
  peek : ∀ m address, View.peek (raw m) address = .ok (Z80.View.peek m address)
  read : ∀ m clock address, Storage.read (raw m) clock address =
    .ok (Z80.View.peek m address, Z80.Storage.wait m clock address)
  write : ∀ m clock address value, Storage.write (raw m) clock address value =
    .ok (raw (Z80.Storage.store m address value), Z80.Storage.wait m clock address)

/-- 64K in a row. -/
abbrev Flat := Vector UInt8 0x10000

namespace Flat

/-- The bytes of a memory in a row. -/
def ofMemory (m : Memory) : Flat := m.row

instance : Storage Flat where
  peek m address := look m[address.toNat]?
  read m _ address := return (← look m[address.toNat]?, 0)
  write m _ address value := return (← put m address.toNat value, 0)

/-- Puts bytes at an address and the addresses after it. -/
def load (m : Flat) (address : UInt16) : List UInt8 → Except Fault Flat
  | [] => .ok m
  | b :: bs => do load (← put m address.toNat b) (address + 1) bs

theorem look_ofMemory (m : Memory) (address : UInt16) :
    look (ofMemory m)[address.toNat]? = .ok (peek m address) := look_row m address.toNat_lt

theorem put_ofMemory (m : Memory) (address : UInt16) (value : UInt8) :
    put (ofMemory m) address.toNat value = .ok (ofMemory (m.set address.toNat value)) :=
  put_row m address.toNat_lt value

/-- Bytes that are put in a row end up where the memory has them. -/
theorem load_ofMemory (m : Memory) (address : UInt16) (bytes : List UInt8) :
    load (ofMemory m) address bytes = .ok (ofMemory (m.load address.toNat bytes)) := by
  induction bytes generalizing m address with
  | nil => rfl
  | cons b bs ih =>
      unfold load
      rw [put_ofMemory]
      have hnext : (address + 1).toNat = (address.toNat + 1) % 1 <<< 16 := rfl
      show load _ (address + 1) bs = _
      rw [ih, hnext, Store.load_mod]
      rfl

theorem represents : Represents ofMemory where
  peek := look_ofMemory
  read m clock address := by
    show (do return (← look (ofMemory m)[address.toNat]?, 0)) = _
    rw [look_ofMemory]
    rfl
  write m clock address value := by
    show (do return (← put (ofMemory m) address.toNat value, 0)) = _
    rw [put_ofMemory]
    rfl

/-- Every row of bytes is that of a memory. -/
theorem exists_ofMemory (f : Flat) : ∃ m, ofMemory m = f := by
  refine ⟨Store.ofFn 16 fun i => f[i]?.getD 0, ?_⟩
  ext j hj
  have hmod : j % 1 <<< 16 = j := Nat.mod_eq_of_lt hj
  rw [ofMemory, Store.row, Vector.getElem_ofFn, Store.ofFn, Store.get_ofFnFrom, hmod, Nat.zero_add,
    Vector.getElem?_eq_getElem hj]
  rfl

end Flat

/-! ### Slices -/

/-- A run of bytes, in which an address is taken modulo their number. -/
instance : View (Array UInt8) where
  peek bytes address := do
    if bytes.isEmpty then return 0xFF
    look bytes[← mod address.toNat bytes.size]?

/-- Where there are bytes, a remainder is the index of one of them. -/
theorem peek_bytes (bytes : Array UInt8) (address : UInt16) :
    View.peek bytes address = .ok (peek bytes address) := by
  by_cases hempty : bytes = #[]
  · subst hempty
    rfl
  · have hpos : 0 < bytes.size := Array.size_pos_iff.mpr hempty
    have hlt := Nat.mod_lt address.toNat hpos
    have hlook : look bytes[address.toNat % bytes.size]? = .ok bytes[address.toNat % bytes.size] := by
      rw [Array.getElem?_eq_getElem hlt]
      rfl
    have hpeek : peek bytes address = bytes[address.toNat % bytes.size] :=
      (Array.getElem_eq_getD 0xFF).symm
    have hmod : mod address.toNat bytes.size = .ok (address.toNat % bytes.size) := if_neg (Nat.ne_of_gt hpos)
    rw [hpeek, ← hlook]
    simp only [View.peek, Array.isEmpty_iff, hempty, if_false, hmod]
    rfl

/-! ### Banks in an array -/

/-- Banked memory whose windows hold plain numbers. -/
structure Banked where
  /-- How many banks there are. -/
  count : Nat
  banks : Vector (Vector UInt8 0x4000) count
  readOnly : Array Bool
  windows : Vector Nat 4
  contended : Vector Bool 4
  contention : ContentionTable

namespace Banked

/-- The bytes of a bank in a row. -/
def rowOf (b : Bank) : Vector UInt8 0x4000 := b.row

/-- Banked memory with its invariants forgotten. -/
def ofMemory (m : BankedMemory) : Banked where
  count := m.count
  banks := m.banks.map rowOf
  readOnly := Array.ofFn fun bank : Fin m.count => m.isROM bank
  windows := m.windows.map Fin.val
  contended := m.contended
  contention := m.contention

/-- Blank banks, ROM first. -/
def create (romCount ramCount : Nat) : Except Fault Banked := do
  let count := romCount + ramCount
  if count = 0 then throw .assertion
  let last ← sub count 1
  return {
    count
    banks := Vector.replicate count (Vector.replicate 0x4000 0)
    readOnly := Array.ofFn fun bank : Fin count => decide (bank < romCount)
    windows := Vector.ofFn fun w => min w last
    contended := Vector.replicate 4 false
    contention := .empty }

/-- Shows a bank in a window. -/
def map (m : Banked) (window bank : Nat) : Except Fault Banked :=
  if window < 4 ∧ bank < m.count then return { m with windows := ← put m.windows window bank } else return m

/-- The bank that a window shows, with windows counted modulo four. -/
def mapped (m : Banked) (window : Nat) : Except Fault Nat := look m.windows[window % 4]?

/-- As many bytes as there are in a slice, from the start of an array. -/
def slice (bytes : List UInt8) (length : Nat) : Except Fault (List UInt8) :=
  if length ≤ bytes.length then .ok (bytes.take length) else .error .index

/-- Copies bytes over the first bytes of a row, of which there must be as many. -/
def copy (row : Vector UInt8 0x4000) (length : Nat) (bytes : List UInt8) :
    Except Fault (Vector UInt8 0x4000) :=
  if 0x4000 < length then .error .index
  else if bytes.length ≠ length then .error .assertion
  else .ok (Vector.ofFn fun i => (bytes[i.val]?).getD row[i])

/-- Puts a row in the place of a bank. -/
def setRow (m : Banked) (bank : Nat) (row : Vector UInt8 0x4000) : Except Fault Banked :=
  return { m with banks := ← put m.banks bank row }

/-- Copies bytes to the start of a bank. -/
def loadBank (m : Banked) (bank : Nat) (bytes : List UInt8) : Except Fault Banked :=
  match m.banks[bank]? with
  | none => return m
  | some row => do
      let length := min bytes.length 0x4000
      m.setRow bank (← copy row length (← slice bytes length))

/-- Says whether a window is contended. -/
def setContended (m : Banked) (window : Nat) (contended : Bool) : Except Fault Banked :=
  if window < 4 then return { m with contended := ← put m.contended window contended } else return m

/-- Wait states of an access to a window. -/
def contend (m : Banked) (window : Nat) (clock : Clock) : Except Fault Nat := do
  if ← look m.contended[window]? then return (m.contention.delayAt clock.current).toNat else return 0

/-- The byte at a place of the bank that a window shows. -/
def byte (m : Banked) (window offset : Nat) : Except Fault UInt8 := do
  let bank ← look m.windows[window]?
  let row ← look m.banks[bank]?
  look row[offset]?

instance : Storage Banked where
  peek m address := m.byte (address.toNat / 0x4000) (address.toNat % 0x4000)
  read m clock address := do
    let wait ← m.contend (address.toNat / 0x4000) clock
    return (← m.byte (address.toNat / 0x4000) (address.toNat % 0x4000), wait)
  write m clock address value := do
    let wait ← m.contend (address.toNat / 0x4000) clock
    let bank ← look m.windows[address.toNat / 0x4000]?
    if ← look m.readOnly[bank]? then return (m, wait)
    else
      let row ← put (← look m.banks[bank]?) (address.toNat % 0x4000) value
      return (← m.setRow bank row, wait)

variable (m : BankedMemory)

/-- A window holds the number of a bank. -/
theorem look_windows {window : Nat} (h : window < 4) :
    look (ofMemory m).windows[window]? = .ok (m.mapped ⟨window, h⟩).val := by
  rw [look_getElem? _ h]
  exact congrArg _ (Vector.getElem_map _ _)

/-- The bank of such a number is there. -/
theorem look_banks (bank : Fin m.count) : look (ofMemory m).banks[bank.val]? = .ok (rowOf m.banks[bank]) := by
  have hbank : bank.val < (ofMemory m).count := bank.isLt
  rw [look_getElem? _ hbank]
  exact congrArg _ (Vector.getElem_map _ _)

theorem window_lt (address : UInt16) : address.toNat / 0x4000 < 4 := (BankedMemory.windowOf address).isLt

/-- The window of an address shows a bank, and the bank has a byte at the address. -/
theorem byte_ofMemory (address : UInt16) :
    byte (ofMemory m) (address.toNat / 0x4000) (address.toNat % 0x4000) = .ok (peek m address) := by
  have hoffset : address.toNat % 0x4000 < 0x4000 := Nat.mod_lt _ (by decide)
  rw [byte, look_windows m (window_lt address), ok_bind, look_banks, ok_bind]
  exact (look_row _ hoffset).trans (congrArg _ (BankedMemory.get_offsetOf _ address))

theorem contend_ofMemory (clock : Clock) (address : UInt16) :
    contend (ofMemory m) (address.toNat / 0x4000) clock = .ok (Z80.Storage.wait m clock address) := by
  have hcontended : look (ofMemory m).contended[address.toNat / 0x4000]? =
      .ok m.contended[BankedMemory.windowOf address] := look_getElem? _ (window_lt address)
  rw [contend, hcontended, ok_bind]
  show _ = Except.ok (if m.contended[BankedMemory.windowOf address] then _ else _)
  split <;> rfl

theorem setRow_ofMemory {bank : Nat} (h : bank < m.count) (b : Bank) :
    setRow (ofMemory m) bank (rowOf b) = .ok (ofMemory { m with banks := m.banks.set bank b }) := by
  have hput : put (m.banks.map rowOf) bank (rowOf b) = .ok ((m.banks.set bank b).map rowOf) := by
    rw [put_of_lt _ h, Vector.map_set]
  show (do return { ofMemory m with banks := ← put (m.banks.map rowOf) bank (rowOf b) }) = _
  rw [hput]
  rfl

/-- A byte is written to the bank that the window of the address shows, or dropped. -/
theorem write_ofMemory (clock : Clock) (address : UInt16) (value : UInt8) :
    Storage.write (ofMemory m) clock address value =
      .ok (ofMemory (Z80.Storage.store m address value), Z80.Storage.wait m clock address) := by
  have hoffset : address.toNat % 0x4000 < 0x4000 := Nat.mod_lt _ (by decide)
  have hrom (bank : Fin m.count) : look (ofMemory m).readOnly[bank.val]? = .ok (m.isROM bank) := by
    show look (Array.ofFn fun bank : Fin m.count => m.isROM bank)[bank.val]? = _
    rw [Array.getElem?_ofFn, dif_pos bank.isLt]
    rfl
  have hput (b : Bank) :
      put (rowOf b) (address.toNat % 0x4000) value = .ok (rowOf (b.set address.toNat value)) := by
    have hset : b.set (address.toNat % 0x4000) value = b.set address.toNat value :=
      b.set_mod address.toNat value
    exact hset ▸ put_row b hoffset value
  simp only [Storage.write, contend_ofMemory, ok_bind, look_windows m (window_lt address), hrom,
    Z80.Storage.store]
  show (if m.isROM (m.mapped (BankedMemory.windowOf address)) = true then _ else _) = _
  split
  · rfl
  · rw [look_banks, ok_bind, hput, ok_bind, setRow_ofMemory]
    rfl

theorem mapped_ofMemory (window : Nat) :
    mapped (ofMemory m) window = .ok (m.mapped ⟨window % 4, Nat.mod_lt _ (by decide)⟩) :=
  look_windows m (Nat.mod_lt _ (by decide))

theorem map_ofMemory (window bank : Nat) : map (ofMemory m) window bank = .ok (ofMemory (m.map window bank)) := by
  unfold map BankedMemory.map
  by_cases hwindow : window < 4
  · by_cases hbank : bank < m.count
    · rw [if_pos ⟨hwindow, hbank⟩, dif_pos hwindow, dif_pos hbank]
      have hput : put (m.windows.map Fin.val) window bank =
          .ok ((m.windows.set window ⟨bank, hbank⟩).map Fin.val) := by
        rw [put_of_lt _ hwindow, Vector.map_set]
      show (do return { ofMemory m with windows := ← put (m.windows.map Fin.val) window bank }) = _
      rw [hput]
      rfl
    · rw [if_neg fun h => hbank h.2, dif_pos hwindow, dif_neg hbank]
      rfl
  · rw [if_neg fun h => hwindow h.1, dif_neg hwindow]
    rfl

/-- The bytes that are copied to a row are as many as are counted, and fit. -/
theorem copy_rowOf (b : Bank) (bytes : List UInt8) :
    slice bytes (min bytes.length 0x4000) = .ok (bytes.take Bank.bytes) ∧
      copy (rowOf b) (min bytes.length 0x4000) (bytes.take Bank.bytes) =
        .ok (rowOf (b.load 0 (bytes.take Bank.bytes))) := by
  have htake : bytes.take (min bytes.length 0x4000) = bytes.take Bank.bytes := by
    rw [List.take_eq_take_iff]
    unfold Bank.bytes
    omega
  have hlength : (bytes.take Bank.bytes).length = min bytes.length 0x4000 := by
    rw [List.length_take, Nat.min_comm]
    rfl
  have hfits : 0 + (bytes.take Bank.bytes).length ≤ 2 ^ 14 := by
    rw [hlength]
    omega
  constructor
  · rw [slice, if_pos (Nat.min_le_left _ _), htake]
  · rw [copy, if_neg (Nat.not_lt.mpr (Nat.min_le_right _ _)), if_neg (not_not_intro hlength)]
    refine congrArg Except.ok ?_
    ext i hi
    simp only [rowOf, Store.row, Vector.getElem_ofFn, Fin.getElem_fin]
    rw [Store.get_load b 0 _ hfits hi, if_pos (Nat.zero_le i), Nat.sub_zero]

theorem loadBank_ofMemory (bank : Nat) (bytes : List UInt8) :
    loadBank (ofMemory m) bank bytes = .ok (ofMemory (m.loadBank bank bytes)) := by
  unfold loadBank BankedMemory.loadBank
  by_cases hbank : bank < m.count
  · have hrow : (ofMemory m).banks[bank]? = some (rowOf m.banks[bank]) := by
      have hlt : bank < (ofMemory m).count := hbank
      rw [Vector.getElem?_eq_getElem hlt]
      exact congrArg _ (Vector.getElem_map _ _)
    obtain ⟨hslice, hcopy⟩ := copy_rowOf m.banks[bank] bytes
    rw [dif_pos hbank, hrow]
    simp only [hslice, ok_bind, hcopy]
    exact setRow_ofMemory m hbank _
  · have hrow : (ofMemory m).banks[bank]? = none := Vector.getElem?_eq_none (Nat.le_of_not_lt hbank)
    rw [dif_neg hbank, hrow]
    rfl

/-- The windows of banks that have just been built show the first of them, or the last one. -/
theorem create_ofMemory {romCount ramCount : Nat} (h : 0 < romCount + ramCount) :
    ∃ blank, BankedMemory.create romCount ramCount = .ok blank ∧
      create romCount ramCount = .ok (ofMemory blank) := by
  refine ⟨_, dif_pos h, ?_⟩
  have hrow : rowOf (Store.uniform 14 0) = Vector.replicate 0x4000 0 := by
    ext i hi
    rw [rowOf, Store.row, Vector.getElem_ofFn, Store.get_uniform, Vector.getElem_replicate]
  unfold create
  simp only [Nat.ne_of_gt h, if_false, sub_of_le (Nat.succ_le_of_lt h), ofMemory, Vector.map_replicate, hrow,
    Vector.map_ofFn]
  rfl

theorem setContended_ofMemory (window : Nat) (contended : Bool) :
    setContended (ofMemory m) window contended = .ok (ofMemory (m.setContended window contended)) := by
  unfold setContended BankedMemory.setContended
  by_cases h : window < 4
  · rw [if_pos h, dif_pos h, put_of_lt _ h]
    rfl
  · rw [if_neg h, dif_neg h]
    rfl

/-- What a host or the processor does to banked memory. -/
def use (m : Banked) : BankedMemory.Use → Except Fault Banked
  | .map window bank => m.map window bank
  | .load bank bytes => m.loadBank bank bytes
  | .setContended window contended => m.setContended window contended
  | .setContention table => return { m with contention := table }
  | .read clock address => do
      let _ ← Storage.read m clock address
      return m
  | .write clock address value => return (← Storage.write m clock address value).1

/-- Banked memory answers as the memory whose invariants are part of its type. -/
theorem represents : Represents ofMemory where
  peek := byte_ofMemory
  read m clock address := by
    simp only [Storage.read, contend_ofMemory, ok_bind, byte_ofMemory]
    rfl
  write := write_ofMemory

/-- No use of banked memory faults. -/
theorem use_ofMemory (u : BankedMemory.Use) : use (ofMemory m) u = .ok (ofMemory (m.use u)) := by
  cases u with
  | map window bank => exact map_ofMemory m window bank
  | load bank bytes => exact loadBank_ofMemory m bank bytes
  | setContended window contended => exact setContended_ofMemory m window contended
  | setContention table => rfl
  | read clock address =>
      rw [use, represents.read, ok_bind]
      rfl
  | write clock address value =>
      rw [use, represents.write, ok_bind]
      rfl

end Banked

end Guard
end Z80
