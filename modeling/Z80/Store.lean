/-
Byte stores.

`Store n` holds one byte for every address of `n` bits, as a complete binary tree: the
highest address bit chooses between two stores one bit smaller.  An address is a `Nat`
of which only the low `n` bits are looked at, so addresses wrap by construction and
no access can be out of range.

Stores are values.  Writing shares everything but the path to the changed byte, a store
filled with one byte is `n` nodes, and a snapshot costs nothing.  There is one tree per
content, so two stores that answer every read alike are equal (`Store.ext_get`); and
`Store.get_set` is the law everything else here follows from.
-/

namespace Z80

/-- One byte for each address of `n` bits. -/
inductive Store : Nat → Type where
  | cell (value : UInt8) : Store 0
  | split {n : Nat} (lower upper : Store n) : Store (n + 1)
deriving DecidableEq, Repr

namespace Store

/-- The byte at `address`, of which the low `n` bits count. -/
def get : {n : Nat} → Store n → Nat → UInt8
  | _, .cell value, _ => value
  | n + 1, .split lower upper, address =>
      if address.testBit n then upper.get address else lower.get address

/-- The store with `value` at `address`. -/
def set : {n : Nat} → Store n → Nat → UInt8 → Store n
  | _, .cell _, _, value => .cell value
  | n + 1, .split lower upper, address, value =>
      if address.testBit n then .split lower (upper.set address value)
      else .split (lower.set address value) upper

/-- The store that holds `value` everywhere. -/
def uniform : (n : Nat) → UInt8 → Store n
  | 0, value => .cell value
  | n + 1, value => let half := uniform n value; .split half half

/-- The store that holds `f (base + i)` at each address `i`. -/
def ofFnFrom : (n : Nat) → (base : Nat) → (Nat → UInt8) → Store n
  | 0, base, f => .cell (f base)
  | n + 1, base, f => .split (ofFnFrom n base f) (ofFnFrom n (base + 1 <<< n) f)

/-- The store that holds `f i` at each address `i`. -/
def ofFn (n : Nat) (f : Nat → UInt8) : Store n := ofFnFrom n 0 f

/-- How many bytes a store of `n` address bits holds. -/
def size {n : Nat} (_ : Store n) : Nat := 1 <<< n

/-- Goes through the bytes in the order of their addresses. -/
def foldl {α : Type} (f : α → UInt8 → α) : {n : Nat} → α → Store n → α
  | _, a, .cell value => f a value
  | _, a, .split lower upper => upper.foldl f (lower.foldl f a)

/-- Writes the bytes of a list at `address` and the addresses after it, in order. -/
def load {n : Nat} (s : Store n) (address : Nat) : List UInt8 → Store n
  | [] => s
  | b :: bs => (s.set address b).load (address + 1) bs

/-! ### Reading and writing -/

/-- Two addresses agree in `n + 1` bits when they agree in bit `n` and in the `n` bits below. -/
theorem mod_succ_eq_iff (n i j : Nat) :
    i % 1 <<< (n + 1) = j % 1 <<< (n + 1) ↔
      i.testBit n = j.testBit n ∧ i % 1 <<< n = j % 1 <<< n := by
  simp only [Nat.one_shiftLeft]
  constructor
  · intro h
    constructor
    · have hi := Nat.testBit_mod_two_pow i (n + 1) n
      have hj := Nat.testBit_mod_two_pow j (n + 1) n
      rw [h, hj] at hi
      simpa using hi.symm
    · have hi := Nat.mod_mod_of_dvd i (Nat.pow_dvd_pow 2 (Nat.le_succ n))
      have hj := Nat.mod_mod_of_dvd j (Nat.pow_dvd_pow 2 (Nat.le_succ n))
      rw [← hi, ← hj, h]
  · rintro ⟨hbit, hlow⟩
    apply Nat.eq_of_testBit_eq
    intro k
    rw [Nat.testBit_mod_two_pow, Nat.testBit_mod_two_pow]
    rcases Nat.lt_trichotomy k n with hk | hk | hk
    · have hi := Nat.testBit_mod_two_pow i n k
      have hj := Nat.testBit_mod_two_pow j n k
      rw [hlow, hj] at hi
      simp only [hk, decide_true, Bool.true_and] at hi
      rw [hi]
    · subst hk
      rw [hbit]
    · have : ¬ k < n + 1 := by omega
      simp [this]

/-- **Reading after writing.**  A write is seen at its own address and nowhere else. -/
theorem get_set {n : Nat} (s : Store n) (i j : Nat) (v : UInt8) :
    (s.set i v).get j = if i % 1 <<< n = j % 1 <<< n then v else s.get j := by
  induction s with
  | cell w => simp [set, get, Nat.mod_one]
  | @split n lower upper ihl ihu =>
      by_cases hi : i.testBit n <;> by_cases hj : j.testBit n <;>
        simp [set, get, hi, hj, ihl, ihu, mod_succ_eq_iff]

@[simp] theorem get_uniform (n : Nat) (v : UInt8) (i : Nat) : (uniform n v).get i = v := by
  induction n with
  | zero => rfl
  | succ n ih => simp [uniform, get, ih]

/-- Only the low `n` bits of an address count. -/
theorem get_mod {n : Nat} (s : Store n) (i : Nat) : s.get (i % 1 <<< n) = s.get i := by
  rw [Nat.one_shiftLeft]
  induction s generalizing i with
  | cell w => rfl
  | @split n lower upper ihl ihu =>
      have hbit : (i % 2 ^ (n + 1)).testBit n = i.testBit n := by
        simp [Nat.testBit_mod_two_pow]
      have hlow : i % 2 ^ (n + 1) % 2 ^ n = i % 2 ^ n :=
        Nat.mod_mod_of_dvd i (Nat.pow_dvd_pow 2 (Nat.le_succ n))
      simp only [get, hbit]
      split
      · rw [← ihu, hlow, ihu]
      · rw [← ihl, hlow, ihl]

theorem get_ofFnFrom (n base : Nat) (f : Nat → UInt8) (i : Nat) :
    (ofFnFrom n base f).get i = f (base + i % 1 <<< n) := by
  rw [Nat.one_shiftLeft]
  induction n generalizing base with
  | zero => simp [ofFnFrom, get, Nat.mod_one]
  | succ n ih =>
      have hsplit : i % 2 ^ (n + 1) = i % 2 ^ n + 2 ^ n * (i / 2 ^ n % 2) := by
        rw [Nat.pow_succ, Nat.mod_mul]
      have hbit : i.testBit n = decide (i / 2 ^ n % 2 = 1) := Nat.testBit_eq_decide_div_mod_eq
      simp only [ofFnFrom, get, ih, Nat.one_shiftLeft]
      by_cases h : i / 2 ^ n % 2 = 1
      · simp only [hbit, h, decide_true, if_true]
        congr 1
        rw [hsplit, h]
        omega
      · have h0 : i / 2 ^ n % 2 = 0 := by omega
        simp only [hbit, h, decide_false, Bool.false_eq_true, if_false]
        congr 1
        rw [hsplit, h0]
        omega

/-- Stores with the same bytes are the same store. -/
theorem ext_get {n : Nat} (s t : Store n) (h : ∀ i, s.get i = t.get i) : s = t := by
  induction s with
  | cell v =>
      cases t with
      | cell w => simpa [get] using h 0
  | @split n lower upper ihl ihu =>
      cases t with
      | split lower' upper' =>
          have hget : ∀ (t : Store n) (k : Nat), t.get (k % 2 ^ n) = t.get k := by
            intro t k
            rw [← Nat.one_shiftLeft, get_mod]
          have hl : lower = lower' := by
            apply ihl
            intro i
            have hi := h (i % 2 ^ n)
            have hbit : (i % 2 ^ n).testBit n = false := by simp [Nat.testBit_mod_two_pow]
            simpa [get, hbit, hget] using hi
          have hu : upper = upper' := by
            apply ihu
            intro i
            have hi := h (2 ^ n + i % 2 ^ n)
            have hlt : i % 2 ^ n < 2 ^ n := Nat.mod_lt _ (Nat.two_pow_pos n)
            have hbit : (2 ^ n + i % 2 ^ n).testBit n = true := by
              rw [Nat.testBit_two_pow_add_eq, Nat.testBit_lt_two_pow hlt]
              rfl
            have hmod : (2 ^ n + i % 2 ^ n) % 2 ^ n = i % 2 ^ n := by
              rw [Nat.add_mod_left, Nat.mod_mod]
            simp only [get, hbit, if_true] at hi
            rw [← hget upper, ← hget upper', hmod, hget, hget] at hi
            exact hi
          rw [hl, hu]

/-- Writing back what is there changes nothing. -/
theorem set_get {n : Nat} (s : Store n) (i : Nat) : s.set i (s.get i) = s := by
  apply ext_get
  intro j
  rw [get_set]
  split
  · rename_i h
    rw [← get_mod s i, h, get_mod]
  · rfl

end Store

end Z80
