/-
Binary arithmetic.

ADC and SBC from byte to byte add and subtract numbers of any length.  Read as unsigned numbers,
the bytes are columns of a sum, and what the carry then says is `Columns.add_eq` and
`Columns.sub_eq`.  Read in two's complement, only the last byte has a sign, so whether the whole
result has overflowed shows in the last byte alone: what goes into it from the bytes below is a
carry and less than one unit of its own (`Fits.cons_iff`).  `Computes` is what an operation on two
bytes has to say of itself for this, with a sign that makes addition and subtraction one case.

The operations on words are such chains of two bytes, except that the zero flag is that of the whole
word and that ADD keeps three flags.
-/
import Z80.Proofs.Carrying

namespace Z80

namespace Alu

/-! ### Two's complement -/

/-- The number that bytes write, the lowest first. -/
def number (bs : List UInt8) : Nat := Nat.ofDigits 256 (bs.map UInt8.toNat)

/-- The number that bytes write in two's complement. -/
def signed (bs : List UInt8) : Int := Int.bmod (number bs) (256 ^ bs.length)

/-- A number can be written in two's complement with `n` bytes. -/
def Fits (n : Nat) (v : Int) : Prop := -(256 ^ n : Nat) ≤ 2 * v ∧ 2 * v < (256 ^ n : Nat)

instance (n : Nat) (v : Int) : Decidable (Fits n v) :=
  inferInstanceAs (Decidable (_ ∧ _))

theorem number_cons (b : UInt8) (bs : List UInt8) : number (b :: bs) = b.toNat + 256 * number bs := by
  simp [number, Nat.ofDigits_cons]

theorem byte_lt (bs : List UInt8) : ∀ z ∈ bs.map UInt8.toNat, z < 256 := by
  rw [List.forall_mem_map]
  exact fun b _ => b.toNat_lt

theorem number_lt (bs : List UInt8) : number bs < 256 ^ bs.length := by
  have h := Nat.ofDigits_lt_base_pow_length (by decide) (byte_lt bs)
  rwa [List.length_map] at h

theorem exists_half {n : Nat} (hn : n ≠ 0) : ∃ k, 256 ^ n = 2 * k := by
  obtain ⟨m, rfl⟩ := Nat.exists_eq_succ_of_ne_zero hn
  exact ⟨128 * 256 ^ m, by rw [pow_succ']; omega⟩

theorem signed_eq_ite {bs : List UInt8} (hbs : bs ≠ []) :
    signed bs = if 2 * number bs < 256 ^ bs.length then (number bs : Int)
      else (number bs : Int) - (256 ^ bs.length : Nat) := by
  have hlt := number_lt bs
  obtain ⟨k, hk⟩ := exists_half (n := bs.length) (by simpa using hbs)
  rw [signed, Int.bmod_def, hk]
  rw [hk] at hlt
  rw [Int.emod_eq_of_lt (by omega) (by omega)]
  split <;> split <;> omega

/-- A byte below leaves the sign where it is. -/
theorem signed_cons (b : UInt8) {bs : List UInt8} (hbs : bs ≠ []) :
    signed (b :: bs) = b.toNat + 256 * signed bs := by
  have hb := b.toNat_lt
  obtain ⟨k, hk⟩ := exists_half (n := bs.length) (by simpa using hbs)
  rw [signed_eq_ite (List.cons_ne_nil b bs), signed_eq_ite hbs, number_cons, List.length_cons,
    pow_succ', hk]
  split <;> split <;> omega

theorem signed_singleton (b : UInt8) :
    signed [b] = if b.toNat < 128 then (b.toNat : Int) else (b.toNat : Int) - 256 := by
  rw [signed_eq_ite (List.cons_ne_nil b [])]
  simp only [number_cons, List.length_singleton]
  have : number [] = 0 := rfl
  split <;> split <;> omega

/-- A byte below does not decide whether a number fits. -/
theorem Fits.cons_iff {n : Nat} (hn : n ≠ 0) (z : UInt8) (v : Int) :
    Fits (n + 1) (z.toNat + 256 * v) ↔ Fits n v := by
  have hz := z.toNat_lt
  obtain ⟨k, hk⟩ := exists_half hn
  unfold Fits
  rw [pow_succ', hk]
  omega

theorem bit_seven (b : UInt8) : bit b 7 = decide (128 ≤ b.toNat) := by
  have hb := b.toNat_lt
  rw [bit, Nat.testBit_eq_decide_div_mod_eq, decide_eq_decide]
  omega

/-! ### One byte -/

section Byte

variable (x y : UInt8) (f : Flags)

theorem toNat_add_value (c : Bool) : (add x y c).value.toNat = (x.toNat + y.toNat + c.toNat) % 256 :=
  UInt8.toNat_ofNat'

theorem toNat_sub_value (c : Bool) :
    (sub x y c).value.toNat = (512 + x.toNat - y.toNat - c.toNat) % 256 :=
  UInt8.toNat_ofNat'

/-- The digit of a sum and its carry. -/
theorem add_digit (c : Bool) :
    x.toNat + y.toNat + c.toNat = (add x y c).value.toNat + 256 * (add x y c).flags.carry.toNat := by
  have hx := x.toNat_lt
  have hy := y.toNat_lt
  have hc := c.toNat_le
  have hcarry : (add x y c).flags.carry = decide (256 ≤ x.toNat + y.toNat + c.toNat) := rfl
  rw [toNat_add_value, hcarry]
  by_cases hout : 256 ≤ x.toNat + y.toNat + c.toNat
  · rw [decide_eq_true hout, Bool.toNat_true]
    omega
  · rw [decide_eq_false hout, Bool.toNat_false]
    omega

/-- The digit of a difference and its borrow. -/
theorem sub_digit (c : Bool) :
    (sub x y c).value.toNat + y.toNat + c.toNat = x.toNat + 256 * (sub x y c).flags.carry.toNat := by
  have hx := x.toNat_lt
  have hy := y.toNat_lt
  have hc := c.toNat_le
  have hborrow : (sub x y c).flags.carry = decide (x.toNat < y.toNat + c.toNat) := rfl
  rw [toNat_sub_value, hborrow]
  by_cases hout : x.toNat < y.toNat + c.toNat
  · rw [decide_eq_true hout, Bool.toNat_true]
    omega
  · rw [decide_eq_false hout, Bool.toNat_false]
    omega

theorem sign_ofResult : (Flags.ofResult x).sign = decide (signed [x] < 0) := by
  have hx := x.toNat_lt
  show bit x 7 = _
  rw [bit_seven, signed_singleton, decide_eq_decide]
  split <;> omega

theorem add_overflow (c : Bool) :
    (add x y c).flags.parity = decide (¬ Fits 1 (signed [x] + signed [y] + (c.toNat : Int))) := by
  have hx := x.toNat_lt
  have hy := y.toNat_lt
  have hc := c.toNat_le
  have hparity : (add x y c).flags.parity =
    (bit x 7 == bit y 7 && bit (add x y c).value 7 != bit x 7) := rfl
  rw [hparity, Bool.eq_iff_iff]
  simp only [bit_seven, toNat_add_value, Bool.and_eq_true, beq_iff_eq, bne_iff_ne, ne_eq,
    decide_eq_decide, decide_eq_true_eq, Fits, signed_singleton]
  split <;> split <;> omega

theorem sub_overflow (c : Bool) :
    (sub x y c).flags.parity = decide (¬ Fits 1 (signed [x] - signed [y] - (c.toNat : Int))) := by
  have hx := x.toNat_lt
  have hy := y.toNat_lt
  have hc := c.toNat_le
  have hparity : (sub x y c).flags.parity =
    (bit x 7 != bit y 7 && bit (sub x y c).value 7 != bit x 7) := rfl
  rw [hparity, Bool.eq_iff_iff]
  simp only [bit_seven, toNat_sub_value, Bool.and_eq_true, bne_iff_ne, ne_eq,
    decide_eq_decide, decide_eq_true_eq, Fits, signed_singleton]
  split <;> split <;> omega

end Byte

/--
An operation adds its second operand and the carry to the first, or takes them from it if `σ` is
negative: the carry out counts one more place, and the flags show sign and overflow.
-/
structure Computes (op : UInt8 → UInt8 → Flags → Result) (σ : Int) : Prop where
  digit : ∀ x y f, (x.toNat : Int) + σ * (y.toNat + f.carry.toNat) =
    (op x y f).value.toNat + 256 * (σ * (op x y f).flags.carry.toNat)
  sign : ∀ x y f, (op x y f).flags.sign = decide (signed [(op x y f).value] < 0)
  overflow : ∀ x y f, (op x y f).flags.parity =
    decide (¬ Fits 1 (signed [x] + σ * (signed [y] + f.carry.toNat)))

theorem add_computes : Computes (fun x y f => add x y f.carry) 1 where
  digit x y f := by
    have := add_digit x y f.carry
    omega
  sign x y f := sign_ofResult _
  overflow x y f := by rw [add_overflow, one_mul, add_assoc]

theorem sub_computes : Computes (fun x y f => sub x y f.carry) (-1) where
  digit x y f := by
    have := sub_digit x y f.carry
    omega
  sign x y f := sign_ofResult _
  overflow x y f := by rw [sub_overflow, neg_one_mul, ← sub_eq_add_neg, ← sub_sub]

/-! ### All bytes -/

section Chain

variable {op : UInt8 → UInt8 → Flags → Result} {xs ys : List UInt8}

/-- Sign and overflow of the whole result are those of its last byte. -/
theorem Computes.chain {σ : Int} (h : Computes op σ) (hne : xs ≠ []) (hlen : xs.length = ys.length)
    (f : Flags) :
    (chain op xs ys f).2.sign = decide (signed (chain op xs ys f).1 < 0) ∧
      (chain op xs ys f).2.parity =
        decide (¬ Fits xs.length (signed xs + σ * (signed ys + f.carry.toNat))) := by
  obtain ⟨x, xs, rfl⟩ := List.exists_cons_of_ne_nil hne
  obtain ⟨y, ys, rfl⟩ := List.exists_cons_of_length_eq_add_one hlen.symm
  replace hlen : xs.length = ys.length := Nat.succ.inj hlen
  induction xs generalizing x y ys f with
  | nil =>
      obtain rfl : ys = [] := List.eq_nil_of_length_eq_zero hlen.symm
      exact ⟨h.sign x y f, h.overflow x y f⟩
  | cons x' xs ih =>
      obtain ⟨y', ys, rfl⟩ := List.exists_cons_of_length_eq_add_one hlen.symm
      obtain ⟨hsign, hoverflow⟩ := ih (op x y f).flags x' (List.cons_ne_nil _ _) y' ys (Nat.succ.inj hlen)
      have hrest : (Alu.chain op (x' :: xs) (y' :: ys) (op x y f).flags).1 ≠ [] := List.cons_ne_nil _ _
      have hdigit := h.digit x y f
      have hvalue := (op x y f).value.toNat_lt
      constructor
      · refine hsign.trans (decide_eq_decide.mpr ?_)
        show _ ↔ signed ((op x y f).value :: _) < 0
        rw [signed_cons _ hrest]
        omega
      · refine hoverflow.trans (decide_eq_decide.mpr (not_congr ?_))
        rw [signed_cons x (List.cons_ne_nil x' xs), signed_cons y (List.cons_ne_nil y' ys)]
        rw [← Fits.cons_iff (n := (x' :: xs).length) (Nat.succ_ne_zero _) (op x y f).value]
        have hsplit : (x.toNat : Int) + 256 * signed (x' :: xs) +
            σ * (y.toNat + 256 * signed (y' :: ys) + f.carry.toNat) =
          (op x y f).value.toNat + 256 * (signed (x' :: xs) +
            σ * (signed (y' :: ys) + (op x y f).flags.carry.toNat)) := by
          simp only [Int.mul_add, Int.mul_left_comm σ 256] at hdigit ⊢
          omega
        rw [hsplit]
        rfl

theorem columns_add (hlen : xs.length = ys.length) (f : Flags) :
    let r := chain (fun x y f => add x y f.carry) xs ys f
    Columns 256 (xs.map UInt8.toNat) (ys.map UInt8.toNat) (r.1.map UInt8.toNat) f.carry r.2.carry :=
  chain_induction
    (motive := fun xs ys zs f f' => Columns 256 (xs.map UInt8.toNat) (ys.map UInt8.toNat)
      (zs.map UInt8.toNat) f.carry f'.carry)
    (fun f => .nil f.carry) (fun x y f _ _ _ _ _ _ ih => .cons (add_digit x y f.carry) ih) hlen
    (fun _ _ => True.intro) (fun _ _ => True.intro) f

theorem columns_sub (hlen : xs.length = ys.length) (f : Flags) :
    let r := chain (fun x y f => sub x y f.carry) xs ys f
    Columns 256 (r.1.map UInt8.toNat) (ys.map UInt8.toNat) (xs.map UInt8.toNat) f.carry r.2.carry :=
  chain_induction
    (motive := fun xs ys zs f f' => Columns 256 (zs.map UInt8.toNat) (ys.map UInt8.toNat)
      (xs.map UInt8.toNat) f.carry f'.carry)
    (fun f => .nil f.carry) (fun x y f _ _ _ _ _ _ ih => .cons (sub_digit x y f.carry) ih) hlen
    (fun _ _ => True.intro) (fun _ _ => True.intro) f

end Chain

/-! ### Words -/

/-- Does an operation on two words half by half, the lower half first. -/
def byHalves (op : UInt8 → UInt8 → Flags → Result) (a b : UInt16) (f : Flags) : List UInt8 × Flags :=
  chain op [Word.low a, Word.high a] [Word.low b, Word.high b] f

theorem ofNat_number_pair (low high : UInt8) :
    UInt16.ofNat (number [low, high]) = Word.ofBytes high low := by
  simp only [number_cons, Word.ofBytes]
  congr 1
  have : number [] = 0 := rfl
  omega

section Words

variable (a b : UInt16) (c : Bool) (f : Flags) {low high : Result}

/-- The sum of two words is made of the sums of their halves. -/
theorem add_halves (hlow : add (Word.low a) (Word.low b) c = low)
    (hhigh : add (Word.high a) (Word.high b) low.flags.carry = high) :
    UInt16.ofNat (a.toNat + b.toNat + c.toNat) = Word.ofBytes high.value low.value ∧
      decide (0x1000 ≤ a.toNat % 0x1000 + b.toNat % 0x1000 + c.toNat) = high.flags.half ∧
      decide (0x10000 ≤ a.toNat + b.toNat + c.toNat) = high.flags.carry := by
  have hdigit := add_digit (Word.low a) (Word.low b) c
  have hdigit' := add_digit (Word.high a) (Word.high b) low.flags.carry
  rw [hlow, Word.toNat_low, Word.toNat_low] at hdigit
  rw [hhigh, Word.toNat_high, Word.toNat_high] at hdigit'
  have := low.value.toNat_lt
  have := high.value.toNat_lt
  refine ⟨?_, ?_, ?_⟩
  · rw [← UInt16.toNat_inj, Word.toNat_ofBytes, UInt16.toNat_ofNat']
    omega
  · rw [← hhigh]
    refine decide_eq_decide.mpr ?_
    rw [Word.toNat_high, Word.toNat_high]
    omega
  · rw [← hhigh]
    refine decide_eq_decide.mpr ?_
    rw [Word.toNat_high, Word.toNat_high]
    omega

/-- The difference of two words is made of the differences of their halves. -/
theorem sub_halves (hlow : sub (Word.low a) (Word.low b) c = low)
    (hhigh : sub (Word.high a) (Word.high b) low.flags.carry = high) :
    UInt16.ofNat (0x20000 + a.toNat - b.toNat - c.toNat) = Word.ofBytes high.value low.value ∧
      decide (a.toNat % 0x1000 < b.toNat % 0x1000 + c.toNat) = high.flags.half ∧
      decide (a.toNat < b.toNat + c.toNat) = high.flags.carry := by
  have hdigit := sub_digit (Word.low a) (Word.low b) c
  have hdigit' := sub_digit (Word.high a) (Word.high b) low.flags.carry
  rw [hlow, Word.toNat_low, Word.toNat_low] at hdigit
  rw [hhigh, Word.toNat_high, Word.toNat_high] at hdigit'
  have := low.value.toNat_lt
  have := high.value.toNat_lt
  have := a.toNat_lt
  have := b.toNat_lt
  have := c.toNat_le
  refine ⟨?_, ?_, ?_⟩
  · rw [← UInt16.toNat_inj, Word.toNat_ofBytes, UInt16.toNat_ofNat']
    omega
  · rw [← hhigh]
    refine decide_eq_decide.mpr ?_
    rw [Word.toNat_high, Word.toNat_high]
    omega
  · rw [← hhigh]
    refine decide_eq_decide.mpr ?_
    rw [Word.toNat_high, Word.toNat_high]
    omega

/-- ADC HL adds the halves, and its zero flag is that of the whole sum. -/
theorem adc16_eq :
    adc16 a b f.carry =
      let sum := byHalves (fun x y f => add x y f.carry) a b f
      ⟨.ofNat (number sum.1), { sum.2 with zero := UInt16.ofNat (number sum.1) == 0 }⟩ := by
  obtain ⟨hvalue, hhalf, hcarry⟩ := add_halves a b f.carry rfl rfl
  simp only [adc16, byHalves, chain, ofNat_number_pair, hvalue, hhalf, hcarry, Word.high_ofBytes, negative]
  rfl

/-- SBC HL subtracts the halves, and its zero flag is that of the whole difference. -/
theorem sbc16_eq :
    sbc16 a b f.carry =
      let difference := byHalves (fun x y f => sub x y f.carry) a b f
      ⟨.ofNat (number difference.1),
        { difference.2 with zero := UInt16.ofNat (number difference.1) == 0 }⟩ := by
  obtain ⟨hvalue, hhalf, hcarry⟩ := sub_halves a b f.carry rfl rfl
  simp only [sbc16, byHalves, chain, ofNat_number_pair, hvalue, hhalf, hcarry, Word.high_ofBytes, negative]
  rfl

/-- ADD HL adds the halves without a carry, and keeps sign, zero and parity. -/
theorem add16_eq :
    add16 a b f =
      let sum := byHalves (fun x y f => add x y f.carry) a b { f with carry := false }
      ⟨.ofNat (number sum.1),
        { sum.2 with sign := f.sign, zero := f.zero, parity := f.parity, subtract := false }⟩ := by
  obtain ⟨hvalue, hhalf, hcarry⟩ := add_halves a b false rfl rfl
  have hsum : a + b = UInt16.ofNat (a.toNat + b.toNat + false.toNat) := by
    simp [UInt16.ofNat_add]
  rw [Bool.toNat_false, Nat.add_zero] at hhalf hcarry
  simp only [add16, byHalves, chain, ofNat_number_pair, hsum, hvalue, hhalf, hcarry, Word.high_ofBytes]
  rfl

end Words

/-! ### Arithmetic of any length -/

section Numbers

variable {xs ys : List UInt8}

theorem chain_add (hlen : xs.length = ys.length) (f : Flags) :
    let sum := chain (fun x y f => add x y f.carry) xs ys f
    number sum.1 = (number xs + number ys + f.carry.toNat) % 256 ^ xs.length ∧
      sum.2.carry = decide (256 ^ xs.length ≤ number xs + number ys + f.carry.toNat) := by
  have hsum := (columns_add hlen f).add_eq (by decide) (byte_lt _)
  rwa [List.length_map, length_chain hlen] at hsum

theorem chain_sub (hlen : xs.length = ys.length) (f : Flags) :
    let difference := chain (fun x y f => sub x y f.carry) xs ys f
    (number difference.1 : Int) =
        ((number xs : Int) - number ys - f.carry.toNat) % (256 ^ xs.length : Nat) ∧
      difference.2.carry = decide (number xs < number ys + f.carry.toNat) := by
  have hdifference := (columns_sub hlen f).sub_eq (by decide) (byte_lt _)
    (by rw [List.length_map, List.length_map, length_chain hlen])
  rwa [List.length_map] at hdifference

/--
**Binary arithmetic of any length.**  ADC from byte to byte adds numbers and SBC subtracts them, both
modulo the numbers of that length; at the end the carry is that of the unsigned numbers, the parity
flag is set if the result of the signed ones does not fit, and the sign is that of the whole result.
The operations on words are such chains of two bytes, with the zero flag of the word; ADD HL takes no
carry and keeps sign, zero and parity.
-/
theorem binary_chain (hne : xs ≠ []) (hlen : xs.length = ys.length) (f : Flags) (a b : UInt16) :
    (let sum := chain (fun x y f => add x y f.carry) xs ys f
     sum.1.length = xs.length ∧
      number sum.1 = (number xs + number ys + f.carry.toNat) % 256 ^ xs.length ∧
      sum.2.carry = decide (256 ^ xs.length ≤ number xs + number ys + f.carry.toNat) ∧
      sum.2.parity = decide (¬ Fits xs.length (signed xs + signed ys + f.carry.toNat)) ∧
      sum.2.sign = decide (signed sum.1 < 0)) ∧
    (let difference := chain (fun x y f => sub x y f.carry) xs ys f
     difference.1.length = xs.length ∧
      (number difference.1 : Int) =
        ((number xs : Int) - number ys - f.carry.toNat) % (256 ^ xs.length : Nat) ∧
      difference.2.carry = decide (number xs < number ys + f.carry.toNat) ∧
      difference.2.parity = decide (¬ Fits xs.length (signed xs - signed ys - f.carry.toNat)) ∧
      difference.2.sign = decide (signed difference.1 < 0)) ∧
    (let sum := byHalves (fun x y f => add x y f.carry) a b f
     adc16 a b f.carry =
      ⟨.ofNat (number sum.1), { sum.2 with zero := UInt16.ofNat (number sum.1) == 0 }⟩) ∧
    (let difference := byHalves (fun x y f => sub x y f.carry) a b f
     sbc16 a b f.carry =
      ⟨.ofNat (number difference.1),
        { difference.2 with zero := UInt16.ofNat (number difference.1) == 0 }⟩) ∧
    (let sum := byHalves (fun x y f => add x y f.carry) a b { f with carry := false }
     add16 a b f =
      ⟨.ofNat (number sum.1),
        { sum.2 with sign := f.sign, zero := f.zero, parity := f.parity, subtract := false }⟩) := by
  refine ⟨?_, ?_, adc16_eq a b f, sbc16_eq a b f, add16_eq a b f⟩
  · obtain ⟨hsign, hoverflow⟩ := add_computes.chain hne hlen f
    obtain ⟨hvalue, hcarry⟩ := chain_add hlen f
    rw [Int.one_mul, ← Int.add_assoc] at hoverflow
    exact ⟨length_chain hlen f, hvalue, hcarry, hoverflow, hsign⟩
  · obtain ⟨hsign, hoverflow⟩ := sub_computes.chain hne hlen f
    obtain ⟨hvalue, hcarry⟩ := chain_sub hlen f
    rw [Int.neg_one_mul, ← Int.sub_eq_add_neg, ← Int.sub_sub] at hoverflow
    exact ⟨length_chain hlen f, hvalue, hcarry, hoverflow, hsign⟩

/-- 32767 and 1 overflow to -32768, and -32768 less 1 to 32767; unsigned, neither carries. -/
theorem binary_chain_overflows :
    let sum := chain (fun x y f => add x y f.carry) [0xFF, 0x7F] [0x01, 0x00] .clear
    let difference := chain (fun x y f => sub x y f.carry) [0x00, 0x80] [0x01, 0x00] .clear
    (sum.1 = [0x00, 0x80] ∧ number sum.1 = (32767 + 1 + 0) % 65536 ∧ sum.2.carry = false ∧
      sum.2.parity = decide (¬ Fits 2 (32767 + 1 + 0)) ∧ sum.2.parity = true ∧ sum.2.sign = true) ∧
    (difference.1 = [0xFF, 0x7F] ∧ difference.2.carry = false ∧
      difference.2.parity = decide (¬ Fits 2 (-32768 - 1 - 0)) ∧ difference.2.parity = true ∧
      difference.2.sign = false) ∧
    adc16 0x7FFF 0x0001 false = ⟨0x8000, { sum.2 with zero := false }⟩ := by
  obtain ⟨⟨-, hsum, hcarry, hoverflow, hsign⟩, -, hword, -⟩ :=
    @binary_chain [0xFF, 0x7F] [0x01, 0x00] (by decide) rfl .clear 0x7FFF 0x0001
  obtain ⟨-, ⟨-, -, hborrow, hoverflow', hsign'⟩, -⟩ :=
    @binary_chain [0x00, 0x80] [0x01, 0x00] (by decide) rfl .clear 0 0
  have hmost : signed [0xFF, 0x7F] = 32767 := by decide
  have hleast : signed [0x00, 0x80] = -32768 := by decide
  have hone : signed [0x01, 0x00] = 1 := by decide
  rw [hmost, hone] at hoverflow
  rw [hleast, hone] at hoverflow'
  exact ⟨⟨rfl, hsum, hcarry.trans (by decide), hoverflow, rfl, hsign.trans (by decide)⟩,
    ⟨rfl, hborrow.trans (by decide), hoverflow', rfl, hsign'.trans (by decide)⟩, hword⟩

end Numbers

end Alu

end Z80
