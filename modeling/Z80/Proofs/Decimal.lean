/-
Decimal arithmetic.

A packed byte holds two decimal digits.  Adding and subtracting treat it as any other byte, and DAA
puts the result right: it learns from the flags, and from digits that are too large, what a decimal
addition would have carried out of each digit, or a subtraction would have borrowed, and takes the
difference between sixteen and ten into account (`decimalAdjust_of`).  So ADC or SBC with a DAA
behind it is one column of a decimal sum, and DAA leaves a carry that the next column can take.
-/
import Z80.Proofs.Carrying

namespace Z80

namespace Alu

/-- Both digits of a byte are decimal. -/
def Packed (b : UInt8) : Prop := b.toNat / 16 ≤ 9 ∧ b.toNat % 16 ≤ 9

instance (b : UInt8) : Decidable (Packed b) :=
  inferInstanceAs (Decidable (b.toNat / 16 ≤ 9 ∧ b.toNat % 16 ≤ 9))

/-- The number that the two digits of a byte write. -/
def decimal (b : UInt8) : Nat := 10 * (b.toNat / 16) + b.toNat % 16

/-- The number that packed bytes write, the lowest first. -/
def decimals (bs : List UInt8) : Nat := Nat.ofDigits 100 (bs.map decimal)

/-- An operation on the accumulator with a DAA behind it. -/
def adjusted (op : Op) (x y : UInt8) (f : Flags) : Result :=
  let r := op.apply x y f
  decimalAdjust r.value r.flags

theorem Packed.decimal_lt {b : UInt8} (h : Packed b) : decimal b < 100 := by
  unfold Packed decimal at *
  omega

theorem decimal_lt_of_mem {bs : List UInt8} (h : ∀ b ∈ bs, Packed b) :
    ∀ z ∈ bs.map decimal, z < 100 := by
  rw [List.forall_mem_map]
  exact fun b hb => (h b hb).decimal_lt

/-- A byte whose digits are known. -/
theorem packed_and_decimal {b : UInt8} {high low : Nat} (h : b.toNat = 16 * high + low)
    (hhigh : high ≤ 9) (hlow : low ≤ 9) : Packed b ∧ decimal b = 10 * high + low := by
  unfold Packed decimal
  omega

/-! ### One byte -/

/--
DAA corrects each digit that the flags or its size show to have been carried out of, and its own
carry is that of the upper one.
-/
theorem decimalAdjust_of {a : UInt8} {f : Flags} {low high : Nat} (hlow : low ≤ 1)
    (hhigh : high ≤ 1) (low_iff : f.half = true ∨ 9 < a.toNat % 16 ↔ low = 1)
    (high_iff : f.carry = true ∨ 0x99 < a.toNat ↔ high = 1) :
    ∃ k : UInt8, k.toNat = 6 * low + 96 * high ∧
      (decimalAdjust a f).value = (if f.subtract then a - k else a + k) ∧
      (decimalAdjust a f).flags.carry.toNat = high := by
  have hdigit : (f.half || decide (9 < a.toNat % 16)) = decide (low = 1) := by
    rw [Bool.eq_iff_iff]
    simpa using low_iff
  have hcarry : (f.carry || decide (0x99 < a.toNat)) = decide (high = 1) := by
    rw [Bool.eq_iff_iff]
    simpa using high_iff
  refine ⟨.ofNat (6 * low + 96 * high), ?_, ?_, ?_⟩
  · rw [UInt8.toNat_ofNat']
    omega
  · simp only [decimalAdjust, hdigit, hcarry, decide_eq_true_eq]
    rcases Nat.le_one_iff_eq_zero_or_eq_one.mp hlow with rfl | rfl <;>
      rcases Nat.le_one_iff_eq_zero_or_eq_one.mp hhigh with rfl | rfl <;> rfl
  · show (f.carry || decide (0x99 < a.toNat)).toNat = high
    rw [hcarry]
    rcases Nat.le_one_iff_eq_zero_or_eq_one.mp hhigh with rfl | rfl <;> rfl

section Columns

variable {x y : UInt8} {f : Flags}

/-- ADC and DAA add up a column. -/
theorem adjusted_adc (hx : Packed x) (hy : Packed y) :
    Packed (adjusted .adc x y f).value ∧
      decimal x + decimal y + f.carry.toNat =
        decimal (adjusted .adc x y f).value + 100 * (adjusted .adc x y f).flags.carry.toNat := by
  have hc : f.carry.toNat ≤ 1 := Bool.toNat_le _
  have hvalue : (Op.adc.apply x y f).value.toNat = (x.toNat + y.toNat + f.carry.toNat) % 256 :=
    UInt8.toNat_ofNat'
  have hhalf : (Op.adc.apply x y f).flags.half = true ↔
      16 ≤ x.toNat % 16 + y.toNat % 16 + f.carry.toNat := decide_eq_true_iff
  have hcarry : (Op.adc.apply x y f).flags.carry = true ↔
      256 ≤ x.toNat + y.toNat + f.carry.toNat := decide_eq_true_iff
  unfold Packed at hx hy
  -- the carries out of the two decimal digits
  obtain ⟨low, hlow⟩ : ∃ c, c = (x.toNat % 16 + y.toNat % 16 + f.carry.toNat) / 10 := ⟨_, rfl⟩
  obtain ⟨high, hhigh⟩ : ∃ c, c = (x.toNat / 16 + y.toNat / 16 + low) / 10 := ⟨_, rfl⟩
  have low_iff : (Op.adc.apply x y f).flags.half = true ∨
      9 < (Op.adc.apply x y f).value.toNat % 16 ↔ low = 1 := by
    rw [hhalf]
    omega
  have high_iff : (Op.adc.apply x y f).flags.carry = true ∨
      0x99 < (Op.adc.apply x y f).value.toNat ↔ high = 1 := by
    rw [hcarry]
    omega
  obtain ⟨k, hk, hadjusted, hout⟩ := decimalAdjust_of (by omega) (by omega) low_iff high_iff
  have hsum : (adjusted .adc x y f).value.toNat =
      16 * (x.toNat / 16 + y.toNat / 16 + low - 10 * high) +
        (x.toNat % 16 + y.toNat % 16 + f.carry.toNat - 10 * low) := by
    rw [adjusted, hadjusted]
    show (_ + k).toNat = _
    rw [UInt8.toNat_add, hk, hvalue]
    have : low = 0 ∨ low = 1 := by omega
    have : high = 0 ∨ high = 1 := by omega
    omega
  obtain ⟨hpacked, hdecimal⟩ := packed_and_decimal hsum (by omega) (by omega)
  refine ⟨hpacked, ?_⟩
  have hout : (adjusted .adc x y f).flags.carry.toNat = high := hout
  rw [hdecimal, hout, decimal, decimal]
  omega

/-- SBC and DAA find what adds up to a column. -/
theorem adjusted_sbc (hx : Packed x) (hy : Packed y) :
    Packed (adjusted .sbc x y f).value ∧
      decimal (adjusted .sbc x y f).value + decimal y + f.carry.toNat =
        decimal x + 100 * (adjusted .sbc x y f).flags.carry.toNat := by
  have hc : f.carry.toNat ≤ 1 := Bool.toNat_le _
  have hvalue : (Op.sbc.apply x y f).value.toNat =
      (512 + x.toNat - y.toNat - f.carry.toNat) % 256 := UInt8.toNat_ofNat'
  have hhalf : (Op.sbc.apply x y f).flags.half = true ↔
      x.toNat % 16 < y.toNat % 16 + f.carry.toNat := decide_eq_true_iff
  have hcarry : (Op.sbc.apply x y f).flags.carry = true ↔
      x.toNat < y.toNat + f.carry.toNat := decide_eq_true_iff
  unfold Packed at hx hy
  -- what is borrowed for the two decimal digits
  obtain ⟨low, hlow⟩ : ∃ c, c = (y.toNat % 16 + f.carry.toNat + 9 - x.toNat % 16) / 10 := ⟨_, rfl⟩
  obtain ⟨high, hhigh⟩ : ∃ c, c = (y.toNat / 16 + low + 9 - x.toNat / 16) / 10 := ⟨_, rfl⟩
  have low_iff : (Op.sbc.apply x y f).flags.half = true ∨
      9 < (Op.sbc.apply x y f).value.toNat % 16 ↔ low = 1 := by
    rw [hhalf]
    omega
  have high_iff : (Op.sbc.apply x y f).flags.carry = true ∨
      0x99 < (Op.sbc.apply x y f).value.toNat ↔ high = 1 := by
    rw [hcarry]
    omega
  obtain ⟨k, hk, hadjusted, hout⟩ := decimalAdjust_of (by omega) (by omega) low_iff high_iff
  have hdifference : (adjusted .sbc x y f).value.toNat =
      16 * (x.toNat / 16 + 10 * high - y.toNat / 16 - low) +
        (x.toNat % 16 + 10 * low - y.toNat % 16 - f.carry.toNat) := by
    rw [adjusted, hadjusted]
    show (_ - k).toNat = _
    rw [UInt8.toNat_sub, hk, hvalue]
    have : low = 0 ∨ low = 1 := by omega
    have : high = 0 ∨ high = 1 := by omega
    omega
  obtain ⟨hpacked, hdecimal⟩ := packed_and_decimal hdifference (by omega) (by omega)
  refine ⟨hpacked, ?_⟩
  have hout : (adjusted .sbc x y f).flags.carry.toNat = high := hout
  rw [hdecimal, hout, decimal, decimal]
  omega

end Columns

/-! ### All bytes -/

section Numbers

variable {xs ys : List UInt8} {op : Op}

/-- If each byte comes out packed, all do. -/
theorem packed_chain (hop : ∀ {x y f}, Packed x → Packed y → Packed (adjusted op x y f).value)
    (hlen : xs.length = ys.length) (hxs : ∀ b ∈ xs, Packed b) (hys : ∀ b ∈ ys, Packed b)
    (f : Flags) :
    (chain (adjusted op) xs ys f).1.length = xs.length ∧
      ∀ b ∈ (chain (adjusted op) xs ys f).1, Packed b := by
  refine ⟨length_chain hlen f, chain_induction (motive := fun _ _ zs _ _ => ∀ b ∈ zs, Packed b)
    (fun f b hb => absurd hb List.not_mem_nil) ?_ hlen hxs hys f⟩
  intro x y f xs ys zs f' hx hy ih
  exact List.forall_mem_cons.mpr ⟨hop hx hy, ih⟩

theorem columns_adc (hlen : xs.length = ys.length) (hxs : ∀ b ∈ xs, Packed b)
    (hys : ∀ b ∈ ys, Packed b) (f : Flags) :
    Columns 100 (xs.map decimal) (ys.map decimal)
      ((chain (adjusted .adc) xs ys f).1.map decimal) f.carry
      (chain (adjusted .adc) xs ys f).2.carry := by
  refine chain_induction (motive := fun xs ys zs f f' =>
    Columns 100 (xs.map decimal) (ys.map decimal) (zs.map decimal) f.carry f'.carry)
    (fun f => .nil f.carry) ?_ hlen hxs hys f
  intro x y f xs ys zs f' hx hy ih
  exact .cons (adjusted_adc hx hy).2 ih

theorem columns_sbc (hlen : xs.length = ys.length) (hxs : ∀ b ∈ xs, Packed b)
    (hys : ∀ b ∈ ys, Packed b) (f : Flags) :
    Columns 100 ((chain (adjusted .sbc) xs ys f).1.map decimal) (ys.map decimal) (xs.map decimal)
      f.carry (chain (adjusted .sbc) xs ys f).2.carry := by
  refine chain_induction (motive := fun xs ys zs f f' =>
    Columns 100 (zs.map decimal) (ys.map decimal) (xs.map decimal) f.carry f'.carry)
    (fun f => .nil f.carry) ?_ hlen hxs hys f
  intro x y f xs ys zs f' hx hy ih
  exact .cons (adjusted_sbc hx hy).2 ih

/--
**Decimal arithmetic of any length.**  ADC and DAA from byte to byte add decimal numbers, SBC and
DAA subtract them; both wrap around at the number of digits there are, and the carry says if they
did.
-/
theorem decimal_chain (hlen : xs.length = ys.length) (hxs : ∀ b ∈ xs, Packed b)
    (hys : ∀ b ∈ ys, Packed b) (f : Flags) :
    (let sum := chain (adjusted .adc) xs ys f
     sum.1.length = xs.length ∧ (∀ b ∈ sum.1, Packed b) ∧
      decimals sum.1 = (decimals xs + decimals ys + f.carry.toNat) % 100 ^ xs.length ∧
      sum.2.carry = decide (100 ^ xs.length ≤ decimals xs + decimals ys + f.carry.toNat)) ∧
    (let difference := chain (adjusted .sbc) xs ys f
     difference.1.length = xs.length ∧ (∀ b ∈ difference.1, Packed b) ∧
      (decimals difference.1 : Int) =
        ((decimals xs : Int) - decimals ys - f.carry.toNat) % (100 ^ xs.length : Nat) ∧
      difference.2.carry = decide (decimals xs < decimals ys + f.carry.toNat)) := by
  constructor
  · obtain ⟨hlength, hpacked⟩ := packed_chain (fun hx hy => (adjusted_adc hx hy).1) hlen hxs hys f
    have hsum := (columns_adc hlen hxs hys f).add_eq (by decide) (decimal_lt_of_mem hpacked)
    rw [List.length_map, hlength] at hsum
    exact ⟨hlength, hpacked, hsum⟩
  · obtain ⟨hlength, hpacked⟩ := packed_chain (fun hx hy => (adjusted_sbc hx hy).1) hlen hxs hys f
    have hdifference := (columns_sbc hlen hxs hys f).sub_eq (by decide) (decimal_lt_of_mem hpacked)
      (by rw [List.length_map, List.length_map, hlength])
    rw [List.length_map] at hdifference
    exact ⟨hlength, hpacked, hdifference⟩

/-- 9999 and 1 wrap around to 0, and 0 less 1 to 9999. -/
theorem decimal_chain_wraps :
    (chain (adjusted .adc) [0x99, 0x99] [0x01, 0x00] .clear).1 = [0x00, 0x00] ∧
      decimals (chain (adjusted .adc) [0x99, 0x99] [0x01, 0x00] .clear).1 = (9999 + 1) % 10000 ∧
      (chain (adjusted .adc) [0x99, 0x99] [0x01, 0x00] .clear).2.carry = true ∧
      (chain (adjusted .sbc) [0x00, 0x00] [0x01, 0x00] .clear).1 = [0x99, 0x99] ∧
      (decimals (chain (adjusted .sbc) [0x00, 0x00] [0x01, 0x00] .clear).1 : Int) =
        (0 - 1 - 0) % (10000 : Nat) ∧
      (chain (adjusted .sbc) [0x00, 0x00] [0x01, 0x00] .clear).2.carry = true := by
  obtain ⟨-, -, hsum, hcarry⟩ := (@decimal_chain [0x99, 0x99] [0x01, 0x00] rfl
    (by simp [Packed]) (by simp [Packed]) .clear).1
  obtain ⟨-, -, hdifference, hborrow⟩ := (@decimal_chain [0x00, 0x00] [0x01, 0x00] rfl
    (by simp [Packed]) (by simp [Packed]) .clear).2
  exact ⟨by decide, hsum, hcarry, by decide, hdifference, hborrow⟩

end Numbers

end Alu

end Z80
