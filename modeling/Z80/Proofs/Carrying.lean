/-
Numbers of several bytes.

Programs add and subtract long numbers byte by byte, the lowest first, and the flags lead the carry
from each byte to the next.  `chain` is such a loop, for any operation on two bytes and the flags
before it.  What each byte contributes is an equation about digits: two of them and the carry that
comes in are the digit of the sum and the base for the carry that goes out.  `Columns` strings such
equations together, as one adds on paper, and `Columns.sum` is what they say of the whole numbers.
Subtraction needs no equation of its own: the difference and the subtrahend add up to the minuend.
-/
import Mathlib.Data.Nat.Digits.Defs
import Z80.Alu

namespace Z80

namespace Alu

/-- Does an operation on two numbers byte by byte, each with the flags of the one before. -/
def chain (op : UInt8 → UInt8 → Flags → Result) :
    List UInt8 → List UInt8 → Flags → List UInt8 × Flags
  | x :: xs, y :: ys, f =>
      let r := op x y f
      let rest := chain op xs ys r.flags
      (r.value :: rest.1, rest.2)
  | _, _, f => ([], f)

/-- What the operation does with one byte of each, it does with all of them. -/
theorem chain_induction {op : UInt8 → UInt8 → Flags → Result} {valid : UInt8 → Prop}
    {motive : List UInt8 → List UInt8 → List UInt8 → Flags → Flags → Prop}
    (nil : ∀ f, motive [] [] [] f f)
    (cons : ∀ x y f xs ys zs f', valid x → valid y → motive xs ys zs (op x y f).flags f' →
      motive (x :: xs) (y :: ys) ((op x y f).value :: zs) f f')
    {xs ys : List UInt8} (hlen : xs.length = ys.length) (hxs : ∀ b ∈ xs, valid b)
    (hys : ∀ b ∈ ys, valid b) (f : Flags) :
    motive xs ys (chain op xs ys f).1 f (chain op xs ys f).2 := by
  induction xs generalizing ys f with
  | nil =>
      obtain rfl : ys = [] := List.eq_nil_of_length_eq_zero hlen.symm
      exact nil f
  | cons x xs ih =>
      obtain ⟨y, ys, rfl⟩ := List.exists_cons_of_length_eq_add_one hlen.symm
      rw [List.forall_mem_cons] at hxs hys
      exact cons x y f xs ys _ _ hxs.1 hys.1 (ih (Nat.succ.inj hlen) hxs.2 hys.2 _)

theorem length_chain {op : UInt8 → UInt8 → Flags → Result} {xs ys : List UInt8}
    (hlen : xs.length = ys.length) (f : Flags) : (chain op xs ys f).1.length = xs.length :=
  chain_induction (motive := fun xs _ zs _ _ => zs.length = xs.length)
    (fun _ => rfl) (fun _ _ _ _ _ _ _ _ _ ih => congrArg (· + 1) ih) hlen
    (fun _ _ => True.intro) (fun _ _ => True.intro) f

end Alu

/-- Digits added up in columns, the lowest first, with the carry into them and the carry out. -/
inductive Columns (base : Nat) : List Nat → List Nat → List Nat → Bool → Bool → Prop where
  | nil (c : Bool) : Columns base [] [] [] c c
  | cons {x y z : Nat} {xs ys zs : List Nat} {c c' c'' : Bool}
      (digit : x + y + c.toNat = z + base * c'.toNat) (rest : Columns base xs ys zs c' c'') :
      Columns base (x :: xs) (y :: ys) (z :: zs) c c''

namespace Columns

variable {base : Nat} {xs ys zs : List Nat} {c c' : Bool}

/-- The carry out of the last column counts one more place. -/
theorem sum (h : Columns base xs ys zs c c') :
    Nat.ofDigits base xs + Nat.ofDigits base ys + c.toNat =
      Nat.ofDigits base zs + base ^ zs.length * c'.toNat := by
  induction h with
  | nil c => simp
  | @cons x y z xs ys zs c c' c'' digit rest ih =>
      have htail := congrArg (base * ·) ih
      simp only [Nat.mul_add, ← Nat.mul_assoc, ← pow_succ'] at htail
      simp only [Nat.ofDigits_cons, List.length_cons]
      omega

/-- The digits are those of the sum as far as they reach, and the carry says if it has more. -/
theorem add_eq (hbase : 1 < base) (h : Columns base xs ys zs c c') (hzs : ∀ z ∈ zs, z < base) :
    Nat.ofDigits base zs =
        (Nat.ofDigits base xs + Nat.ofDigits base ys + c.toNat) % base ^ zs.length ∧
      c' = decide (base ^ zs.length ≤ Nat.ofDigits base xs + Nat.ofDigits base ys + c.toNat) := by
  have hlt := Nat.ofDigits_lt_base_pow_length hbase hzs
  rw [h.sum]
  cases c' with
  | false => simp [Nat.mod_eq_of_lt hlt, hlt]
  | true => simp [Nat.mod_eq_of_lt hlt]

/-- The digits added are those of a difference, and the carry says if it has been borrowed for. -/
theorem sub_eq (hbase : 1 < base) (h : Columns base xs ys zs c c') (hxs : ∀ x ∈ xs, x < base)
    (hlen : xs.length = zs.length) :
    ((Nat.ofDigits base xs : Nat) : Int) =
        ((Nat.ofDigits base zs : Nat) - (Nat.ofDigits base ys : Nat) - c.toNat) %
          (base ^ zs.length : Nat) ∧
      c' = decide (Nat.ofDigits base zs < Nat.ofDigits base ys + c.toNat) := by
  have hlt := Nat.ofDigits_lt_base_pow_length hbase hxs
  have hsum := h.sum
  rw [hlen] at hlt
  cases c' with
  | false =>
      rw [Bool.toNat_false, Nat.mul_zero] at hsum
      constructor
      · rw [Int.emod_eq_of_lt (by omega) (by omega)]
        omega
      · simp
        omega
  | true =>
      rw [Bool.toNat_true, Nat.mul_one] at hsum
      constructor
      · rw [← Int.add_emod_right, Int.emod_eq_of_lt (by omega) (by omega)]
        omega
      · simp
        omega

end Columns

end Z80
