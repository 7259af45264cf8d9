/-
Time only passes.

The clock is changed in two ways: T-states are counted, and a budget period begins.
`Elapsed n c c'` says that `n` T-states have been counted between two readings of one
period, whatever has become of the yield request meanwhile.  Everything that a processor
and its bus can do to a clock is an `Elapsed`, and the relation composes, so it is all
that later files know of a stretch of execution.

`current` is a 32-bit counter.  Where a period stays below 2³² its value is the plain sum,
and the rest of this file states what the budget operations then come to in `Nat`.
-/
import Mathlib.Algebra.GroupWithZero.Nat
import Z80.Clock

namespace Z80.Clock

/-- `c'` reads `n` T-states later than `c` in the same budget period. -/
structure Elapsed (n : Nat) (c c' : Clock) : Prop where
  total : c'.total = c.total + n
  current : c'.current = c.current + UInt32.ofNat n
  target : c'.target = c.target

namespace Elapsed

variable {m n : Nat} {c c' c'' : Clock}

theorem refl (c : Clock) : Elapsed 0 c c := ⟨rfl, by simp, rfl⟩

theorem advance (c : Clock) (n : Nat) : Elapsed n c (c.advance n) := ⟨rfl, rfl, rfl⟩

theorem trans (h : Elapsed m c c') (h' : Elapsed n c' c'') : Elapsed (m + n) c c'' := by
  refine ⟨?_, ?_, ?_⟩
  · rw [h'.total, h.total, Nat.add_assoc]
  · rw [h'.current, h.current, UInt32.ofNat_add, UInt32.add_assoc]
  · rw [h'.target, h.target]

/-- A yield request takes no time, whether it is made or taken. -/
theorem withYield (h : Elapsed n c c') (y : Bool) : Elapsed n c { c' with yieldRequested := y } :=
  ⟨h.total, h.current, h.target⟩

/-- Without a wrap the counter of the period has grown by the time that has passed. -/
theorem toNat_current (h : Elapsed n c c') (hwrap : c.current.toNat + n < 2 ^ 32) :
    c'.current.toNat = c.current.toNat + n := by
  rw [h.current, UInt32.toNat_add, UInt32.toNat_ofNat']
  omega

end Elapsed

/-! ### Budgets in natural numbers -/

theorem exhausted_iff (c : Clock) : c.exhausted = true ↔ c.target.toNat ≤ c.current.toNat := by
  simp [exhausted, UInt32.le_iff_toNat_le]

theorem not_exhausted_iff (c : Clock) : c.exhausted = false ↔ c.current.toNat < c.target.toNat := by
  rw [← Bool.not_eq_true, exhausted_iff, Nat.not_le]

theorem toNat_overrun (c : Clock) : c.overrun.toNat = c.current.toNat - c.target.toNat := by
  unfold overrun
  split
  · rename_i h
    rw [UInt32.toNat_sub_of_le _ _ h]
  · rename_i h
    rw [UInt32.le_iff_toNat_le] at h
    have : c.current.toNat - c.target.toNat = 0 := by omega
    rw [this]
    rfl

theorem toNat_remaining (c : Clock) : c.remaining.toNat = c.target.toNat - c.current.toNat := by
  unfold remaining
  split
  · rename_i h
    rw [UInt32.toNat_sub_of_le _ _ h]
  · rename_i h
    rw [UInt32.le_iff_toNat_le] at h
    have : c.target.toNat - c.current.toNat = 0 := by omega
    rw [this]
    rfl

/-- The rest of a period in NOPs, rounded up. -/
theorem toNat_haltNops (c : Clock) :
    c.haltNops.toNat = (c.target.toNat - c.current.toNat + 3) / 4 := by
  have hrest := c.toNat_remaining
  have hlt := c.remaining.toNat_lt
  have hmod : c.remaining % 4 = 0 ↔ c.remaining.toNat % 4 = 0 := by
    rw [← UInt32.toNat_inj, UInt32.toNat_mod]
    rfl
  unfold haltNops
  rw [UInt32.toNat_add, UInt32.toNat_div, show (4 : UInt32).toNat = 4 from rfl]
  split
  · rename_i h
    have := hmod.mp h
    rw [show (0 : UInt32).toNat = 0 from rfl]
    omega
  · rename_i h
    have : ¬ c.remaining.toNat % 4 = 0 := fun h' => h (hmod.mpr h')
    rw [show (1 : UInt32).toNat = 1 from rfl]
    omega

/-- The T-states of these NOPs are a number of 32 bits unless the rest of the period rounds up to 2³². -/
theorem haltNops_fits_iff (c : Clock) :
    c.haltNops.toNat * 4 < 2 ^ 32 ↔ c.target.toNat - c.current.toNat ≤ 2 ^ 32 - 4 := by
  rw [toNat_haltNops]
  omega

/-- In an exhausted period there is nothing left to idle through. -/
theorem haltNops_of_exhausted {c : Clock} (h : c.exhausted = true) : c.haltNops.toNat = 0 := by
  have := c.exhausted_iff.mp h
  rw [toNat_haltNops]
  omega

/-- One NOP of four T-states is one NOP less to go. -/
theorem haltNops_advance {c : Clock} (h : c.exhausted = false) (hwrap : c.target.toNat ≤ 2 ^ 32 - 4) :
    (c.advance 4).haltNops.toNat + 1 = c.haltNops.toNat := by
  have hlt := c.not_exhausted_iff.mp h
  have hcur := (Elapsed.advance c 4).toNat_current (by omega)
  have htgt := (Elapsed.advance c 4).target
  rw [toNat_haltNops, toNat_haltNops, hcur, htgt]
  omega

/-! ### Budgets one after the other -/

/-- The T-states that a list of budgets hands out. -/
def handedOut (budgets : List UInt32) : Nat := (budgets.map UInt32.toNat).sum

theorem handedOut_cons (budget : UInt32) (budgets : List UInt32) :
    handedOut (budget :: budgets) = budget.toNat + handedOut budgets := rfl

theorem handedOut_snoc (budgets : List UInt32) (budget : UInt32) :
    handedOut (budgets ++ [budget]) = handedOut budgets + budget.toNat := by
  simp [handedOut]

end Z80.Clock
