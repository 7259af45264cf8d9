/-
Assignments, one after the other.

Memory, the inputs of the port space and the register file keep the same promise: under a key one
finds what was assigned to it last, and what was there before if nothing has been.  `assigned` is that
promise for a table and a list of assignments.  Something that changes step by step keeps it through
a whole run as soon as each step amounts to some assignments (`view_foldl`).
-/

namespace Z80

variable {κ α σ υ : Type} [DecidableEq κ]

/-- What a list of assignments has assigned to a key last, if it has assigned anything to it. -/
def latest? (assignments : List (κ × α)) (key : κ) : Option α := assignments.reverse.lookup key

/-- A table after a list of assignments. -/
def assigned (table : κ → α) (assignments : List (κ × α)) (key : κ) : α :=
  (latest? assignments key).getD (table key)

@[simp] theorem assigned_nil (table : κ → α) : assigned table [] = table := rfl

/-- Assignments that come later count for more. -/
theorem assigned_append (table : κ → α) (earlier later : List (κ × α)) :
    assigned table (earlier ++ later) = assigned (assigned table earlier) later := by
  funext key
  simp only [assigned, latest?, List.reverse_append, List.lookup_append, Option.getD_or]

theorem assigned_cons (table : κ → α) (a : κ × α) (later : List (κ × α)) :
    assigned table (a :: later) = assigned (assigned table [a]) later :=
  assigned_append table [a] later

/-- A run of steps makes the assignments of its steps, in order. -/
theorem view_foldl (view : σ → κ → α) {step : σ → υ → σ} {makes : υ → List (κ × α)}
    (hstep : ∀ s u, view (step s u) = assigned (view s) (makes u)) (s : σ) (us : List υ) :
    view (us.foldl step s) = assigned (view s) (us.flatMap makes) := by
  induction us generalizing s with
  | nil => rfl
  | cons u us ih => rw [List.foldl_cons, ih, hstep, List.flatMap_cons, assigned_append]

/-- Under a key one finds what was there before, or not, whatever is under the others. -/
theorem assigned_congr {table table' : κ → α} {key : κ} (h : table key = table' key)
    (assignments : List (κ × α)) : assigned table assignments key = assigned table' assignments key := by
  rw [assigned, assigned, h]

/-- What has no assignment stays. -/
theorem assigned_of_forall_ne (table : κ → α) {assignments : List (κ × α)} {key : κ}
    (h : ∀ a ∈ assignments, a.1 ≠ key) : assigned table assignments key = table key := by
  have hnone : latest? assignments key = none := by
    refine List.lookup_eq_none_iff.mpr fun a ha => ?_
    have hne : key ≠ a.1 := (h a (List.mem_reverse.mp ha)).symm
    exact bne_iff_ne.mpr hne
  rw [assigned, hnone, Option.getD_none]

theorem assigned_singleton (table : κ → α) (key key' : κ) (v : α) :
    assigned table [(key, v)] key' = if key = key' then v else table key' := by
  by_cases h : key = key'
  · subst h
    simp [assigned, latest?]
  · rw [if_neg h, assigned_of_forall_ne table]
    rintro a ha rfl
    rw [List.mem_singleton] at ha
    exact h (congrArg Prod.fst ha).symm

/-- Assignments to different keys do not mind the order. -/
theorem assigned_comm (table : κ → α) {these those : List (κ × α)}
    (h : ∀ a ∈ these, ∀ b ∈ those, a.1 ≠ b.1) :
    assigned (assigned table these) those = assigned (assigned table those) these := by
  funext key
  by_cases hkey : ∃ a ∈ these, a.1 = key
  · obtain ⟨a, ha, rfl⟩ := hkey
    have hthose : ∀ table' : κ → α, assigned table' those a.1 = table' a.1 := by
      intro table'
      exact assigned_of_forall_ne table' fun b hb => (h a ha b hb).symm
    rw [hthose, assigned_congr (hthose table)]
  · have hthese : ∀ table' : κ → α, assigned table' these key = table' key := by
      intro table'
      exact assigned_of_forall_ne table' fun a ha heq => hkey ⟨a, ha, heq⟩
    rw [hthese, assigned_congr (hthese table)]

/-- Different keys that have been assigned values hold these values. -/
theorem map_assigned_zip (table : κ → α) {keys : List κ} {values : List α} (hnodup : keys.Nodup)
    (hlength : keys.length = values.length) : keys.map (assigned table (keys.zip values)) = values := by
  induction keys generalizing table values with
  | nil => exact (List.length_eq_zero_iff.mp hlength.symm).symm
  | cons key keys ih =>
      cases values with
      | nil => exact absurd hlength (Nat.succ_ne_zero _)
      | cons v values =>
          obtain ⟨hkey, hkeys⟩ := List.nodup_cons.mp hnodup
          have hhead : assigned (assigned table [(key, v)]) (keys.zip values) key = v := by
            rw [assigned_of_forall_ne, assigned_singleton, if_pos rfl]
            rintro a ha rfl
            exact hkey (List.of_mem_zip ha).1
          rw [List.zip_cons_cons, assigned_cons, List.map_cons, hhead, ih _ hkeys (Nat.succ.inj hlength)]

end Z80
