import Mathlib.Algebra.Ring.Nat

/-!
# What fits into a capacity

The entries of a list have weights. `Capacity.fit` takes entries from the front for as long as
the next one still fits. What it takes is the longest prefix within the capacity: the prefixes
of it are the prefixes of the list that are not too heavy (`prefix_fit_iff`).
-/

namespace Timeshare

namespace Capacity

variable {α : Type} {weight : α → Nat} {capacity : Nat} {l m p : List α} {a : α}

/-- The weight of all entries together. -/
def total (weight : α → Nat) (l : List α) : Nat := (l.map weight).sum

/-- The entries from the front, up to the first one that does not fit any more. -/
def fit (weight : α → Nat) : Nat → List α → List α
  | _, [] => []
  | capacity, a :: rest =>
    if weight a ≤ capacity then a :: fit weight (capacity - weight a) rest else []

@[simp] theorem total_nil : total weight [] = 0 := rfl

@[simp] theorem total_cons : total weight (a :: l) = weight a + total weight l := by
  simp [total]

@[simp] theorem total_append : total weight (l ++ m) = total weight l + total weight m := by
  simp [total]

@[simp] theorem fit_nil : fit weight capacity [] = [] := rfl

theorem fit_cons_of_le (h : weight a ≤ capacity) :
    fit weight capacity (a :: l) = a :: fit weight (capacity - weight a) l := by
  rw [fit, if_pos h]

theorem fit_cons_of_lt (h : capacity < weight a) : fit weight capacity (a :: l) = [] := by
  rw [fit, if_neg (Nat.not_le.2 h)]

/-- What fits has exactly the prefixes that are within the capacity. -/
theorem prefix_fit_iff : p <+: fit weight capacity l ↔ p <+: l ∧ total weight p ≤ capacity := by
  induction l generalizing capacity p with
  | nil =>
      rw [fit_nil, List.prefix_nil]
      exact ⟨by rintro rfl; exact ⟨rfl, Nat.zero_le _⟩, And.left⟩
  | cons a l ih =>
      cases p with
      | nil => simp
      | cons b p =>
          rw [List.cons_prefix_cons, total_cons]
          obtain h | h := Nat.lt_or_ge capacity (weight a)
          · rw [fit_cons_of_lt h, List.prefix_nil]
            constructor
            · intro hnil
              cases hnil
            · rintro ⟨⟨rfl, -⟩, hle⟩
              omega
          · rw [fit_cons_of_le h, List.cons_prefix_cons, ih]
            constructor
            · rintro ⟨rfl, hp, hle⟩
              exact ⟨⟨rfl, hp⟩, by omega⟩
            · rintro ⟨⟨rfl, hp⟩, hle⟩
              exact ⟨rfl, hp, by omega⟩

theorem fit_isPrefix (weight : α → Nat) (capacity : Nat) (l : List α) :
    fit weight capacity l <+: l :=
  (prefix_fit_iff.1 (List.prefix_refl _)).1

theorem total_fit_le (weight : α → Nat) (capacity : Nat) (l : List α) :
    total weight (fit weight capacity l) ≤ capacity :=
  (prefix_fit_iff.1 (List.prefix_refl _)).2

/-- A list that is within the capacity fits as a whole. -/
theorem fit_of_total_le (h : total weight l ≤ capacity) : fit weight capacity l = l :=
  (fit_isPrefix weight capacity l).eq_of_length_le
    (prefix_fit_iff.2 ⟨List.prefix_refl l, h⟩).length_le

/-- The entries behind those that fit make no difference. -/
theorem fit_eq_of_isPrefix (hp : p <+: l) (h : fit weight capacity l <+: p) :
    fit weight capacity p = fit weight capacity l := by
  have hle : fit weight capacity p <+: fit weight capacity l :=
    prefix_fit_iff.2 ⟨(fit_isPrefix ..).trans hp, total_fit_le ..⟩
  have hge : fit weight capacity l <+: fit weight capacity p :=
    prefix_fit_iff.2 ⟨h, total_fit_le ..⟩
  exact hle.eq_of_length_le hge.length_le

/-- After a list that fits as a whole, more is taken into what it leaves of the capacity. -/
theorem fit_append_of_le (h : total weight l ≤ capacity) (m : List α) :
    fit weight capacity (l ++ m) = l ++ fit weight (capacity - total weight l) m := by
  induction l generalizing capacity with
  | nil => simp
  | cons a l ih =>
      rw [total_cons] at h
      rw [List.cons_append, fit_cons_of_le (by omega), ih (by omega), total_cons, Nat.sub_sub,
        List.cons_append]

/-- After a list that does not fit as a whole, nothing more is taken. -/
theorem fit_append_of_lt (h : capacity < total weight l) (m : List α) :
    fit weight capacity (l ++ m) = fit weight capacity l := by
  induction l generalizing capacity with
  | nil => exact absurd h (Nat.not_lt_zero _)
  | cons a l ih =>
      rw [total_cons] at h
      obtain ha | ha := Nat.lt_or_ge capacity (weight a)
      · rw [List.cons_append, fit_cons_of_lt ha, fit_cons_of_lt ha]
      · rw [List.cons_append, fit_cons_of_le ha, fit_cons_of_le ha, ih (by omega)]

/-- The first entry that is left behind does not fit any more. -/
theorem lt_of_fit_append (h : fit weight capacity l ++ a :: m = l) :
    capacity < total weight (fit weight capacity l) + weight a := by
  apply Nat.lt_of_not_le
  intro hle
  have hbegins : fit weight capacity l ++ [a] <+: l := by
    refine ⟨m, ?_⟩
    rw [List.append_assoc]
    exact h
  have hfits : fit weight capacity l ++ [a] <+: fit weight capacity l := by
    rw [prefix_fit_iff, total_append, total_cons, total_nil]
    exact ⟨hbegins, hle⟩
  have hlength := hfits.length_le
  rw [List.length_append, List.length_singleton] at hlength
  omega

end Capacity

end Timeshare
