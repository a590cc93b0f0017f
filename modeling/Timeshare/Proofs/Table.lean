import Mathlib.Algebra.Ring.Nat
import Timeshare.Table

/-!
# What is found in a changed table
-/

namespace Timeshare

namespace Table

variable {α β : Type} {t : Table α} {k j : Nat} {v w : α}

theorem get?_insert_eq_some_iff :
    (t.insert k v).get? j = some w ↔ k = j ∧ v = w ∨ k ≠ j ∧ t.get? j = some w := by
  rw [get?_insert]
  by_cases h : k = j <;> simp [h]

theorem get?_erase_eq_some_iff :
    (t.erase k).get? j = some w ↔ k ≠ j ∧ t.get? j = some w := by
  rw [get?_erase]
  by_cases h : k = j <;> simp [h]

theorem get?_filter_eq_some_iff {p : Nat → α → Bool} :
    (t.filter p).get? j = some w ↔ t.get? j = some w ∧ p j w = true := by
  rw [get?_filter, Option.filter_eq_some_iff]

/-- What holds of every entry holds after an insertion if it holds of the new one. -/
theorem forall_get?_insert {P : Nat → α → Prop} (h : ∀ j w, t.get? j = some w → P j w)
    (hv : P k v) : ∀ j w, (t.insert k v).get? j = some w → P j w := by
  intro j w hj
  obtain ⟨rfl, rfl⟩ | ⟨-, hj⟩ := get?_insert_eq_some_iff.1 hj
  · exact hv
  · exact h j w hj

theorem exists_get?_insert (h : k = j ∨ ∃ w, t.get? j = some w) (v : α) :
    ∃ w, (t.insert k v).get? j = some w := by
  rw [get?_insert]
  split
  next => exact ⟨v, rfl⟩
  next hne => exact h.resolve_left hne

theorem mem_values_iff : v ∈ t.values ↔ ∃ k, t.get? k = some v := by
  simp only [values, List.mem_map, Prod.exists, mem_entries_iff, exists_eq_right]

theorem mem_keys_iff : k ∈ t.keys ↔ ∃ v, t.get? k = some v := by
  simp [keys, mem_entries_iff]

/-- To write the value that is there changes nothing. -/
theorem insert_of_get? (h : t.get? k = some v) : t.insert k v = t := by
  apply ext_get?
  intro j
  rw [get?_insert]
  split
  next hj => rw [← hj, h]
  next => rfl

/-! ## Entries up to their order -/

theorem nodup_entries (t : Table α) : t.entries.Nodup := by
  refine List.Pairwise.imp ?_ t.ascending
  rintro e e' hlt rfl
  exact Nat.lt_irrefl e.1 hlt

/-- A table consists of the entry at a key and of what is left without it. -/
theorem entries_perm_of_get? (h : t.get? k = some v) :
    t.entries.Perm ((k, v) :: (t.erase k).entries) := by
  have hnot : (k, v) ∉ (t.erase k).entries := by
    rw [mem_entries_iff, get?_erase, if_pos rfl]
    simp
  rw [List.perm_ext_iff_of_nodup t.nodup_entries
    (List.nodup_cons.2 ⟨hnot, (t.erase k).nodup_entries⟩)]
  rintro ⟨j, w⟩
  rw [List.mem_cons, mem_entries_iff, mem_entries_iff, get?_erase_eq_some_iff, Prod.mk.injEq]
  constructor
  · intro hj
    by_cases hk : k = j
    · subst hk
      rw [h] at hj
      cases hj
      exact .inl ⟨rfl, rfl⟩
    · exact .inr ⟨hk, hj⟩
  · rintro (⟨rfl, rfl⟩ | ⟨-, hj⟩)
    · exact h
    · exact hj

theorem erase_insert (t : Table α) (k : Nat) (v : α) : (t.insert k v).erase k = t.erase k := by
  apply ext_get?
  intro j
  rw [get?_erase, get?_erase, get?_insert]
  split <;> rfl

theorem erase_of_absent (h : t.get? k = none) : t.erase k = t := by
  apply ext_get?
  intro j
  rw [get?_erase]
  split
  next heq => rw [← heq, h]
  next => rfl

theorem entries_insert_perm (t : Table α) (k : Nat) (v : α) :
    (t.insert k v).entries.Perm ((k, v) :: (t.erase k).entries) := by
  have hperm := entries_perm_of_get? (t.get?_insert_self k v)
  rwa [erase_insert] at hperm

theorem keys_insert_of_absent (h : t.get? k = none) (v : α) :
    (t.insert k v).keys.Perm (k :: t.keys) := by
  have hperm := (t.entries_insert_perm k v).map (·.1)
  rwa [erase_of_absent h] at hperm

/-- The keys that a filter takes out of a table and those that it leaves. -/
theorem keys_filter_perm (t : Table α) (p : Nat → α → Bool) :
    ((t.filter p).keys ++ (t.filter fun k v => !p k v).keys).Perm t.keys := by
  have hperm := (List.filter_append_perm (fun e : Nat × α => p e.1 e.2) t.entries).map (·.1)
  rwa [List.map_append] at hperm

theorem size_insert (t : Table α) (k : Nat) (v : α) :
    (t.insert k v).size = (t.erase k).size + 1 :=
  (t.entries_insert_perm k v).length_eq

theorem size_of_get? (h : t.get? k = some v) : t.size = (t.erase k).size + 1 :=
  (entries_perm_of_get? h).length_eq

theorem size_insert_of_get? (h : t.get? k = some v) (w : α) : (t.insert k w).size = t.size := by
  rw [size_insert, size_of_get? h]

theorem size_insert_of_absent (h : t.get? k = none) (v : α) :
    (t.insert k v).size = t.size + 1 := by
  rw [size_insert, erase_of_absent h]

/-! ## Tables of images -/

/-- The table with every value replaced by its image. -/
def map (f : α → β) (t : Table α) : Table β :=
  ⟨t.entries.map (fun e => (e.1, f e.2)), List.pairwise_map.2 t.ascending⟩

@[simp] theorem size_map (f : α → β) (t : Table α) : (t.map f).size = t.size :=
  List.length_map _

@[simp] theorem get?_map (f : α → β) (t : Table α) (k : Nat) :
    (t.map f).get? k = (t.get? k).map f := by
  ext w
  rw [← mem_entries_iff, Option.map_eq_some_iff]
  simp only [map, List.mem_map, Prod.exists, Prod.mk.injEq, mem_entries_iff]
  constructor
  · rintro ⟨j, v, hv, rfl, rfl⟩
    exact ⟨v, hv, rfl⟩
  · rintro ⟨v, hv, rfl⟩
    exact ⟨k, v, hv, rfl, rfl⟩

theorem map_eq_map {f : α → β} {u : Table α}
    (h : ∀ k, (u.get? k).map f = (t.get? k).map f) : u.map f = t.map f := by
  apply ext_get?
  intro k
  rw [get?_map, get?_map, h]

theorem map_insert (f : α → β) (t : Table α) (k : Nat) (v : α) :
    (t.insert k v).map f = (t.map f).insert k (f v) := by
  apply ext_get?
  intro j
  rw [get?_map, get?_insert, get?_insert, get?_map]
  split <;> rfl

theorem map_erase (f : α → β) (t : Table α) (k : Nat) :
    (t.erase k).map f = (t.map f).erase k := by
  apply ext_get?
  intro j
  rw [get?_map, get?_erase, get?_erase, get?_map]
  split <;> rfl

/-- To write a value that has the image of the one it replaces changes no image. -/
theorem map_insert_of_get? {f : α → β} (h : (t.get? k).map f = some (f v)) :
    (t.insert k v).map f = t.map f := by
  apply ext_get?
  intro j
  rw [map_insert, get?_insert, get?_map]
  split
  next heq =>
    subst heq
    exact h.symm
  · rfl

/-! ## Sums over a table -/

/-- The sum of a quantity over the entries. -/
def total (f : Nat → α → Nat) (t : Table α) : Nat := (t.entries.map fun e => f e.1 e.2).sum

variable {f : Nat → α → Nat}

theorem total_insert (f : Nat → α → Nat) (t : Table α) (k : Nat) (v : α) :
    (t.insert k v).total f = (t.erase k).total f + f k v := by
  have hsum := ((t.entries_insert_perm k v).map fun e => f e.1 e.2).sum_nat
  rw [List.map_cons, List.sum_cons] at hsum
  exact hsum.trans (Nat.add_comm ..)

/-- To write another value changes the sum by what the new value counts more than the
old one. -/
theorem total_insert_of_get? (h : t.get? k = some v) (w : α) :
    (t.insert k w).total f + f k v = t.total f + f k w := by
  have hsum := ((entries_perm_of_get? h).map fun e => f e.1 e.2).sum_nat
  have hold : t.total f = f k v + (t.erase k).total f := hsum.trans (List.sum_cons ..)
  rw [total_insert, hold]
  omega

theorem total_insert_of_absent (h : t.get? k = none) (v : α) :
    (t.insert k v).total f = t.total f + f k v := by
  rw [total_insert, erase_of_absent h]

theorem total_eq_zero (h : ∀ k v, t.get? k = some v → f k v = 0) : t.total f = 0 := by
  rw [total, List.sum_eq_zero_iff_forall_eq_nat]
  intro n hn
  obtain ⟨e, he, rfl⟩ := List.mem_map.1 hn
  exact h e.1 e.2 (t.mem_entries_iff.1 he)

theorem total_map (f : Nat → β → Nat) (g : α → β) (t : Table α) :
    (t.map g).total f = t.total fun k v => f k (g v) := by
  rw [total, map, List.map_map]
  rfl

/-! ## Tables with the same keys -/

variable {R R' R₁ : Nat → α → α → Prop} {u u' : Table α} {x y : α}

/-- Both tables have entries at the same keys, and the relation holds between those at the
same key. -/
def Related (R : Nat → α → α → Prop) (t u : Table α) : Prop :=
  ∀ k, (t.get? k = none ∧ u.get? k = none) ∨
    ∃ x y, t.get? k = some x ∧ u.get? k = some y ∧ R k x y

theorem Related.refl (hR : ∀ k x, R k x x) (t : Table α) : t.Related R t := by
  intro k
  cases hx : t.get? k with
  | none => exact .inl ⟨rfl, rfl⟩
  | some x => exact .inr ⟨x, x, rfl, rfl, hR k x⟩

theorem Related.trans (h : t.Related R u) (h' : u.Related R' u')
    (hR : ∀ k x y z, R k x y → R' k y z → R₁ k x z) : t.Related R₁ u' := by
  intro k
  obtain ⟨ht, hu⟩ | ⟨x, y, hx, hy, hxy⟩ := h k
  · obtain ⟨-, hu'⟩ | ⟨y, -, hy, -⟩ := h' k
    · exact .inl ⟨ht, hu'⟩
    · rw [hu] at hy
      cases hy
  · obtain ⟨hu, -⟩ | ⟨y', z, hy', hz, hyz⟩ := h' k
    · rw [hy] at hu
      cases hu
    · rw [hy] at hy'
      cases hy'
      exact .inr ⟨x, z, hx, hz, hR k x y z hxy hyz⟩

theorem Related.mono (h : t.Related R u) (hR : ∀ k x y, R k x y → R' k x y) :
    t.Related R' u :=
  fun k => (h k).imp_right fun ⟨x, y, hx, hy, hxy⟩ => ⟨x, y, hx, hy, hR k x y hxy⟩

theorem Related.exists_get? (h : t.Related R u) (hx : t.get? k = some x) :
    ∃ y, u.get? k = some y ∧ R k x y := by
  obtain ⟨ht, -⟩ | ⟨x', y, hx', hy, hxy⟩ := h k
  · rw [hx] at ht
    cases ht
  · rw [hx] at hx'
    cases hx'
    exact ⟨y, hy, hxy⟩

/-- An entry of the later table was there before. -/
theorem Related.exists_of_get? (h : t.Related R u) (hy : u.get? k = some y) :
    ∃ x, t.get? k = some x ∧ R k x y := by
  obtain ⟨-, hu⟩ | ⟨x, y', hx, hy', hxy⟩ := h k
  · rw [hy] at hu
    cases hu
  · rw [hy] at hy'
    cases hy'
    exact ⟨x, hx, hxy⟩

theorem Related.get?_eq_none (h : t.Related R u) (hk : t.get? k = none) : u.get? k = none := by
  obtain ⟨-, hu⟩ | ⟨x, -, hx, -, -⟩ := h k
  · exact hu
  · rw [hk] at hx
    cases hx

theorem related_insert (hR : ∀ k x, R k x x) (hx : t.get? k = some x) (hxy : R k x y) :
    t.Related R (t.insert k y) := by
  intro j
  rw [get?_insert]
  by_cases hj : k = j
  · subst hj
    rw [if_pos rfl]
    exact .inr ⟨x, y, hx, rfl, hxy⟩
  · rw [if_neg hj]
    exact Related.refl hR t j

theorem Related.map_eq (h : t.Related R u) {f : α → β} (hf : ∀ k x y, R k x y → f y = f x) :
    u.map f = t.map f := by
  refine map_eq_map fun k => ?_
  obtain ⟨ht, hu⟩ | ⟨x, y, hx, hy, hxy⟩ := h k
  · rw [ht, hu]
  · rw [hx, hy, Option.map_some, Option.map_some, hf k x y hxy]

/-- Related tables have the same keys. -/
theorem Related.keys_eq (h : t.Related R u) : u.keys = t.keys := by
  have hmap : u.map (fun _ => ()) = t.map (fun _ => ()) := h.map_eq fun _ _ _ _ => rfl
  have hkeys : ∀ t : Table α, (t.map fun _ => ()).entries.map (·.1) = t.keys := by
    intro t
    rw [map, List.map_map]
    rfl
  rw [← hkeys, ← hkeys, hmap]

end Table

end Timeshare
