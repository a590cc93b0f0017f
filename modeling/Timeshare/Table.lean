/-!
# Finite tables with numeric keys

A `Table α` is a finite map from numbers to `α`, kept as the list of its
entries in strictly ascending order of their keys. The order is part of the
type, so two tables with the same lookups are the same table (`Table.ext_get?`)
and a listing of a table is always a listing by key.

Every operation is described by what it does to the lookup `Table.get?`:
`get?_insert`, `get?_erase` and `get?_filter`. Entries and lookups are the same
thing (`mem_entries_iff`).
-/

namespace Timeshare

/-- A finite map from numbers, as the list of its entries by ascending key. -/
structure Table (α : Type) where
  /-- The entries, each key before every greater one. -/
  entries : List (Nat × α) := []
  ascending : entries.Pairwise (fun a b => a.1 < b.1) := by exact List.Pairwise.nil

namespace Table

variable {α : Type}

instance : Inhabited (Table α) := ⟨{}⟩

/-- The value of the first entry with the key `k`. -/
def find (k : Nat) : List (Nat × α) → Option α
  | [] => none
  | (j, v) :: rest => if j = k then some v else find k rest

/-- Puts the entry `(k, v)` before the first greater key, in the place of an
entry with the same key. -/
def put (k : Nat) (v : α) : List (Nat × α) → List (Nat × α)
  | [] => [(k, v)]
  | (j, w) :: rest =>
    if k < j then (k, v) :: (j, w) :: rest
    else if k = j then (k, v) :: rest
    else (j, w) :: put k v rest

theorem mem_put {k : Nat} {v : α} {e : Nat × α} {l : List (Nat × α)} (h : e ∈ put k v l) :
    e = (k, v) ∨ e ∈ l := by
  induction l with
  | nil => simpa [put] using h
  | cons a rest ih =>
      rw [put] at h
      split at h
      · simpa using h
      · split at h
        · rcases List.mem_cons.1 h with h | h <;> simp [h]
        · rcases List.mem_cons.1 h with h | h
          · simp [h]
          · rcases ih h with h | h <;> simp [h]

theorem pairwise_put (k : Nat) (v : α) {l : List (Nat × α)}
    (h : l.Pairwise (fun a b => a.1 < b.1)) :
    (put k v l).Pairwise (fun a b => a.1 < b.1) := by
  induction l with
  | nil => simp [put]
  | cons a rest ih =>
      obtain ⟨ha, hrest⟩ := List.pairwise_cons.1 h
      rw [put]
      split
      next hlt =>
        refine List.pairwise_cons.2 ⟨fun e he => ?_, h⟩
        rcases List.mem_cons.1 he with rfl | he
        · exact hlt
        · exact Nat.lt_trans hlt (ha e he)
      next hnlt =>
        split
        next heq =>
          subst heq
          exact List.pairwise_cons.2 ⟨ha, hrest⟩
        next hne =>
          refine List.pairwise_cons.2 ⟨fun e he => ?_, ih hrest⟩
          rcases mem_put he with rfl | he
          · exact Nat.lt_of_le_of_ne (Nat.le_of_not_lt hnlt) (Ne.symm hne)
          · exact ha e he

/-- The value at the key `k`. -/
def get? (t : Table α) (k : Nat) : Option α := find k t.entries

/-- Whether there is an entry at the key `k`. -/
def contains (t : Table α) (k : Nat) : Bool := (t.get? k).isSome

/-- The table with the value `v` at the key `k`. -/
def insert (t : Table α) (k : Nat) (v : α) : Table α :=
  ⟨put k v t.entries, pairwise_put k v t.ascending⟩

/-- The table of the entries that satisfy `p`. -/
def filter (t : Table α) (p : Nat → α → Bool) : Table α :=
  ⟨t.entries.filter (fun e => p e.1 e.2), t.ascending.filter _⟩

/-- The table without an entry at the key `k`. -/
def erase (t : Table α) (k : Nat) : Table α := t.filter (fun j _ => j != k)

/-- The number of entries. -/
def size (t : Table α) : Nat := t.entries.length

/-- The keys, ascending. -/
def keys (t : Table α) : List Nat := t.entries.map (·.1)

/-- The values, by ascending key. -/
def values (t : Table α) : List α := t.entries.map (·.2)

/-! ## Lookups -/

theorem find_eq_some_iff {k : Nat} {v : α} {l : List (Nat × α)}
    (h : l.Pairwise (fun a b => a.1 < b.1)) : find k l = some v ↔ (k, v) ∈ l := by
  induction l with
  | nil => simp [find]
  | cons a rest ih =>
      obtain ⟨j, w⟩ := a
      obtain ⟨hj, hrest⟩ := List.pairwise_cons.1 h
      rw [find]
      split
      next heq =>
        subst heq
        constructor
        · rintro ⟨⟩
          exact List.mem_cons_self
        · intro hmem
          rcases List.mem_cons.1 hmem with heq | hmem
          · cases heq
            rfl
          · exact absurd (hj _ hmem) (Nat.lt_irrefl j)
      next hne =>
        rw [ih hrest, List.mem_cons]
        constructor
        · exact Or.inr
        · rintro (heq | hmem)
          · cases heq
            exact absurd rfl hne
          · exact hmem

/-- A lookup finds a value exactly when the entry is listed. -/
theorem mem_entries_iff (t : Table α) {k : Nat} {v : α} :
    (k, v) ∈ t.entries ↔ t.get? k = some v :=
  (find_eq_some_iff t.ascending).symm

theorem find_put (k j : Nat) (v : α) {l : List (Nat × α)} :
    find j (put k v l) = if k = j then some v else find j l := by
  induction l with
  | nil => simp [put, find]
  | cons a rest ih =>
      obtain ⟨i, w⟩ := a
      rw [put]
      split
      · simp [find]
      · split
        next heq =>
          subst heq
          by_cases hk : k = j <;> simp [find, hk]
        next hne =>
          rw [find, find, ih]
          by_cases hi : i = j
          · subst hi
            simp [hne]
          · simp [hi]

@[simp] theorem get?_empty (k : Nat) : ({} : Table α).get? k = none := rfl

/-- An insertion is seen at its own key and nowhere else. -/
theorem get?_insert (t : Table α) (k j : Nat) (v : α) :
    (t.insert k v).get? j = if k = j then some v else t.get? j :=
  find_put k j v

@[simp] theorem get?_insert_self (t : Table α) (k : Nat) (v : α) :
    (t.insert k v).get? k = some v := by
  simp [get?_insert]

theorem get?_insert_of_ne (t : Table α) {k j : Nat} (h : k ≠ j) (v : α) :
    (t.insert k v).get? j = t.get? j := by
  simp [get?_insert, h]

/-- A filtered table keeps the values that satisfy the test. -/
theorem get?_filter (t : Table α) (p : Nat → α → Bool) (k : Nat) :
    (t.filter p).get? k = (t.get? k).filter (p k) := by
  ext v
  rw [← mem_entries_iff, Option.filter_eq_some_iff, ← mem_entries_iff]
  simp [filter]

/-- A removal is seen at its own key and nowhere else. -/
theorem get?_erase (t : Table α) (k j : Nat) :
    (t.erase k).get? j = if k = j then none else t.get? j := by
  rw [erase, get?_filter]
  by_cases h : k = j
  · subst h
    simp
  · have hjk : (j != k) = true := by simpa using Ne.symm h
    cases t.get? j <;> simp [h, hjk]

theorem contains_iff (t : Table α) (k : Nat) : t.contains k = true ↔ ∃ v, t.get? k = some v := by
  rw [contains, Option.isSome_iff_exists]

/-- A table is determined by its lookups. -/
theorem ext_get? {t u : Table α} (h : ∀ k, t.get? k = u.get? k) : t = u := by
  obtain ⟨l, hl⟩ := t
  obtain ⟨m, hm⟩ := u
  have hmem : ∀ e : Nat × α, e ∈ l ↔ e ∈ m := fun e => by
    have := h e.1
    rw [get?, get?] at this
    rw [← find_eq_some_iff (k := e.1) (v := e.2) hl, this, find_eq_some_iff hm]
  have hlm : l = m := by
    clear h
    induction l generalizing m with
    | nil =>
        cases m with
        | nil => rfl
        | cons b m => exact absurd ((hmem b).2 List.mem_cons_self) (by simp)
    | cons a l ih =>
        cases m with
        | nil => exact absurd ((hmem a).1 List.mem_cons_self) (by simp)
        | cons b m =>
            obtain ⟨ha, hl'⟩ := List.pairwise_cons.1 hl
            obtain ⟨hb, hm'⟩ := List.pairwise_cons.1 hm
            have hab : a = b := by
              rcases List.mem_cons.1 ((hmem a).1 List.mem_cons_self) with hab | ham
              · exact hab
              · rcases List.mem_cons.1 ((hmem b).2 List.mem_cons_self) with hba | hbl
                · exact hba.symm
                · exact absurd (hb a ham) (Nat.lt_asymm (ha b hbl))
            subst hab
            refine congrArg _ (ih hl' m hm' fun e => ?_)
            constructor
            · intro he
              rcases List.mem_cons.1 ((hmem e).1 (List.mem_cons_of_mem _ he)) with rfl | h
              · exact absurd (ha _ he) (Nat.lt_irrefl _)
              · exact h
            · intro he
              rcases List.mem_cons.1 ((hmem e).2 (List.mem_cons_of_mem _ he)) with rfl | h
              · exact absurd (hb _ he) (Nat.lt_irrefl _)
              · exact h
  subst hlm
  rfl

end Table

end Timeshare
