import Timeshare.Proofs.Memory.History

/-!
# Access times and the history

The memory stamps a page at each access with the time of its clock. The stamps say
nothing about the history that the history does not say itself: `lastUse page log` is
the place of the latest attempt in `log` that used the page, and of two resident pages
the one that was used earlier has the smaller stamp (`Memory.Stamped`). Every request
keeps it so, because the clock advances exactly with the attempts that use a page.
-/

namespace Timeshare

/-- The page that the request uses if it succeeds. -/
def MemoryRequest.uses? : MemoryRequest → Option PageNumber
  | .allocate page _ | .allocateIn page _ _ => some page
  | .write page _ _ | .writeWord page _ _ => some page
  | .read page _ _ | .readWord page _ => some page
  | _ => none

namespace MemoryRequest

variable {request : MemoryRequest} {page : PageNumber}

theorem uses?_of_allocates? (h : request.allocates? = some page) : request.uses? = some page := by
  cases request <;> first | exact h | cases h

theorem uses?_of_stores? {offset : Nat} {bytes : List UInt8}
    (h : request.stores? = some (page, offset, bytes)) : request.uses? = some page := by
  cases request <;> cases h <;> rfl

theorem uses?_of_reads? {offset length : Nat}
    (h : request.reads? = some (page, offset, length)) : request.uses? = some page := by
  cases request <;> cases h <;> rfl

theorem uses?_of_isQuery (h : request.isQuery = true) : request.uses? = none := by
  cases request <;> first | rfl | cases h

end MemoryRequest

namespace Memory

/-- Whether the attempt used the page. -/
def Attempt.uses (page : PageNumber) (a : Attempt) : Bool :=
  a.succeeded && a.request.uses? == some page

/-- The place in the history of the latest attempt that used the page, counted from
one; zero if there is none. The attempts are given with the latest first. -/
def lastUse (page : PageNumber) : List Attempt → Nat
  | [] => 0
  | a :: log => if a.uses page then log.length + 1 else lastUse page log

variable {m : Memory} {log : List Attempt} {a : Attempt} {request : MemoryRequest}
  {page other : PageNumber} {p q : Page}

/-! ## Places in the history -/

theorem lastUse_cons_of_uses (h : a.uses page = true) :
    lastUse page (a :: log) = log.length + 1 :=
  if_pos h

theorem lastUse_cons_of_not_uses (h : a.uses page = false) :
    lastUse page (a :: log) = lastUse page log := by
  rw [lastUse, h]
  rfl

theorem lastUse_le_length (page : PageNumber) (log : List Attempt) :
    lastUse page log ≤ log.length := by
  induction log with
  | nil => exact Nat.le_refl 0
  | cons a log ih =>
      rw [lastUse, List.length_cons]
      split
      · exact Nat.le_refl _
      · exact Nat.le_succ_of_le ih

/-- An attempt uses one page at most. -/
theorem eq_of_uses (h : a.uses page = true) (h' : a.uses other = true) : page = other := by
  simp only [Attempt.uses, Bool.and_eq_true, beq_iff_eq] at h h'
  rw [h.2] at h'
  exact Option.some.inj h'.2

/-- Two pages are not used last at the same place. -/
theorem eq_of_lastUse_eq (hpos : 0 < lastUse page log)
    (h : lastUse page log = lastUse other log) : page = other := by
  induction log with
  | nil => exact absurd hpos (Nat.lt_irrefl 0)
  | cons a log ih =>
      have hle := lastUse_le_length page log
      have hle' := lastUse_le_length other log
      cases hp : a.uses page with
      | true =>
          cases ho : a.uses other with
          | true => exact eq_of_uses hp ho
          | false =>
              rw [lastUse_cons_of_uses hp, lastUse_cons_of_not_uses ho] at h
              omega
      | false =>
          rw [lastUse_cons_of_not_uses hp] at hpos h
          cases ho : a.uses other with
          | true =>
              rw [lastUse_cons_of_uses ho] at h
              omega
          | false =>
              rw [lastUse_cons_of_not_uses ho] at h
              exact ih hpos h

theorem uses_of_uses? (h : request.uses? = some page) :
    Attempt.uses page ⟨request, true⟩ = true := by
  simp [Attempt.uses, h]

theorem not_uses_of_ne (h : request.uses? = some page) (hne : page ≠ other) :
    Attempt.uses other ⟨request, true⟩ = false := by
  simp [Attempt.uses, h, hne]

theorem not_uses_of_uses?_none (h : request.uses? = none) (b : Bool) (page : PageNumber) :
    Attempt.uses page ⟨request, b⟩ = false := by
  simp [Attempt.uses, h]

/-! ## Stamps -/

/-- The stamps of the resident pages are in the order in which the pages were used
last. -/
structure Stamped (log : List Attempt) (m : Memory) : Prop where
  number_eq : ∀ page p, m.pages.get? page = some p → p.number = page
  used : ∀ page p, m.pages.get? page = some p → 0 < lastUse page log
  le_clock : ∀ page p, m.pages.get? page = some p → p.lastAccess ≤ m.clock
  lt_iff : ∀ page other p q, m.pages.get? page = some p → m.pages.get? other = some q →
    (p.lastAccess < q.lastAccess ↔ lastUse page log < lastUse other log)

theorem stamped_of_pages_empty (h : m.pages = {}) : Stamped log m := by
  have hnone : ∀ page p, m.pages.get? page = some p → False := by
    intro page p hp
    rw [h] at hp
    cases hp
  exact ⟨fun _ _ hp => (hnone _ _ hp).elim, fun _ _ hp => (hnone _ _ hp).elim,
    fun _ _ hp => (hnone _ _ hp).elim, fun _ _ _ _ hp => (hnone _ _ hp).elim⟩

/-- Another memory in which the resident pages have the numbers and stamps of before. -/
theorem Stamped.congr {m' : Memory} (h : Stamped log m) (hclock : m'.clock = m.clock)
    (hpages : ∀ page p', m'.pages.get? page = some p' → ∃ p, m.pages.get? page = some p ∧
      p'.number = p.number ∧ p'.lastAccess = p.lastAccess) : Stamped log m' := by
  refine ⟨?_, ?_, ?_, ?_⟩
  · intro page p' hp'
    obtain ⟨p, hp, hnumber, -⟩ := hpages page p' hp'
    rw [hnumber]
    exact h.number_eq page p hp
  · intro page p' hp'
    obtain ⟨p, hp, -, -⟩ := hpages page p' hp'
    exact h.used page p hp
  · intro page p' hp'
    obtain ⟨p, hp, -, hstamp⟩ := hpages page p' hp'
    rw [hstamp, hclock]
    exact h.le_clock page p hp
  · intro page other p' q' hp' hq'
    obtain ⟨p, hp, -, hstamp⟩ := hpages page p' hp'
    obtain ⟨q, hq, -, hstamp'⟩ := hpages other q' hq'
    rw [hstamp, hstamp']
    exact h.lt_iff page other p q hp hq

/-- An attempt that uses no page. -/
theorem Stamped.idle (h : Stamped log m) (ha : ∀ page, a.uses page = false) :
    Stamped (a :: log) m := by
  have hlast : ∀ page, lastUse page (a :: log) = lastUse page log :=
    fun page => lastUse_cons_of_not_uses (ha page)
  refine ⟨h.number_eq, fun page p hp => ?_, h.le_clock, fun page other p q hp hq => ?_⟩
  · rw [hlast]
    exact h.used page p hp
  · rw [hlast, hlast]
    exact h.lt_iff page other p q hp hq

/-- A page is used, and gets the stamp that is later than all others. -/
theorem Stamped.accessed (h : Stamped log m) (hr : request.uses? = some page)
    (hnumber : q.number = page) (hstamp : q.lastAccess = m.clock + 1) :
    Stamped (⟨request, true⟩ :: log) (m.accessed page q) := by
  have hself : lastUse page (⟨request, true⟩ :: log) = log.length + 1 :=
    lastUse_cons_of_uses (uses_of_uses? hr)
  have hother : ∀ {other}, page ≠ other →
      lastUse other (⟨request, true⟩ :: log) = lastUse other log :=
    fun hne => lastUse_cons_of_not_uses (not_uses_of_ne hr hne)
  refine ⟨Table.forall_get?_insert h.number_eq hnumber, ?_, ?_, ?_⟩
  · intro other p hp
    obtain ⟨rfl, rfl⟩ | ⟨hne, hp⟩ := Table.get?_insert_eq_some_iff.1 hp
    · rw [hself]
      exact Nat.succ_pos _
    · rw [hother hne]
      exact h.used other p hp
  · have hle : ∀ other p, m.pages.get? other = some p → p.lastAccess ≤ m.clock + 1 :=
      fun other p hp => Nat.le_succ_of_le (h.le_clock other p hp)
    exact Table.forall_get?_insert hle (Nat.le_of_eq hstamp)
  · intro first second p p' hp hp'
    have hbound := lastUse_le_length first log
    have hbound' := lastUse_le_length second log
    obtain ⟨rfl, rfl⟩ | ⟨hne, hp⟩ := Table.get?_insert_eq_some_iff.1 hp
    · obtain ⟨rfl, rfl⟩ | ⟨hne', hp'⟩ := Table.get?_insert_eq_some_iff.1 hp'
      · simp
      · have := h.le_clock second p' hp'
        rw [hself, hother hne', hstamp]
        omega
    · obtain ⟨rfl, rfl⟩ | ⟨hne', hp'⟩ := Table.get?_insert_eq_some_iff.1 hp'
      · have := h.le_clock first p hp
        rw [hself, hother hne, hstamp]
        omega
      · rw [hother hne, hother hne']
        exact h.lt_iff first second p p' hp hp'

theorem Stamped.placed (h : Stamped log m) (hr : request.uses? = some page) (size : Nat)
    (zone : Zone) : Stamped (⟨request, true⟩ :: log) (m.place page size zone) :=
  h.accessed (q := { number := page, zone, lastAccess := m.clock + 1, requested := size })
    hr rfl rfl

/-- A page that leaves takes its stamp with it. -/
theorem Stamped.erase (h : Stamped log m) (page : PageNumber) :
    Stamped log { m with pages := m.pages.erase page } :=
  h.congr rfl fun _ p hp => ⟨p, (Table.get?_erase_eq_some_iff.1 hp).2, rfl, rfl⟩

theorem Stamped.evict (h : Stamped log m) (victim : Page) : Stamped log (m.evict victim) :=
  h.congr rfl fun _ p hp => ⟨p, (Table.get?_erase_eq_some_iff.1 hp).2, rfl, rfl⟩

/-- Another record of a page that differs in its flags. -/
theorem Stamped.flagged (h : Stamped log m) (hp : m.pages.get? page = some p)
    (hnumber : q.number = p.number) (hstamp : q.lastAccess = p.lastAccess) :
    Stamped log { m with pages := m.pages.insert page q } :=
  h.congr rfl <| Table.forall_get?_insert (fun _ r hr => ⟨r, hr, rfl, rfl⟩)
    ⟨p, hp, hnumber, hstamp⟩

/-- One request keeps the stamps in the order of the history. -/
theorem Stamped.after (h : Stamped log m) (request : MemoryRequest) :
    Stamped (⟨request, (m.perform request).result.isOk⟩ :: log) (m.after request) := by
  have hstep := performed_perform m request
  generalize (m.perform request).result = result at hstep ⊢
  generalize m.after request = m' at hstep ⊢
  cases hstep with
  | refused he => exact h.idle fun _ => rfl
  | faulted hi hp =>
      refine Stamped.idle ?_ fun _ => rfl
      exact h.congr rfl fun _ p hp => ⟨p, hp, rfl, rfl⟩
  | reset hbytes hframes => exact stamped_of_pages_empty rfl
  | placed ha hadmits hroom => exact h.placed (MemoryRequest.uses?_of_allocates? ha) _ _
  | @replaced _ page size zone victim ha hadmits hfull hv =>
      exact (h.evict victim).placed (MemoryRequest.uses?_of_allocates? ha) size zone
  | @freed page p hi hp => exact (h.erase page).idle (not_uses_of_uses?_none rfl true)
  | @stored _ page offset bytes p hs hi hp hfits =>
      exact h.accessed (MemoryRequest.uses?_of_stores? hs) (h.number_eq page p hp) rfl
  | @loaded _ page offset length p value hr hi hp hfits =>
      exact h.accessed (MemoryRequest.uses?_of_reads? hr) (h.number_eq page p hp) rfl
  | pinned hi hp | unpinned hi hp =>
      refine Stamped.idle ?_ (not_uses_of_uses?_none rfl true)
      exact h.flagged hp rfl rfl
  | observed hq => exact h.idle (not_uses_of_uses?_none (MemoryRequest.uses?_of_isQuery hq) true)

theorem Stamped.afterAll (h : Stamped log m) (requests : List MemoryRequest) :
    Stamped (m.attempts log requests) (m.afterAll requests) := by
  induction requests generalizing m log with
  | nil => exact h
  | cons request rest ih => exact ih (h.after request)

/-- No two resident pages have the same stamp. -/
theorem Stamped.eq_of_lastAccess_eq (h : Stamped log m) (hp : m.pages.get? page = some p)
    (hq : m.pages.get? other = some q) (heq : p.lastAccess = q.lastAccess) : page = other := by
  have hlt := h.lt_iff page other p q hp hq
  have hgt := h.lt_iff other page q p hq hp
  exact eq_of_lastUse_eq (h.used page p hp) (by omega)

end Memory

end Timeshare
