import Timeshare.Proofs.Memory.ByteMap
import Timeshare.Proofs.Memory.Conservation

/-!
# Pinned pages and the room for others

An allocation that may be made at all fails only when the memory is exhausted: every page
that it has room for is resident, and all of them are pinned (`Memory.Exhausted`). Otherwise
the new page is the only one that comes, and at most one page goes, which is not pinned
(`Memory.Accommodates`).

A page is pinned by its zone or by request. Both are reasons for it to stay that no access
takes back (`Page.PinReason`), so such a page is resident until it is discarded, and until
it is unpinned if it was pinned by request (`Memory.pinned_pages_stay`).
-/

namespace Timeshare

namespace Page

/-- A property of pages that are pinned, which is left alone by every access. -/
structure PinReason (P : Page → Prop) : Prop where
  isPinned : ∀ p, P p → p.isPinned = true
  written : ∀ p offset bytes now, P p → P (p.written offset bytes now)
  touch : ∀ p now, P p → P (p.touch now)
  pin : ∀ p, P p → P p.pin

theorem isPinned_eq_true_iff {p : Page} :
    p.isPinned = true ↔ p.zone = .kernel ∨ p.flags.pinned = true := by
  rw [isPinned, Bool.or_eq_true]
  cases p.zone <;> simp [Zone.isPinned]

theorem isPinned_eq_false_iff {p : Page} :
    p.isPinned = false ↔ p.zone ≠ .kernel ∧ p.flags.pinned = false := by
  rw [← Bool.not_eq_true, isPinned_eq_true_iff, not_or, Bool.not_eq_true]

theorem pinReason_zone : PinReason fun p => p.zone = .kernel where
  isPinned _ h := isPinned_eq_true_iff.2 (.inl h)
  written _ _ _ _ h := h
  touch _ _ h := h
  pin _ h := h

theorem pinReason_flag : PinReason fun p => p.flags.pinned = true where
  isPinned _ h := isPinned_eq_true_iff.2 (.inr h)
  written p _ _ _ h := by simp [Page.written, PageFlags.union, h]
  touch _ _ h := h
  pin p _ := by simp [Page.pin, PageFlags.union]

end Page

namespace Memory

variable {m : Memory} {log before : List Attempt} {a : Attempt} {request : MemoryRequest}
  {page other : PageNumber} {size : Nat} {zone : Zone} {p q victim : Page} {P : Page → Prop}

/-! ## Allocations -/

/-- Every page that the memory has room for is resident and pinned. -/
def Exhausted (m : Memory) : Prop :=
  m.pages.size = m.capacity ∧
    ∀ page p, m.pages.get? page = some p → p.zone = .kernel ∨ p.flags.pinned = true

theorem victim?_eq_none_iff :
    m.victim? = none ↔
      ∀ page p, m.pages.get? page = some p → p.zone = .kernel ∨ p.flags.pinned = true := by
  simp only [← Page.isPinned_eq_true_iff]
  constructor
  · intro hnone page p hp
    cases hpinned : p.isPinned with
    | true => rfl
    | false =>
        have hmem := mem_filter_values_iff.2 ⟨⟨page, hp⟩, hpinned⟩
        have hsome : m.victim?.isSome = true :=
          List.isSome_minOn?_of_mem (f := Page.lastAccess) hmem
        rw [hnone] at hsome
        cases hsome
  · intro hpinned
    cases hv : m.victim? with
    | none => rfl
    | some victim =>
        obtain ⟨⟨page, hp⟩, hunpinned⟩ := mem_filter_values_iff.1 (List.minOn?_mem hv)
        rw [hpinned page victim hp] at hunpinned
        cases hunpinned

theorem not_exhausted_of_victim? (hv : m.victim? = some victim) : ¬ m.Exhausted := by
  rintro ⟨-, hpinned⟩
  rw [victim?_eq_none_iff.2 hpinned] at hv
  cases hv

/-- Room for a page is there, or it is made by an eviction, or the memory is exhausted. -/
theorem Bounded.allocateIn_cases (h : m.Bounded) (hadmits : m.admits page size = .ok ())
    (zone : Zone) :
    (m.Exhausted ∧ (m.allocateIn page size zone).result = .error .outOfMemory) ∨
    (m.pages.size < m.capacity ∧ (m.allocateIn page size zone).result = .ok () ∧
      (m.allocateIn page size zone).state = m.place page size zone) ∨
    (∃ victim, m.pages.size = m.capacity ∧ m.victim? = some victim ∧
      (m.allocateIn page size zone).result = .ok () ∧
      (m.allocateIn page size zone).state = (m.evict victim).place page size zone) := by
  rw [allocateIn, hadmits]
  by_cases hroom : m.pages.size < m.capacity
  · simp only [if_pos hroom]
    exact .inr (.inl ⟨hroom, trivial, trivial⟩)
  · have hfull : m.pages.size = m.capacity := Nat.le_antisymm h.size_le (Nat.le_of_not_lt hroom)
    simp only [if_neg hroom]
    cases hv : m.victim? with
    | none => exact .inl ⟨⟨hfull, victim?_eq_none_iff.1 hv⟩, rfl⟩
    | some victim => exact .inr (.inr ⟨victim, hfull, rfl, rfl, rfl⟩)

theorem get?_place_self (m : Memory) (page : PageNumber) (size : Nat) (zone : Zone) :
    ∃ p, (m.place page size zone).pages.get? page = some p ∧ p.number = page ∧ p.zone = zone ∧
      p.content = Vector.replicate pageSize 0 ∧ p.isDirty = false ∧ p.flags.pinned = false :=
  ⟨_, Table.get?_insert_self .., rfl, rfl, rfl, rfl, rfl⟩

theorem get?_place_of_ne (h : other ≠ page) (size : Nat) (zone : Zone) :
    (m.place page size zone).pages.get? other = m.pages.get? other :=
  Table.get?_insert_of_ne _ h.symm _

theorem get?_place_evict (hadmits : m.admits page size = .ok ()) (hv : m.Oldest victim)
    (zone : Zone) :
    ((m.evict victim).place page size zone).pages.get? victim.number = none ∧
      ∀ other, other ≠ page → other ≠ victim.number →
        ((m.evict victim).place page size zone).pages.get? other = m.pages.get? other := by
  constructor
  · rw [get?_place_of_ne (ne_of_admits hadmits hv.resident).symm]
    exact (Table.get?_erase ..).trans (if_pos rfl)
  · intro other hpage hvictim
    rw [get?_place_of_ne hpage]
    exact (Table.get?_erase ..).trans (if_neg hvictim.symm)

/-- What an allocation that succeeds makes of the memory. The page is new and holds zeros; as
long as there was room no other page has changed, and otherwise one page that was not pinned
has gone and no further page has changed. -/
structure Accommodates (m m' : Memory) (page : PageNumber) (zone : Zone) : Prop where
  fresh : ∃ p, m'.pages.get? page = some p ∧ p.number = page ∧ p.zone = zone ∧
    p.content = Vector.replicate pageSize 0 ∧ p.isDirty = false ∧ p.flags.pinned = false
  kept : m.pages.size < m.capacity →
    ∀ other, other ≠ page → m'.pages.get? other = m.pages.get? other
  evicts : m.pages.size = m.capacity →
    ∃ gone q, m.pages.get? gone = some q ∧ q.zone ≠ .kernel ∧ q.flags.pinned = false ∧
      m'.pages.get? gone = none ∧
      ∀ other, other ≠ page → other ≠ gone → m'.pages.get? other = m.pages.get? other

theorem accommodates_place (hroom : m.pages.size < m.capacity) (page : PageNumber) (size : Nat)
    (zone : Zone) : m.Accommodates (m.place page size zone) page zone where
  fresh := get?_place_self ..
  kept _ _ hother := get?_place_of_ne hother size zone
  evicts hfull := absurd hfull (Nat.ne_of_lt hroom)

theorem accommodates_evict (hfull : m.pages.size = m.capacity)
    (hadmits : m.admits page size = .ok ()) (hv : m.Oldest victim) (zone : Zone) :
    m.Accommodates ((m.evict victim).place page size zone) page zone where
  fresh := get?_place_self ..
  kept hroom := absurd hfull (Nat.ne_of_lt hroom)
  evicts _ := by
    obtain ⟨hzone, hflag⟩ := Page.isPinned_eq_false_iff.1 hv.unpinned
    exact ⟨victim.number, victim, hv.resident, hzone, hflag,
      get?_place_evict hadmits hv zone⟩

/-- An allocation that is admitted fails exactly if the memory is exhausted. -/
theorem Bounded.allocateIn_spec (h : m.Bounded) (hstamped : Stamped log m)
    (hadmits : m.admits page size = .ok ()) (zone : Zone) :
    ((m.allocateIn page size zone).result = .error .outOfMemory ↔ m.Exhausted) ∧
      (¬ m.Exhausted → (m.allocateIn page size zone).result = .ok () ∧
        m.Accommodates (m.allocateIn page size zone).state page zone) := by
  obtain ⟨hexhausted, hresult⟩ | ⟨hroom, hresult, hstate⟩ |
    ⟨victim, hfull, hv, hresult, hstate⟩ := h.allocateIn_cases hadmits zone
  · exact ⟨iff_of_true hresult hexhausted, fun hnot => absurd hexhausted hnot⟩
  · have hnot : ¬ m.Exhausted := fun hexhausted => Nat.ne_of_lt hroom hexhausted.1
    rw [hresult, hstate]
    exact ⟨iff_of_false (by simp) hnot, fun _ => ⟨rfl, accommodates_place hroom page size zone⟩⟩
  · have hvictim := hstamped.oldest_of_victim? hv
    rw [hresult, hstate]
    exact ⟨iff_of_false (by simp) (not_exhausted_of_victim? hv),
      fun _ => ⟨rfl, accommodates_evict hfull hadmits hvictim zone⟩⟩

/-! ## What makes a page go -/

/-- Whether the attempt freed the page or set up the memory afresh. -/
def Attempt.discards (page : PageNumber) (a : Attempt) : Bool :=
  a.succeeded &&
    match a.request with
    | .reset _ _ => true
    | .free target => target == page
    | _ => false

/-- Whether the attempt took back the pin of the page. -/
def Attempt.unpins (page : PageNumber) (a : Attempt) : Bool :=
  a.succeeded &&
    match a.request with
    | .unpin target => target == page
    | _ => false

/-- The pages after the record of one resident page was replaced, if there is a reason that
holds of the new record where it held of the old one. -/
theorem exists_get?_insert_of_reason {target : PageNumber} (hp : m.pages.get? page = some p)
    (hP : P p) (hq : target = page → P q) :
    ∃ p', (m.pages.insert target q).get? page = some p' ∧ P p' := by
  rw [Table.get?_insert]
  split
  next heq => exact ⟨q, rfl, hq heq⟩
  next => exact ⟨p, hp, hP⟩

/-- A page that there is a reason to pin is still resident after the request, and for the
same reason. -/
theorem Stamped.exists_get?_after (h : Stamped log m) (hreason : Page.PinReason P)
    (hp : m.pages.get? page = some p) (hP : P p)
    (hkept : Attempt.discards page ⟨request, (m.perform request).result.isOk⟩ = false)
    (hunpin : Attempt.unpins page ⟨request, (m.perform request).result.isOk⟩ = true →
      ∀ p, P p → P p.unpin) :
    ∃ p', (m.after request).pages.get? page = some p' ∧ P p' := by
  have hsame : ∀ {target r}, m.pages.get? target = some r → target = page → P r := by
    rintro target r hr rfl
    rw [hp] at hr
    cases hr
    exact hP
  have hstep := performed_perform m request
  generalize (m.perform request).result = result at hstep hkept hunpin
  generalize m.after request = m' at hstep ⊢
  cases hstep with
  | refused | faulted | observed => exact ⟨p, hp, hP⟩
  | reset => cases hkept
  | placed ha hadmits hroom =>
      exact ⟨p, (Table.get?_insert_of_ne _ (ne_of_admits hadmits hp) _).trans hp, hP⟩
  | @replaced _ target size zone victim ha hadmits hfull hv =>
      -- The victim is not pinned, so it is another page.
      have hvictim := h.oldest_of_victim? hv
      have hne : victim.number ≠ page := by
        intro heq
        have hpinned := hreason.isPinned victim (hsame hvictim.resident heq)
        rw [hvictim.unpinned] at hpinned
        cases hpinned
      have herase : (m.evict victim).pages.get? page = some p :=
        Table.get?_erase_eq_some_iff.2 ⟨hne, hp⟩
      exact ⟨p, (Table.get?_insert_of_ne _ (ne_of_admits hadmits hp) _).trans herase, hP⟩
  | @freed target =>
      have hne : target ≠ page := beq_eq_false_iff_ne.1 hkept
      exact ⟨p, Table.get?_erase_eq_some_iff.2 ⟨hne, hp⟩, hP⟩
  | stored hs hi hr =>
      exact exists_get?_insert_of_reason hp hP
        fun heq => hreason.written _ _ _ _ (hsame hr heq)
  | loaded hs hi hr =>
      exact exists_get?_insert_of_reason hp hP fun heq => hreason.touch _ _ (hsame hr heq)
  | pinned hi hr =>
      exact exists_get?_insert_of_reason hp hP fun heq => hreason.pin _ (hsame hr heq)
  | unpinned hi hr =>
      exact exists_get?_insert_of_reason hp hP
        fun heq => hunpin (beq_iff_eq.2 heq) _ (hsame hr heq)

theorem mem_attempts_of_mem (ha : a ∈ before) (requests : List MemoryRequest) :
    a ∈ m.attempts before requests := by
  induction requests generalizing m before with
  | nil => exact ha
  | cons request rest ih => exact ih (List.mem_cons_of_mem _ ha)

/-- A page that there is a reason to pin stays resident along a history that neither
discards it nor takes back the reason. -/
theorem Stamped.exists_get?_afterAll {requests : List MemoryRequest} (h : Stamped log m)
    (hreason : Page.PinReason P) (hp : m.pages.get? page = some p) (hP : P p)
    (hkept : ∀ a ∈ m.attempts before requests,
      a.discards page = false ∧ (a.unpins page = true → ∀ p, P p → P p.unpin)) :
    ∃ p', (m.afterAll requests).pages.get? page = some p' ∧ P p' := by
  induction requests generalizing m log before p with
  | nil => exact ⟨p, hp, hP⟩
  | cons request rest ih =>
      obtain ⟨hdiscards, hunpin⟩ := hkept _ (mem_attempts_of_mem List.mem_cons_self rest)
      obtain ⟨p', hp', hP'⟩ := h.exists_get?_after hreason hp hP hdiscards hunpin
      exact ih (h.after request) hp' hP' hkept

/-- After any history of a new memory, an allocation that is admitted fails exactly if every
page that the memory has room for is resident and pinned. Otherwise it adds a fresh page; one
page that is not pinned gives way to it if there was no room, and all others are as before.
So a page of the kernel zone stays resident until it is discarded, and a page that was pinned
by request until it is discarded or unpinned. -/
theorem pinned_pages_stay (requests : List MemoryRequest) :
    let m := empty.afterAll requests
    (∀ page size zone, m.initialized = true → size ≤ pageSize → page < m.totalPages →
      m.isResident page = false →
      ((m.allocateIn page size zone).result = .error .outOfMemory ↔ m.Exhausted) ∧
      (¬ m.Exhausted → (m.allocateIn page size zone).result = .ok () ∧
        m.Accommodates (m.allocateIn page size zone).state page zone)) ∧
    (∀ page p rest, m.pages.get? page = some p → p.zone = .kernel →
      (∀ a ∈ m.attempts [] rest, a.discards page = false) →
      ∃ p', (m.afterAll rest).pages.get? page = some p' ∧ p'.zone = .kernel) ∧
    (∀ page p rest, m.pages.get? page = some p → p.flags.pinned = true →
      (∀ a ∈ m.attempts [] rest, a.discards page = false ∧ a.unpins page = false) →
      ∃ p', (m.afterAll rest).pages.get? page = some p' ∧ p'.flags.pinned = true) := by
  intro m
  obtain ⟨hbounded, -, hstamped, -⟩ : Conserved (empty.records [] requests) m :=
    conserved_empty.afterAll requests
  refine ⟨?_, ?_, ?_⟩
  · intro page size zone hi hsize hlt habsent
    have hadmits := admits_eq_ok_iff.2 ⟨hi, hsize, hlt, isResident_eq_false_iff.1 habsent⟩
    exact hbounded.allocateIn_spec hstamped hadmits zone
  · intro page p rest hp hkernel hkept
    exact hstamped.exists_get?_afterAll Page.pinReason_zone hp hkernel
      fun a ha => ⟨hkept a ha, fun _ _ h => h⟩
  · intro page p rest hp hpinned hkept
    refine hstamped.exists_get?_afterAll Page.pinReason_flag hp hpinned
      fun a ha => ⟨(hkept a ha).1, fun hunpins => ?_⟩
    rw [(hkept a ha).2] at hunpins
    cases hunpins

/-- A full memory with one page that is not pinned: it gives way, and then nothing does. -/
theorem pinned_pages_stay_of_full_memory :
    let m := empty.afterAll [.reset 32768 (some 3), .allocateIn 0 8 .kernel, .allocate 1 8, .pin 1,
      .allocate 2 8]
    let rest : List MemoryRequest := [.unpin 0, .allocate 3 8, .pin 3, .allocate 4 8]
    (m.initialized = true ∧ m.totalPages = 8 ∧ m.isResident 3 = false ∧
      m.pages.size = m.capacity) ∧
      ¬ m.Exhausted ∧ (m.allocateIn 3 8 .user).result = .ok () ∧
      (∃ gone q, m.pages.get? gone = some q ∧ q.zone ≠ .kernel ∧ q.flags.pinned = false ∧
        (m.allocateIn 3 8 .user).state.pages.get? gone = none) ∧
      (∀ a ∈ m.attempts [] rest, a.discards 0 = false ∧ a.discards 1 = false ∧
        a.unpins 1 = false) ∧
      (∃ p, (m.afterAll rest).pages.get? 0 = some p ∧ p.zone = .kernel) ∧
      ∃ p, (m.afterAll rest).pages.get? 1 = some p ∧ p.flags.pinned = true := by
  intro m rest
  obtain ⟨hallocate, hkernel, hpinned⟩ := pinned_pages_stay [.reset 32768 (some 3),
    .allocateIn 0 8 .kernel, .allocate 1 8, .pin 1, .allocate 2 8]
  have hinit : m.initialized = true := by decide +kernel
  have htotal : m.totalPages = 8 := by decide +kernel
  have habsent : m.isResident 3 = false := by decide +kernel
  have hfull : m.pages.size = m.capacity := by decide +kernel
  have hlt : 3 < m.totalPages := by
    rw [htotal]
    decide
  obtain ⟨hiff, hotherwise⟩ := hallocate 3 8 .user hinit (by decide) hlt habsent
  have hdone : (m.allocateIn 3 8 .user).result = .ok () := by decide +kernel
  have hnot : ¬ m.Exhausted := by
    rw [← hiff, hdone]
    simp
  obtain ⟨gone, q, hq, hzone, hflag, hleft, -⟩ := (hotherwise hnot).2.evicts hfull
  have hkept : ∀ a ∈ m.attempts [] rest, a.discards 0 = false ∧ a.discards 1 = false ∧
      a.unpins 1 = false := by decide +kernel
  have hpages : ((m.pages.get? 0).map Page.zone, (m.pages.get? 1).map (·.flags.pinned)) =
      (some .kernel, some true) := by decide +kernel
  obtain ⟨hzero, hone⟩ := Prod.mk.inj hpages
  obtain ⟨p₀, hp₀, hzone₀⟩ := Option.map_eq_some_iff.1 hzero
  obtain ⟨p₁, hp₁, hflag₁⟩ := Option.map_eq_some_iff.1 hone
  exact ⟨⟨hinit, htotal, habsent, hfull⟩, hnot, hdone, ⟨gone, q, hq, hzone, hflag, hleft⟩, hkept,
    hkernel 0 p₀ rest hp₀ hzone₀ fun a ha => (hkept a ha).1,
    hpinned 1 p₁ rest hp₁ hflag₁ fun a ha => (hkept a ha).2⟩

end Memory

end Timeshare
