import Timeshare.Proofs.Memory.Recency

/-!
# The page that is evicted

An allocation into a full memory evicts the unpinned page with the smallest stamp. The
stamps are distinct and in the order of the history, so there is one such page, and it
is the unpinned page that was used longest ago (`Memory.Stamped.lastUse_lt_of_evicts`).
-/

namespace Timeshare

namespace Memory

variable {m : Memory} {log : List Attempt} {request : MemoryRequest}
  {page v : PageNumber} {size : Nat} {zone : Zone}
  {p q victim : Page}

/-! ## The page with the smallest stamp -/

/-- The page is resident and not pinned, and no such page has a smaller stamp. -/
structure Oldest (m : Memory) (p : Page) : Prop where
  resident : m.pages.get? p.number = some p
  unpinned : p.isPinned = false
  le : ∀ other q, m.pages.get? other = some q → q.isPinned = false →
    p.lastAccess ≤ q.lastAccess

theorem mem_filter_values_iff :
    p ∈ m.pages.values.filter (fun p => !p.isPinned) ↔
      (∃ page, m.pages.get? page = some p) ∧ p.isPinned = false := by
  rw [List.mem_filter, Table.mem_values_iff, Bool.not_eq_true']

theorem Stamped.oldest_of_victim? (h : Stamped log m) (hv : m.victim? = some p) :
    m.Oldest p := by
  obtain ⟨⟨page, hp⟩, hunpinned⟩ := mem_filter_values_iff.1 (List.minOn?_mem hv)
  refine ⟨?_, hunpinned, ?_⟩
  · rw [h.number_eq page p hp]
    exact hp
  · intro other q hq hq'
    have hmem := mem_filter_values_iff.2 ⟨⟨other, hq⟩, hq'⟩
    have hsome : m.victim?.isSome = true := Option.isSome_of_eq_some hv
    have hget : m.victim?.get hsome = p := Option.get_of_eq_some hsome hv
    rw [← hget]
    exact List.apply_get_minOn?_le_of_mem (f := Page.lastAccess) hmem

/-- The stamps are distinct, so there is one page with the smallest. -/
theorem Stamped.victim?_eq_some_iff (h : Stamped log m) :
    m.victim? = some p ↔ m.Oldest p := by
  refine ⟨h.oldest_of_victim?, fun hp => ?_⟩
  have hmem := mem_filter_values_iff.2 ⟨⟨p.number, hp.resident⟩, hp.unpinned⟩
  obtain ⟨q, hv⟩ : ∃ q, m.victim? = some q :=
    Option.isSome_iff_exists.1 (List.isSome_minOn?_of_mem (f := Page.lastAccess) hmem)
  have hq := h.oldest_of_victim? hv
  have heq : p.lastAccess = q.lastAccess :=
    Nat.le_antisymm (hp.le q.number q hq.resident hq.unpinned)
      (hq.le p.number p hp.resident hp.unpinned)
  have hnumber := h.eq_of_lastAccess_eq hp.resident hq.resident heq
  have hresident := hp.resident
  rw [hnumber, hq.resident] at hresident
  cases hresident
  exact hv

/-! ## Evictions -/

/-- The request is an allocation, and the page leaves the memory by it. -/
def Evicts (m : Memory) (request : MemoryRequest) (v : PageNumber) : Prop :=
  (∃ page, request.allocates? = some page) ∧ m.isResident v = true ∧
    (m.after request).isResident v = false

theorem ne_of_admits (hadmits : m.admits page size = .ok ()) (hp : m.pages.get? v = some p) :
    page ≠ v := by
  rintro rfl
  rw [get?_of_admits hadmits] at hp
  cases hp

theorem Stamped.evicts (h : Stamped log m) (ha : request.allocates? = some page)
    (hadmits : m.admits page size = .ok ()) (hv : m.victim? = some victim)
    (heq : m.after request = (m.evict victim).place page size zone) :
    m.Evicts request victim.number := by
  have hresident := (h.oldest_of_victim? hv).resident
  have hne := ne_of_admits hadmits hresident
  refine ⟨⟨page, ha⟩, ?_, ?_⟩
  · simp [isResident, Table.contains, hresident]
  · have hgone : (m.evict victim).pages.get? victim.number = none :=
      (Table.get?_erase ..).trans (if_pos rfl)
    simp [heq, isResident, Table.contains, place, Table.get?_insert_of_ne _ hne, hgone]

/-- An allocation for which there is no room evicts the oldest page. -/
theorem Stamped.evicts_allocateIn (h : Stamped log m) (zone : Zone)
    (hadmits : m.admits page size = .ok ()) (hfull : ¬ m.pages.size < m.capacity)
    (hv : m.victim? = some victim) : m.Evicts (.allocateIn page size zone) victim.number := by
  have heq : m.after (.allocateIn page size zone) = (m.evict victim).place page size zone := by
    simp [Memory.after, perform, allocateIn, hadmits, hfull, hv]
  exact h.evicts rfl hadmits hv heq

/-- What an allocation did by which a page left. -/
theorem Evicts.cases (he : m.Evicts request v) :
    (m.perform request).result = .ok .done ∧
      ∃ page size zone victim, m.victim? = some victim ∧ victim.number = v ∧
        m.after request = (m.evict victim).place page size zone := by
  obtain ⟨⟨target, ha⟩, hbefore, hafter⟩ := he
  obtain ⟨p, hp⟩ := (Table.contains_iff m.pages v).1 hbefore
  have hkept : ∀ {m' : Memory}, m'.pages.get? v = some p → m'.isResident v = false → False := by
    intro m' hp' hgone
    simp [isResident, Table.contains, hp'] at hgone
  have hstep := performed_perform m request
  generalize (m.perform request).result = result at hstep ⊢
  generalize m.after request = m' at hstep hafter ⊢
  cases hstep with
  | refused he => exact (hkept hp hafter).elim
  | faulted hi hp' => exact (hkept hp hafter).elim
  | @placed _ page size zone ha hadmits hroom =>
      have hne := ne_of_admits hadmits hp
      exact (hkept ((Table.get?_insert_of_ne _ hne _).trans hp) hafter).elim
  | @replaced _ page size zone victim ha hadmits hfull hv =>
      refine ⟨rfl, page, size, zone, victim, hv, ?_, rfl⟩
      by_cases hvictim : victim.number = v
      · exact hvictim
      · have hne := ne_of_admits hadmits hp
        have herase : (m.evict victim).pages.get? v = some p :=
          Table.get?_erase_eq_some_iff.2 ⟨hvictim, hp⟩
        exact (hkept ((Table.get?_insert_of_ne _ hne _).trans herase) hafter).elim
  | stored hs hi hp hfits =>
      rw [stores?_of_allocates? ha] at hs
      cases hs
  | loaded hr hi hp hfits =>
      rw [(stores?_of_reads? hr).2] at ha
      cases ha
  | observed hq =>
      rw [(stores?_of_isQuery hq).2] at ha
      cases ha
  | reset | freed | pinned | unpinned => cases ha

theorem Stamped.oldest_of_evicts (h : Stamped log m) (he : m.Evicts request v) :
    ∃ victim, m.pages.get? v = some victim ∧ m.Oldest victim := by
  obtain ⟨-, page, size, zone, victim, hv, rfl, -⟩ := he.cases
  have hvictim := h.oldest_of_victim? hv
  exact ⟨victim, hvictim.resident, hvictim⟩

/-- The evicted page was used before every other page that is not pinned. -/
theorem Stamped.lastUse_lt_of_evicts (h : Stamped log m) (he : m.Evicts request v)
    (hq : m.pages.get? page = some q) (hq' : q.isPinned = false) (hne : page ≠ v) :
    lastUse v log < lastUse page log := by
  obtain ⟨victim, hresident, hvictim⟩ := h.oldest_of_evicts he
  obtain rfl := h.number_eq v victim hresident
  refine (h.lt_iff victim.number page victim q hresident hq).1 ?_
  refine Nat.lt_of_le_of_ne (hvictim.le page q hq hq') fun heq => ?_
  exact hne (h.eq_of_lastAccess_eq hresident hq heq).symm

/-- The memory counts exactly the evictions. -/
theorem Stamped.exists_evicts_iff (h : Stamped log m) (request : MemoryRequest) :
    (∃ v, m.Evicts request v) ↔ (m.after request).evictions = m.evictions + 1 := by
  constructor
  · rintro ⟨v, he⟩
    obtain ⟨-, page, size, zone, victim, -, -, heq⟩ := he.cases
    rw [heq]
    rfl
  · intro hcount
    have hstep := performed_perform m request
    generalize (m.perform request).result = result at hstep
    generalize hafter : m.after request = m' at hstep hcount
    cases hstep with
    | replaced ha hadmits hfull hv => exact ⟨_, h.evicts ha hadmits hv hafter⟩
    | reset => cases hcount
    | _ => exact absurd hcount.symm (Nat.succ_ne_self m.evictions)

end Memory

end Timeshare
