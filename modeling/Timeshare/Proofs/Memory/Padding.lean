import Timeshare.Proofs.Cpu.Accesses
import Timeshare.Proofs.Memory.Eviction

/-!
# Histories with idle requests

Requests that use no page have no part in what is evicted, apart from the pins that
they set. Two memories that are the same up to pins (`Memory.SameUpToPins`) evict the
same page whenever they have the same pages pinned, and they remain the same up to pins
if idle requests are inserted into the history of one of them (`Memory.Padded`).

With the stamps and the victim of the modules before, this is
`Memory.evicts_least_recently_used`.
-/

namespace Timeshare

namespace MemoryRequest

/-- Whether the request pins a page or takes back a pin. -/
def isPin : MemoryRequest → Bool
  | .pin _ | .unpin _ => true
  | _ => false

theorem isQuery_or_isPin_of_uses? {request : MemoryRequest} {page : PageNumber}
    (h : request.uses? = some page) : (request.isQuery || request.isPin) = false := by
  cases request <;> first | rfl | cases h

end MemoryRequest

namespace Page

theorem unpin_pin (p : Page) : p.pin.unpin = p.unpin := by
  simp [pin, unpin, PageFlags.union, PageFlags.difference]

theorem unpin_unpin (p : Page) : p.unpin.unpin = p.unpin := by
  simp [unpin, PageFlags.difference]

/-- A write and a pin do not meet. -/
theorem unpin_written (p : Page) (offset : Nat) (bytes : List UInt8) (now : Nat) :
    (p.written offset bytes now).unpin = p.unpin.written offset bytes now := by
  simp [written, unpin, PageFlags.union, PageFlags.difference]

end Page

namespace Memory

variable {m m' : Memory} {log log' : List Attempt} {request : MemoryRequest}
  {page v : PageNumber} {p p' q q' : Page}

/-! ## Memories that differ in their pins -/

/-- The memories have the same pages resident, with the same stamps and contents; pages
may be pinned by request in one of them only, and the counters of what happened may
differ. -/
structure SameUpToPins (m m' : Memory) : Prop where
  initialized : m.initialized = m'.initialized
  totalPages : m.totalPages = m'.totalPages
  capacity : m.capacity = m'.capacity
  clock : m.clock = m'.clock
  pages : m.pages.map Page.unpin = m'.pages.map Page.unpin

/-- The same pages are pinned in both memories. -/
def SamePins (m m' : Memory) : Prop :=
  ∀ page, (m.pages.get? page).map Page.isPinned = (m'.pages.get? page).map Page.isPinned

theorem SamePins.symm (h : m.SamePins m') : m'.SamePins m := fun page => (h page).symm

theorem SamePins.isPinned_eq (h : m.SamePins m') (hp : m.pages.get? page = some p)
    (hp' : m'.pages.get? page = some p') : p.isPinned = p'.isPinned := by
  have heq := h page
  rw [hp, hp'] at heq
  exact Option.some.inj heq

namespace SameUpToPins

theorem refl (m : Memory) : m.SameUpToPins m := ⟨rfl, rfl, rfl, rfl, rfl⟩

theorem symm (h : m.SameUpToPins m') : m'.SameUpToPins m :=
  ⟨h.initialized.symm, h.totalPages.symm, h.capacity.symm, h.clock.symm, h.pages.symm⟩

theorem trans {m₁ : Memory} (h : m.SameUpToPins m') (h₁ : m'.SameUpToPins m₁) :
    m.SameUpToPins m₁ :=
  ⟨h.initialized.trans h₁.initialized, h.totalPages.trans h₁.totalPages,
    h.capacity.trans h₁.capacity, h.clock.trans h₁.clock, h.pages.trans h₁.pages⟩

theorem map_unpin_get? (h : m.SameUpToPins m') (page : PageNumber) :
    (m.pages.get? page).map Page.unpin = (m'.pages.get? page).map Page.unpin := by
  rw [← Table.get?_map, h.pages, Table.get?_map]

theorem get? (h : m.SameUpToPins m') (hp : m.pages.get? page = some p) :
    ∃ p', m'.pages.get? page = some p' ∧ p.unpin = p'.unpin := by
  have heq := h.map_unpin_get? page
  rw [hp] at heq
  obtain ⟨p', hp', hunpin⟩ := Option.map_eq_some_iff.1 heq.symm
  exact ⟨p', hp', hunpin.symm⟩

theorem isResident_eq (h : m.SameUpToPins m') (page : PageNumber) :
    m.isResident page = m'.isResident page := by
  have heq := congrArg Option.isSome (h.map_unpin_get? page)
  rwa [Option.isSome_map, Option.isSome_map] at heq

theorem size_eq (h : m.SameUpToPins m') : m.pages.size = m'.pages.size := by
  have heq := congrArg Table.size h.pages
  rwa [Table.size_map, Table.size_map] at heq

theorem admits_eq (h : m.SameUpToPins m') (page : PageNumber) (size : Nat) :
    m.admits page size = m'.admits page size := by
  have hresident : m.pages.contains page = m'.pages.contains page := h.isResident_eq page
  rw [admits, admits, h.initialized, h.totalPages, hresident]

theorem accessed (h : m.SameUpToPins m') (page : PageNumber) (hq : q.unpin = q'.unpin) :
    (m.accessed page q).SameUpToPins (m'.accessed page q') where
  initialized := h.initialized
  totalPages := h.totalPages
  capacity := h.capacity
  clock := congrArg (· + 1) h.clock
  pages := by
    simp only [Memory.accessed]
    rw [Table.map_insert, Table.map_insert, h.pages, hq]

theorem place (h : m.SameUpToPins m') (page : PageNumber) (size : Nat) (zone : Zone) :
    (m.place page size zone).SameUpToPins (m'.place page size zone) := by
  have hfresh : Page.unpin { number := page, zone, lastAccess := m.clock + 1, requested := size } =
      Page.unpin { number := page, zone, lastAccess := m'.clock + 1, requested := size } := by
    rw [h.clock]
  exact h.accessed page hfresh

theorem erase (h : m.SameUpToPins m') (page : PageNumber) :
    SameUpToPins { m with pages := m.pages.erase page }
      { m' with pages := m'.pages.erase page } where
  initialized := h.initialized
  totalPages := h.totalPages
  capacity := h.capacity
  clock := h.clock
  pages := by
    rw [Table.map_erase, Table.map_erase, h.pages]

theorem evict (h : m.SameUpToPins m') (hnumber : p.number = p'.number) :
    (m.evict p).SameUpToPins (m'.evict p') where
  initialized := h.initialized
  totalPages := h.totalPages
  capacity := h.capacity
  clock := h.clock
  pages := by
    simp only [Memory.evict, hnumber]
    exact (h.erase p'.number).pages

/-- To change the pins of a resident page makes no difference. -/
theorem pinned (hp : m.pages.get? page = some p) (hq : q.unpin = p.unpin) :
    m.SameUpToPins { m with pages := m.pages.insert page q } :=
  ⟨rfl, rfl, rfl, rfl, (Table.map_insert_of_get? (by rw [hp, Option.map_some, hq])).symm⟩

/-! ## The same request in both -/

theorem withPage {α : Type} {access access' : Page → Reply Memory (Except MemoryError α)}
    (h : m.SameUpToPins m')
    (haccess : ∀ p p', m.pages.get? page = some p → m'.pages.get? page = some p' →
      p.unpin = p'.unpin → (access p).state.SameUpToPins (access' p').state) :
    (m.withPage page access).state.SameUpToPins (m'.withPage page access').state := by
  obtain ⟨hi, heq⟩ | ⟨hi, hp, heq⟩ | ⟨p, hi, hp, heq⟩ := withPage_cases m page access
  · rw [heq, withPage_of_not_initialized (h.initialized ▸ hi)]
    exact h
  · have hp' : m'.pages.get? page = none := by
      simpa [hp] using (h.map_unpin_get? page).symm
    rw [heq, withPage_of_absent (h.initialized ▸ hi) hp']
    exact ⟨h.initialized, h.totalPages, h.capacity, h.clock, h.pages⟩
  · obtain ⟨p', hp', hunpin⟩ := h.get? hp
    rw [heq, withPage_of_resident (h.initialized ▸ hi) hp']
    exact haccess p p' hp hp' hunpin

theorem reset (h : m.SameUpToPins m') (bytes : Nat) (frames : Option Nat) :
    (m.reset bytes frames).state.SameUpToPins (m'.reset bytes frames).state := by
  rw [Memory.reset, Memory.reset]
  split
  · exact h
  · split
    · exact h
    · exact refl _

theorem free (h : m.SameUpToPins m') (page : PageNumber) :
    (m.free page).state.SameUpToPins (m'.free page).state :=
  h.withPage fun _ _ _ _ _ => h.erase page

theorem write (h : m.SameUpToPins m') (page : PageNumber) (offset : Nat) (bytes : List UInt8) :
    (m.write page offset bytes).state.SameUpToPins (m'.write page offset bytes).state := by
  apply h.withPage
  intro p p' hp hp' hunpin
  by_cases hfits : offset + bytes.length ≤ pageSize
  · simp only [Page.write_of_fits hfits]
    refine h.accessed page ?_
    rw [← h.clock]
    rw [Page.unpin_written, Page.unpin_written, hunpin]
  · simp only [Page.write_of_not_fits hfits]
    exact h

theorem read (h : m.SameUpToPins m') (page : PageNumber) (offset length : Nat) :
    (m.read page offset length).state.SameUpToPins (m'.read page offset length).state := by
  apply h.withPage
  intro p p' hp hp' hunpin
  by_cases hfits : offset + length ≤ pageSize
  · simp only [Page.read_of_fits hfits]
    refine h.accessed page ?_
    rw [← h.clock]
    exact congrArg (Page.touch · (m.clock + 1)) hunpin
  · simp only [Page.read_of_not_fits hfits]
    exact h

theorem pin (h : m.SameUpToPins m') (page : PageNumber) :
    (m.pin page).state.SameUpToPins (m'.pin page).state :=
  h.withPage fun p p' hp hp' _ =>
    ((pinned hp p.unpin_pin).symm.trans h).trans (pinned hp' p'.unpin_pin)

theorem unpin (h : m.SameUpToPins m') (page : PageNumber) :
    (m.unpin page).state.SameUpToPins (m'.unpin page).state :=
  h.withPage fun p p' hp hp' _ =>
    ((pinned hp p.unpin_unpin).symm.trans h).trans (pinned hp' p'.unpin_unpin)

theorem isDirty (h : m.SameUpToPins m') (page : PageNumber) :
    (m.isDirty page).state.SameUpToPins (m'.isDirty page).state := by
  apply h.withPage
  intro p p' hp hp' hunpin
  exact h

/-- With the same pages pinned, the same page is the oldest. -/
theorem victim? (h : m.SameUpToPins m') (hs : Stamped log m) (hs' : Stamped log' m')
    (hpins : m.SamePins m') (hv : m.victim? = some p) :
    ∃ p', m'.victim? = some p' ∧ p.number = p'.number := by
  have hp := hs.oldest_of_victim? hv
  obtain ⟨p', hp', hunpin⟩ := h.get? hp.resident
  have hnumber : p.number = p'.number := (congrArg Page.number hunpin :)
  have hstamp : p.lastAccess = p'.lastAccess := (congrArg Page.lastAccess hunpin :)
  refine ⟨p', hs'.victim?_eq_some_iff.2 ⟨hnumber ▸ hp', ?_, ?_⟩, hnumber⟩
  · rw [← hpins.isPinned_eq hp.resident hp']
    exact hp.unpinned
  · intro other q' hq' hunpinned'
    obtain ⟨q, hq, hunpin'⟩ := h.symm.get? hq'
    have hunpinned : q.isPinned = false := (hpins.isPinned_eq hq hq').trans hunpinned'
    have hstamp' : q'.lastAccess = q.lastAccess := (congrArg Page.lastAccess hunpin' :)
    rw [← hstamp, hstamp']
    exact hp.le other q hq hunpinned

end SameUpToPins

/-- The same pages are pinned in both memories if the request evicts a page from one of
them. -/
def SamePinsFor (m m' : Memory) (request : MemoryRequest) : Prop :=
  (∃ v, m.Evicts request v ∨ m'.Evicts request v) → m.SamePins m'

namespace SameUpToPins

theorem allocateIn (h : m.SameUpToPins m') (hs : Stamped log m) (hs' : Stamped log' m')
    {size : Nat} {zone : Zone} (hpins : m.SamePinsFor m' (.allocateIn page size zone)) :
    (m.allocateIn page size zone).state.SameUpToPins (m'.allocateIn page size zone).state := by
  have hadmits := h.admits_eq page size
  rw [Memory.allocateIn, Memory.allocateIn, ← hadmits, ← h.size_eq, ← h.capacity]
  cases ha : m.admits page size with
  | error e => exact h
  | ok _ =>
      by_cases hroom : m.pages.size < m.capacity
      · simp only [hroom, if_true]
        exact h.place page size zone
      · have hfull : ¬ m'.pages.size < m'.capacity := by rwa [← h.size_eq, ← h.capacity]
        simp only [hroom, if_false]
        cases hv : m.victim? with
        | some p =>
            have hevicts := hs.evicts_allocateIn zone ha hroom hv
            obtain ⟨p', hv', hnumber⟩ := h.victim? hs hs' (hpins ⟨_, .inl hevicts⟩) hv
            rw [hv']
            exact (h.evict hnumber).place page size zone
        | none =>
            cases hv' : m'.victim? with
            | none => exact h
            | some p' =>
                have hevicts := hs'.evicts_allocateIn zone (hadmits ▸ ha) hfull hv'
                have hsame := (hpins ⟨_, .inr hevicts⟩).symm
                obtain ⟨p, hp, -⟩ := h.symm.victim? hs' hs hsame hv'
                rw [hv] at hp
                cases hp

/-- The same request keeps the memories the same up to pins. -/
theorem after (h : m.SameUpToPins m') (hs : Stamped log m) (hs' : Stamped log' m')
    (hpins : m.SamePinsFor m' request) : (m.after request).SameUpToPins (m'.after request) := by
  cases request with
  | reset bytes frames => exact h.reset bytes frames
  | allocate page size => exact h.allocateIn hs hs' hpins
  | allocateIn page size zone => exact h.allocateIn hs hs' hpins
  | free page => exact h.free page
  | write page offset bytes => exact h.write page offset bytes
  | writeWord page offset value => exact h.write page offset (wordBytes value)
  | read page offset length => exact h.read page offset length
  | readWord page offset => exact h.read page offset 4
  | pin page => exact h.pin page
  | unpin page => exact h.unpin page
  | isDirty page => exact h.isDirty page
  | isInitialized | isResident | zoneOf | info | listPages | usage => exact h

/-- With the same pages pinned, the memories evict the same page. -/
theorem evicts (h : m.SameUpToPins m') (hs : Stamped log m) (hs' : Stamped log' m')
    (hpins : m.SamePins m') (he : m.Evicts request v) : m'.Evicts request v := by
  obtain ⟨ha, hbefore, hafter⟩ := he
  refine ⟨ha, ?_, ?_⟩
  · rwa [← h.isResident_eq]
  · rwa [← (h.after hs hs' fun _ => hpins).isResident_eq]

end SameUpToPins

/-! ## Idle requests -/

/-- The request asks about the memory, sets or takes back a pin, or fails. -/
def Idle (m : Memory) (request : MemoryRequest) : Prop :=
  (request.isQuery || request.isPin) = true ∨ (m.perform request).result.isOk = false

theorem Idle.sameUpToPins (h : m.Idle request) : m.SameUpToPins (m.after request) := by
  rw [Idle] at h
  have hused : ∀ {page}, request.uses? = some page → (m.perform request).result.isOk = false := by
    intro page huses
    rw [MemoryRequest.isQuery_or_isPin_of_uses? huses] at h
    exact h.resolve_left Bool.false_ne_true
  have hstep := performed_perform m request
  generalize (m.perform request).result = result at h hused hstep
  generalize m.after request = m' at hstep
  cases hstep with
  | refused he => exact .refl m
  | faulted hi hp => exact ⟨rfl, rfl, rfl, rfl, rfl⟩
  | @pinned page p hi hp => exact .pinned hp p.unpin_pin
  | @unpinned page p hi hp => exact .pinned hp p.unpin_unpin
  | observed hq => exact .refl m
  | reset | freed => rcases h with h | h <;> cases h
  | placed ha | replaced ha => cases hused (MemoryRequest.uses?_of_allocates? ha)
  | stored hs hi hp hfits => cases hused (MemoryRequest.uses?_of_stores? hs)
  | loaded hr hi hp hfits => cases hused (MemoryRequest.uses?_of_reads? hr)

/-- The second history of requests is the first one with idle requests inserted, where
the pages that are pinned whenever a page is evicted are those of the first history. -/
inductive Padded : Memory → Memory → List MemoryRequest → List MemoryRequest → Prop
  | nil {m m' : Memory} : Padded m m' [] []
  | inserted {m m' : Memory} {request : MemoryRequest} {rest rest' : List MemoryRequest}
      (idle : m'.Idle request) (h : Padded m (m'.after request) rest rest') :
      Padded m m' rest (request :: rest')
  | common {m m' : Memory} {request : MemoryRequest} {rest rest' : List MemoryRequest}
      (pins : m.SamePinsFor m' request)
      (h : Padded (m.after request) (m'.after request) rest rest') :
      Padded m m' (request :: rest) (request :: rest')

theorem Padded.sameUpToPins {rest rest' : List MemoryRequest} (hpad : Padded m m' rest rest')
    (h : m.SameUpToPins m') (hs : Stamped log m) (hs' : Stamped log' m') :
    (m.afterAll rest).SameUpToPins (m'.afterAll rest') := by
  induction hpad generalizing log log' with
  | nil => exact h
  | inserted idle hpad ih => exact ih (h.trans idle.sameUpToPins) hs (hs'.after _)
  | common pins hpad ih => exact ih (h.after hs hs' pins) (hs.after _) (hs'.after _)

/-- In a new memory that was used in any way, the stamps of the resident pages are
distinct, not later than the clock, and in the order in which the pages were used last.
An allocation evicts the unpinned page whose last use is the earliest, and the memory
counts it. Idle requests that are inserted in what follows change the page that a later
allocation evicts only through the pins. -/
theorem evicts_least_recently_used (uses : List MemoryUse) :
    let m := empty.afterUses uses
    let log := empty.attempts [] (empty.history uses)
    (∀ page p, m.pages.get? page = some p →
      0 < lastUse page log ∧ p.lastAccess ≤ m.clock) ∧
    (∀ page other p q, m.pages.get? page = some p → m.pages.get? other = some q →
      page ≠ other → p.lastAccess ≠ q.lastAccess) ∧
    (∀ page other p q, m.pages.get? page = some p → m.pages.get? other = some q →
      (p.lastAccess < q.lastAccess ↔ lastUse page log < lastUse other log)) ∧
    (∀ request v, m.Evicts request v →
      (m.perform request).result = .ok .done ∧
      (∃ victim, m.pages.get? v = some victim ∧ victim.isPinned = false) ∧
      ∀ page p, m.pages.get? page = some p → p.isPinned = false → page ≠ v →
        lastUse v log < lastUse page log) ∧
    (∀ request, (∃ v, m.Evicts request v) ↔ (m.after request).evictions = m.evictions + 1) ∧
    (∀ rest rest', m.Padded m rest rest' → (m.afterAll rest).SamePins (m.afterAll rest') →
      ∀ request v, (m.afterAll rest).Evicts request v ↔ (m.afterAll rest').Evicts request v) := by
  intro m log
  have h : Stamped log m := by
    have hempty : Stamped [] empty := stamped_of_pages_empty rfl
    have hafter := hempty.afterAll (empty.history uses)
    rwa [← afterUses_eq_afterAll] at hafter
  refine ⟨?_, ?_, ?_, ?_, ?_, ?_⟩
  · exact fun page p hp => ⟨h.used page p hp, h.le_clock page p hp⟩
  · exact fun page other p q hp hq hne heq => hne (h.eq_of_lastAccess_eq hp hq heq)
  · exact h.lt_iff
  · intro request v he
    obtain ⟨victim, hresident, hvictim⟩ := h.oldest_of_evicts he
    exact ⟨he.cases.1, ⟨victim, hresident, hvictim.unpinned⟩,
      fun page p hp hp' hne => h.lastUse_lt_of_evicts he hp hp' hne⟩
  · exact h.exists_evicts_iff
  · intro rest rest' hpad hpins request v
    have hrest := h.afterAll rest
    have hrest' := h.afterAll rest'
    have hsame := hpad.sameUpToPins (.refl m) h h
    exact ⟨hsame.evicts hrest hrest' hpins, hsame.symm.evicts hrest' hrest hpins.symm⟩

example :
    let m := empty.afterAll [.reset 12288 (some 2), .allocate 0 16, .allocate 1 16,
      .readWord 0 8, .readWord 1 4094, .pin 1, .unpin 1, .allocate 2 16]
    m.isResident 0 = true ∧ m.isResident 1 = false ∧ m.isResident 2 = true := by
  decide +kernel

end Memory

end Timeshare
