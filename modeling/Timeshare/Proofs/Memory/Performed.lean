import Timeshare.Memory.Request

/-!
# What a memory request can do

`Memory.Performed m request result m'` lists the ways in which a request can be
carried out on the memory `m`, with the conditions under which each one happens,
the result, and the memory that it leaves. Every request is carried out in one of
these ways (`Memory.performed_perform`), so an invariant of the memory is proved by
one case for each way, and no operation has to be opened again.
-/

namespace Timeshare

namespace MemoryRequest

/-- The page, the offset and the bytes of a request to write. -/
def stores? : MemoryRequest → Option (PageNumber × Nat × List UInt8)
  | .write page offset bytes => some (page, offset, bytes)
  | .writeWord page offset value => some (page, offset, Memory.wordBytes value)
  | _ => none

/-- The page of a request to allocate. -/
def allocates? : MemoryRequest → Option PageNumber
  | .allocate page _ => some page
  | .allocateIn page _ _ => some page
  | _ => none

/-- The page and the range of a request to read. -/
def reads? : MemoryRequest → Option (PageNumber × Nat × Nat)
  | .read page offset length => some (page, offset, length)
  | .readWord page offset => some (page, offset, 4)
  | _ => none

/-- Whether the request leaves every memory as it is when it succeeds. -/
def isQuery : MemoryRequest → Bool
  | .isDirty _ | .isInitialized | .isResident _ | .zoneOf _ | .info _ | .listPages | .usage => true
  | _ => false

end MemoryRequest

/-- The faults that are counted for an error. -/
def MemoryError.faultCount : MemoryError → Nat
  | .pageFault _ => 1
  | _ => 0

theorem MemoryError.faultCount_eq_zero {e : MemoryError} (h : ∀ page, e ≠ .pageFault page) :
    e.faultCount = 0 := by
  cases e with
  | pageFault page => exact absurd rfl (h page)
  | _ => rfl

/-- The page after bytes were written into it at the time `now`. -/
def Page.written (p : Page) (offset : Nat) (bytes : List UInt8) (now : Nat) : Page :=
  { p with
    flags := p.flags.union { dirty := true }
    lastAccess := now
    content := Page.overlay p.content offset bytes }

namespace Page

variable {p : Page} {offset length now : Nat} {bytes : List UInt8}

theorem checkRange_of_fits (h : offset + length ≤ pageSize) : p.checkRange offset length = .ok () := by
  simp [checkRange, inPage_eq_true_iff.2 h]

theorem checkRange_of_not_fits (h : ¬ offset + length ≤ pageSize) :
    p.checkRange offset length = .error (.outOfBounds p.number offset length) := by
  have hf : ¬ inPage offset length = true := mt inPage_eq_true_iff.1 h
  simp [checkRange, hf]

theorem write_of_fits (h : offset + bytes.length ≤ pageSize) :
    p.write offset bytes now = .ok (p.written offset bytes now) := by
  rw [write, checkRange_of_fits h]
  rfl

theorem write_of_not_fits (h : ¬ offset + bytes.length ≤ pageSize) :
    p.write offset bytes now = .error (.outOfBounds p.number offset bytes.length) := by
  rw [write, checkRange_of_not_fits h]
  rfl

theorem read_of_fits (h : offset + length ≤ pageSize) :
    p.read offset length now = .ok (slice p.content offset length, p.touch now) := by
  rw [read, checkRange_of_fits h]
  rfl

theorem read_of_not_fits (h : ¬ offset + length ≤ pageSize) :
    p.read offset length now = .error (.outOfBounds p.number offset length) := by
  rw [read, checkRange_of_not_fits h]
  rfl

@[simp] theorem isDirty_pin (p : Page) : p.pin.isDirty = p.isDirty := by
  simp [pin, isDirty, PageFlags.union]

@[simp] theorem isDirty_unpin (p : Page) : p.unpin.isDirty = p.isDirty := by
  simp [unpin, isDirty, PageFlags.difference]

end Page

namespace Memory

/-- The memory with another record for a resident page, accessed just now. -/
def accessed (m : Memory) (page : PageNumber) (p : Page) : Memory :=
  { m with pages := m.pages.insert page p, clock := m.clock + 1 }

/-- The ways in which a request is carried out. -/
inductive Performed (m : Memory) :
    MemoryRequest → Except MemoryError MemoryValue → Memory → Prop
  | refused {request : MemoryRequest} {e : MemoryError} (h : ∀ page, e ≠ .pageFault page) :
      Performed m request (.error e) m
  | faulted {request : MemoryRequest} {page : PageNumber} (ready : m.initialized = true)
      (absent : m.pages.get? page = none) :
      Performed m request (.error (.pageFault page)) { m with faults := m.faults + 1 }
  | reset {bytes : Nat} {frames : Option Nat} (hbytes : bytes ≠ 0) (hframes : frames ≠ some 0) :
      Performed m (.reset bytes frames) (.ok .done)
        { initialized := true
          totalPages := pagesFor bytes
          capacity := frames.elim (pagesFor bytes) (min · (pagesFor bytes)) }
  | placed {request : MemoryRequest} {page : PageNumber} {size : Nat} {zone : Zone}
      (h : request.allocates? = some page) (admitted : m.admits page size = .ok ())
      (room : m.pages.size < m.capacity) :
      Performed m request (.ok .done) (m.place page size zone)
  | replaced {request : MemoryRequest} {page : PageNumber} {size : Nat} {zone : Zone}
      {victim : Page} (h : request.allocates? = some page)
      (admitted : m.admits page size = .ok ()) (full : m.capacity ≤ m.pages.size)
      (hv : m.victim? = some victim) :
      Performed m request (.ok .done) ((m.evict victim).place page size zone)
  | freed {page : PageNumber} {p : Page} (ready : m.initialized = true)
      (resident : m.pages.get? page = some p) :
      Performed m (.free page) (.ok .done) { m with pages := m.pages.erase page }
  | stored {request : MemoryRequest} {page : PageNumber} {offset : Nat} {bytes : List UInt8}
      {p : Page} (h : request.stores? = some (page, offset, bytes))
      (ready : m.initialized = true) (resident : m.pages.get? page = some p)
      (fits : offset + bytes.length ≤ pageSize) :
      Performed m request (.ok .done)
        (m.accessed page (p.written offset bytes (m.clock + 1)))
  | loaded {request : MemoryRequest} {page : PageNumber} {offset length : Nat} {p : Page}
      {value : MemoryValue} (h : request.reads? = some (page, offset, length))
      (ready : m.initialized = true) (resident : m.pages.get? page = some p)
      (fits : offset + length ≤ pageSize) :
      Performed m request (.ok value) (m.accessed page (p.touch (m.clock + 1)))
  | pinned {page : PageNumber} {p : Page} (ready : m.initialized = true)
      (resident : m.pages.get? page = some p) :
      Performed m (.pin page) (.ok .done) { m with pages := m.pages.insert page p.pin }
  | unpinned {page : PageNumber} {p : Page} (ready : m.initialized = true)
      (resident : m.pages.get? page = some p) :
      Performed m (.unpin page) (.ok .done) { m with pages := m.pages.insert page p.unpin }
  | observed {request : MemoryRequest} {value : MemoryValue} (h : request.isQuery = true) :
      Performed m request (.ok value) m

variable {m : Memory}

/-- An access finds the memory not initialized, the page absent or the page
resident. -/
theorem withPage_cases {α : Type} (m : Memory) (page : PageNumber)
    (access : Page → Reply Memory (Except MemoryError α)) :
    (m.initialized = false ∧ m.withPage page access = ⟨.error .notInitialized, m, #[]⟩) ∨
    (m.initialized = true ∧ m.pages.get? page = none ∧
      m.withPage page access =
        ⟨.error (.pageFault page), { m with faults := m.faults + 1 }, #[]⟩) ∨
    (∃ p, m.initialized = true ∧ m.pages.get? page = some p ∧
      m.withPage page access = access p) := by
  by_cases hi : m.initialized = true
  · cases hp : m.pages.get? page with
    | none => exact .inr (.inl ⟨hi, rfl, withPage_of_absent hi hp⟩)
    | some p => exact .inr (.inr ⟨p, hi, rfl, withPage_of_resident hi hp⟩)
  · have hi : m.initialized = false := by simpa using hi
    exact .inl ⟨hi, withPage_of_not_initialized hi⟩

theorem admits_ne_pageFault {page other : PageNumber} {size : Nat} {e : MemoryError}
    (h : m.admits page size = .error e) : e ≠ .pageFault other := by
  rw [admits] at h
  rintro rfl
  split at h
  · cases h
  · split at h
    · cases h
    · split at h
      · cases h
      · split at h <;> cases h

/-- An allocation is admitted in an initialized memory, for at most a page of bytes, at a
number of the address space that is not resident. -/
theorem admits_eq_ok_iff {page : PageNumber} {size : Nat} :
    m.admits page size = .ok () ↔
      m.initialized = true ∧ size ≤ pageSize ∧ page < m.totalPages ∧
        m.pages.get? page = none := by
  rw [admits, Table.contains]
  cases m.initialized with
  | false => simp
  | true =>
      rcases Nat.lt_or_ge pageSize size with hsize | hsize
      · simp [hsize, Nat.not_le.2 hsize]
      · rcases Nat.lt_or_ge page m.totalPages with hpage | hpage
        · cases m.pages.get? page <;> simp [hsize, hpage, Nat.not_lt.2 hsize, Nat.not_le.2 hpage]
        · simp [hpage, Nat.not_lt.2 hsize, Nat.not_lt.2 hpage]

theorem get?_of_admits {page : PageNumber} {size : Nat}
    (h : m.admits page size = .ok ()) : m.pages.get? page = none :=
  (admits_eq_ok_iff.1 h).2.2.2

/-- An access is carried out in one of the ways in which it goes on with a resident
page, or it is refused or a fault. -/
theorem performed_withPage {α : Type} {request : MemoryRequest} {page : PageNumber}
    {access : Page → Reply Memory (Except MemoryError α)} {f : α → MemoryValue}
    (h : ∀ p, m.initialized = true → m.pages.get? page = some p →
      m.Performed request ((access p).result.map f) (access p).state) :
    m.Performed request ((m.withPage page access).result.map f) (m.withPage page access).state := by
  obtain ⟨-, heq⟩ | ⟨hi, hp, heq⟩ | ⟨p, hi, hp, heq⟩ := withPage_cases m page access
  · rw [heq]
    exact .refused (by simp)
  · rw [heq]
    exact .faulted hi hp
  · rw [heq]
    exact h p hi hp

theorem performed_write {request : MemoryRequest} {page : PageNumber} {offset : Nat}
    {bytes : List UInt8} (h : request.stores? = some (page, offset, bytes)) :
    m.Performed request ((m.write page offset bytes).result.map fun _ => .done)
      (m.write page offset bytes).state := by
  apply performed_withPage
  intro p hi hp
  by_cases hfits : offset + bytes.length ≤ pageSize
  · simp only [Page.write_of_fits hfits]
    exact .stored h hi hp hfits
  · simp only [Page.write_of_not_fits hfits]
    exact .refused (by simp)

theorem performed_read {request : MemoryRequest} {page : PageNumber} {offset length : Nat}
    (f : List UInt8 → MemoryValue) (h : request.reads? = some (page, offset, length)) :
    m.Performed request ((m.read page offset length).result.map f)
      (m.read page offset length).state := by
  apply performed_withPage
  intro p hi hp
  by_cases hfits : offset + length ≤ pageSize
  · simp only [Page.read_of_fits hfits]
    exact .loaded h hi hp hfits
  · simp only [Page.read_of_not_fits hfits]
    exact .refused (by simp)

theorem performed_allocateIn {request : MemoryRequest} {page : PageNumber} (size : Nat)
    (zone : Zone) (h : request.allocates? = some page) :
    m.Performed request ((m.allocateIn page size zone).result.map fun _ => .done)
      (m.allocateIn page size zone).state := by
  rw [allocateIn]
  cases ha : m.admits page size with
  | error e => exact .refused fun _ => admits_ne_pageFault ha
  | ok _ =>
      by_cases hroom : m.pages.size < m.capacity
      · simp only [hroom, if_true]
        exact .placed h ha hroom
      · simp only [hroom, if_false]
        cases hv : m.victim? with
        | none => exact .refused (by simp)
        | some victim => exact .replaced h ha (Nat.le_of_not_lt hroom) hv

theorem performed_reset (bytes : Nat) (frames : Option Nat) :
    m.Performed (.reset bytes frames) ((m.reset bytes frames).result.map fun _ => .done)
      (m.reset bytes frames).state := by
  rw [reset]
  split
  · exact .refused (by simp)
  next hbytes =>
    split
    · exact .refused (by simp)
    next hframes => exact .reset hbytes hframes

/-- Every request is carried out in one of the ways that are listed. -/
theorem performed_perform (m : Memory) (request : MemoryRequest) :
    m.Performed request (m.perform request).result (m.after request) := by
  cases request with
  | reset bytes frames => exact performed_reset bytes frames
  | allocate page size => exact performed_allocateIn size .user rfl
  | allocateIn page size zone => exact performed_allocateIn size zone rfl
  | free page => exact performed_withPage fun p hi hp => .freed hi hp
  | write page offset bytes => exact performed_write rfl
  | writeWord page offset value => exact performed_write rfl
  | read page offset length => exact performed_read .bytes rfl
  | readWord page offset =>
      have h : m.Performed (.readWord page offset)
          ((m.read page offset 4).result.map fun bytes => .word (wordOfBytes bytes))
          (m.read page offset 4).state := performed_read _ rfl
      simp only [after, perform, readWord, Reply.result_map, Reply.state_map]
      cases hr : (m.read page offset 4).result <;> rw [hr] at h <;> exact h
  | pin page => exact performed_withPage fun p hi hp => .pinned hi hp
  | unpin page => exact performed_withPage fun p hi hp => .unpinned hi hp
  | isDirty page => exact performed_withPage fun p hi hp => .observed rfl
  | isInitialized | isResident | zoneOf | info | listPages | usage => exact .observed rfl

/-- A request that fails changes nothing but the count of the faults. -/
theorem after_of_error {request : MemoryRequest} {e : MemoryError}
    (h : (m.perform request).result = .error e) :
    m.after request = { m with faults := m.faults + e.faultCount } := by
  have hstep := performed_perform m request
  rw [h] at hstep
  generalize m.after request = m' at hstep ⊢
  cases hstep with
  | refused he =>
      rw [MemoryError.faultCount_eq_zero he]
      rfl
  | faulted => rfl

end Memory

end Timeshare
