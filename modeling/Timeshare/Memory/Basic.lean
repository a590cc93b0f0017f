import Timeshare.Journal
import Timeshare.LittleEndian
import Timeshare.Memory.Page
import Timeshare.Table

/-!
# The paged memory

The memory has an address space of `totalPages` pages, of which at most
`capacity` are resident at a time. Accesses are stamped by a logical clock that
advances with every access that succeeds, so the page that was used longest ago
is the one with the smallest stamp, and it is evicted when room is needed.
Pinned pages are never evicted. What a page held is lost when it leaves.

All operations on a resident page go through `Memory.withPage`, which refuses an
uninitialized memory and counts an access to an absent page as a fault. An
operation that is refused for another reason leaves the memory as it was.
-/

namespace Timeshare

/-- The paged memory. -/
structure Memory where
  initialized : Bool := false
  /-- The resident pages by number. -/
  pages : Table Page := {}
  /-- The number of pages of the address space. -/
  totalPages : Nat := 0
  /-- The greatest number of resident pages. -/
  capacity : Nat := 0
  /-- The time of the latest successful access. -/
  clock : Nat := 0
  evictions : Nat := 0
  /-- The evicted pages that had been written. -/
  writebacks : Nat := 0
  /-- The accesses to pages that were not resident. -/
  faults : Nat := 0

/-! ## Events -/

namespace Event

def memoryInitialized (totalPages capacity : Nat) : Event where
  severity := .info
  source := .memory
  text := s!"memory initialized: {totalPages} pages, {capacity} resident frames"

def pageAllocated (page : PageNumber) (size : Nat) (zone : Zone) : Event where
  severity := .trace
  source := .memory
  text := "allocated " ++ page.text ++ " in " ++ zone.name ++ s!" zone ({size} bytes)"

def allocationFailed (page : PageNumber) : Event where
  severity := .warn
  source := .memory
  text := "allocation of " ++ page.text ++ " failed: all resident pages pinned"

def pageEvicted (page : Page) : Event where
  severity := .debug
  source := .memory
  text :=
    "evicted " ++ page.number.text ++ " (" ++ page.zone.name ++ ", dirty=" ++
      toString page.isDirty ++ ", last access " ++ toString page.lastAccess ++ ")"

end Event

namespace Memory

/-- The memory before anything was set up. -/
def empty : Memory := {}

/-! ## Setting up -/

/-- A fresh address space for `bytes` bytes. At most `frames` pages are resident
if a limit is given, and every page may be if there is none. Nothing of the old
address space survives. -/
def reset (m : Memory) (bytes : Nat) (frames : Option Nat) :
    Reply Memory (Except MemoryError Unit) :=
  if bytes = 0 then ⟨.error (.invalidSize bytes), m, #[]⟩
  else if frames = some 0 then ⟨.error (.invalidSize 0), m, #[]⟩
  else
    let totalPages := pagesFor bytes
    let capacity := frames.elim totalPages (min · totalPages)
    ⟨.ok (), { initialized := true, totalPages, capacity },
      #[.memoryInitialized totalPages capacity]⟩

/-! ## Allocation and eviction -/

/-- Whether a page may be allocated at all, room aside. -/
def admits (m : Memory) (page : PageNumber) (size : Nat) : Except MemoryError Unit :=
  if !m.initialized then .error .notInitialized
  else if pageSize < size then .error (.invalidSize size)
  else if m.totalPages ≤ page then .error (.outOfBounds page 0 size)
  else if m.pages.contains page then .error (.alreadyResident page)
  else .ok ()

/-- The page to evict: of those that are not pinned, the one that was used
longest ago. -/
def victim? (m : Memory) : Option Page :=
  (m.pages.values.filter (fun p => !p.isPinned)).minOn? Page.lastAccess

/-- The memory without the given page, whose content is discarded. -/
def evict (m : Memory) (victim : Page) : Memory :=
  { m with
    pages := m.pages.erase victim.number
    evictions := m.evictions + 1
    writebacks := m.writebacks + victim.isDirty.toNat }

/-- The memory with a fresh page of zeros, stamped by the next time. -/
def place (m : Memory) (page : PageNumber) (size : Nat) (zone : Zone) : Memory :=
  let now := m.clock + 1
  { m with
    clock := now
    pages := m.pages.insert page { number := page, zone, lastAccess := now, requested := size } }

/-- Makes a page of the given zone resident. If there is no room, the least
recently used page that is not pinned gives way. -/
def allocateIn (m : Memory) (page : PageNumber) (size : Nat) (zone : Zone) :
    Reply Memory (Except MemoryError Unit) :=
  match m.admits page size with
  | .error e => ⟨.error e, m, #[]⟩
  | .ok () =>
    if m.pages.size < m.capacity then
      ⟨.ok (), m.place page size zone, #[.pageAllocated page size zone]⟩
    else
      match m.victim? with
      | none => ⟨.error .outOfMemory, m, #[.allocationFailed page]⟩
      | some victim =>
        ⟨.ok (), (m.evict victim).place page size zone,
          #[.pageEvicted victim, .pageAllocated page size zone]⟩

/-- Makes a page of the user zone resident. -/
def allocate (m : Memory) (page : PageNumber) (size : Nat) :
    Reply Memory (Except MemoryError Unit) :=
  m.allocateIn page size .user

/-! ## Access to resident pages -/

/-- Continues with a resident page. An access to a page that is not resident is
a fault, and it is counted. -/
def withPage {α : Type} (m : Memory) (page : PageNumber)
    (access : Page → Reply Memory (Except MemoryError α)) : Reply Memory (Except MemoryError α) :=
  if !m.initialized then ⟨.error .notInitialized, m, #[]⟩
  else
    match m.pages.get? page with
    | none => ⟨.error (.pageFault page), { m with faults := m.faults + 1 }, #[]⟩
    | some p => access p

/-- Releases a resident page. -/
def free (m : Memory) (page : PageNumber) : Reply Memory (Except MemoryError Unit) :=
  m.withPage page fun _ => ⟨.ok (), { m with pages := m.pages.erase page }, #[]⟩

/-- Writes bytes into a resident page. -/
def write (m : Memory) (page : PageNumber) (offset : Nat) (bytes : List UInt8) :
    Reply Memory (Except MemoryError Unit) :=
  m.withPage page fun p =>
    match p.write offset bytes (m.clock + 1) with
    | .error e => ⟨.error e, m, #[]⟩
    | .ok p' => ⟨.ok (), { m with pages := m.pages.insert page p', clock := m.clock + 1 }, #[]⟩

/-- Reads bytes out of a resident page. -/
def read (m : Memory) (page : PageNumber) (offset length : Nat) :
    Reply Memory (Except MemoryError (List UInt8)) :=
  m.withPage page fun p =>
    match p.read offset length (m.clock + 1) with
    | .error e => ⟨.error e, m, #[]⟩
    | .ok (bytes, p') =>
      ⟨.ok bytes, { m with pages := m.pages.insert page p', clock := m.clock + 1 }, #[]⟩

/-- The bytes of a word, least significant first. -/
def wordBytes (value : UInt32) : List UInt8 := LittleEndian.bytes 4 value.toNat

/-- The word with the given bytes. -/
def wordOfBytes (bytes : List UInt8) : UInt32 := .ofNat (LittleEndian.ofBytes bytes)

/-- Writes a word into a resident page. -/
def writeWord (m : Memory) (page : PageNumber) (offset : Nat) (value : UInt32) :
    Reply Memory (Except MemoryError Unit) :=
  m.write page offset (wordBytes value)

/-- Reads a word out of a resident page. -/
def readWord (m : Memory) (page : PageNumber) (offset : Nat) :
    Reply Memory (Except MemoryError UInt32) :=
  (m.read page offset 4).map (Except.map wordOfBytes)

/-- Keeps a resident page from being evicted. -/
def pin (m : Memory) (page : PageNumber) : Reply Memory (Except MemoryError Unit) :=
  m.withPage page fun p => ⟨.ok (), { m with pages := m.pages.insert page p.pin }, #[]⟩

/-- Takes back a pin. Pages of the kernel zone stay pinned. -/
def unpin (m : Memory) (page : PageNumber) : Reply Memory (Except MemoryError Unit) :=
  m.withPage page fun p => ⟨.ok (), { m with pages := m.pages.insert page p.unpin }, #[]⟩

/-- Whether a resident page was written since it was allocated. -/
def isDirty (m : Memory) (page : PageNumber) : Reply Memory (Except MemoryError Bool) :=
  m.withPage page fun p => ⟨.ok p.isDirty, m, #[]⟩

/-! ## Questions that count as no access -/

/-- Whether a page is resident. -/
def isResident (m : Memory) (page : PageNumber) : Bool := m.pages.contains page

/-- The zone of a page, if it is resident. -/
def zoneOf? (m : Memory) (page : PageNumber) : Option Zone := (m.pages.get? page).map Page.zone

/-- The description of a page, if it is resident. -/
def info? (m : Memory) (page : PageNumber) : Option PageInfo := (m.pages.get? page).map Page.info

/-- The descriptions of the resident pages by number. -/
def listPages (m : Memory) : List PageInfo := m.pages.values.map Page.info

/-! ## What an access to a resident page comes to -/

section withPage

variable {α : Type} {m : Memory} {page : PageNumber}
  {access : Page → Reply Memory (Except MemoryError α)}

theorem withPage_of_not_initialized (h : m.initialized = false) :
    m.withPage page access = ⟨.error .notInitialized, m, #[]⟩ := by
  simp [withPage, h]

theorem withPage_of_absent (h : m.initialized = true) (hp : m.pages.get? page = none) :
    m.withPage page access =
      ⟨.error (.pageFault page), { m with faults := m.faults + 1 }, #[]⟩ := by
  simp [withPage, h, hp]

theorem withPage_of_resident {p : Page} (h : m.initialized = true)
    (hp : m.pages.get? page = some p) : m.withPage page access = access p := by
  simp [withPage, h, hp]

end withPage

end Memory

end Timeshare
