import Timeshare.Proofs.Memory.Performed
import Timeshare.Proofs.Table

/-!
# The bytes of a page by its history

What the memory answers to a read is determined by what was asked of it before.
`storedByte page i log` is the byte that the attempts in `log`, the latest first,
left at the offset `i` of a page: the one stored by the latest write that covers
the offset and succeeded, unless the page was allocated since, and zero if there is
no such write. `isWritten` is the same for the dirty flag. The memory never looks
at its history, so both are definitions of their own.

`Memory.Reflects` says that the resident pages show what the history asks for. It
is kept by every request (`Memory.Reflects.after`), so it holds after any history
of a new memory.
-/

namespace Timeshare

namespace Memory

/-- A request that was made, and whether it succeeded. -/
structure Attempt where
  request : MemoryRequest
  succeeded : Bool

/-- The attempts of a history, the latest first, in front of those made before. -/
def attempts (m : Memory) (before : List Attempt) : List MemoryRequest → List Attempt
  | [] => before
  | request :: rest =>
    (m.after request).attempts (⟨request, (m.perform request).result.isOk⟩ :: before) rest

/-- The byte that an attempt leaves at an offset of a page, if it decides it. -/
def Attempt.byte? (page : PageNumber) (i : Nat) (a : Attempt) : Option UInt8 :=
  if a.succeeded then
    match a.request.stores? with
    | some (target, offset, bytes) =>
      if target = page ∧ offset ≤ i then bytes[i - offset]? else none
    | none => if a.request.allocates? = some page then some 0 else none
  else none

/-- The dirty flag that an attempt leaves at a page, if it decides it. -/
def Attempt.dirty? (page : PageNumber) (a : Attempt) : Option Bool :=
  if a.succeeded then
    match a.request.stores? with
    | some (target, _, _) => if target = page then some true else none
    | none => if a.request.allocates? = some page then some false else none
  else none

/-- The byte at an offset of a page after the attempts, the latest first. -/
def storedByte (page : PageNumber) (i : Nat) (log : List Attempt) : UInt8 :=
  (log.findSome? (Attempt.byte? page i)).getD 0

/-- Whether a page was written since its allocation, by the attempts. -/
def isWritten (page : PageNumber) (log : List Attempt) : Bool :=
  (log.findSome? (Attempt.dirty? page)).getD false

variable {m : Memory} {log : List Attempt} {page : PageNumber} {p : Page}

theorem storedByte_cons (page : PageNumber) (i : Nat) (a : Attempt) (log : List Attempt) :
    storedByte page i (a :: log) = (a.byte? page i).getD (storedByte page i log) := by
  rw [storedByte, List.findSome?_cons]
  cases a.byte? page i <;> rfl

theorem isWritten_cons (page : PageNumber) (a : Attempt) (log : List Attempt) :
    isWritten page (a :: log) = (a.dirty? page).getD (isWritten page log) := by
  rw [isWritten, List.findSome?_cons]
  cases a.dirty? page <;> rfl

/-! ## What a page shows -/

/-- The page has the bytes and the dirty flag that the attempts ask for. -/
structure Shows (page : PageNumber) (log : List Attempt) (p : Page) : Prop where
  byte : ∀ i, i < pageSize → p.content[i]? = some (storedByte page i log)
  dirty : p.isDirty = isWritten page log

theorem Shows.congr {q : Page} (h : Shows page log p) (hcontent : q.content = p.content)
    (hdirty : q.isDirty = p.isDirty) : Shows page log q := by
  constructor
  · rw [hcontent]
    exact h.byte
  · rw [hdirty]
    exact h.dirty

/-- An attempt that neither writes to the page nor allocates it changes nothing
that the page has to show. -/
theorem Shows.cons (h : Shows page log p) {a : Attempt} (hbyte : ∀ i, a.byte? page i = none)
    (hdirty : a.dirty? page = none) : Shows page (a :: log) p := by
  constructor
  · intro i hi
    rw [storedByte_cons, hbyte]
    exact h.byte i hi
  · rw [isWritten_cons, hdirty]
    exact h.dirty

theorem Shows.failed (h : Shows page log p) (request : MemoryRequest) :
    Shows page (⟨request, false⟩ :: log) p :=
  h.cons (fun _ => rfl) rfl

/-- A request that neither stores nor allocates. -/
theorem Shows.other (h : Shows page log p) {request : MemoryRequest} (b : Bool)
    (hs : request.stores? = none) (ha : request.allocates? = none) :
    Shows page (⟨request, b⟩ :: log) p := by
  apply h.cons
  · intro i
    cases b <;> simp [Attempt.byte?, hs, ha]
  · cases b <;> simp [Attempt.dirty?, hs, ha]

theorem Shows.storedElsewhere (h : Shows page log p) {request : MemoryRequest}
    {target : PageNumber} {offset : Nat} {bytes : List UInt8}
    (hs : request.stores? = some (target, offset, bytes)) (hne : target ≠ page) :
    Shows page (⟨request, true⟩ :: log) p := by
  apply h.cons
  · intro i
    simp [Attempt.byte?, hs, hne]
  · simp [Attempt.dirty?, hs, hne]

theorem Shows.written (h : Shows page log p) {request : MemoryRequest} {offset : Nat}
    {bytes : List UInt8} (now : Nat) (hs : request.stores? = some (page, offset, bytes)) :
    Shows page (⟨request, true⟩ :: log) (p.written offset bytes now) := by
  constructor
  · intro i hi
    rw [storedByte_cons]
    simp only [Page.written, Page.getElem?_overlay p.content offset bytes i hi, h.byte i hi,
      Attempt.byte?, hs]
    by_cases hrange : offset ≤ i ∧ i < offset + bytes.length
    · have hlt : i - offset < bytes.length := by omega
      simp [hrange, hlt]
    · rw [if_neg hrange]
      by_cases ho : offset ≤ i
      · have hle : bytes.length ≤ i - offset := by omega
        simp [ho, hle]
      · simp [ho]
  · rw [isWritten_cons]
    simp [Page.written, Page.isDirty, PageFlags.union, Attempt.dirty?, hs]

theorem stores?_of_allocates? {request : MemoryRequest}
    (h : request.allocates? = some page) : request.stores? = none := by
  cases request <;> first | rfl | cases h

theorem Shows.allocatedElsewhere (h : Shows page log p) {request : MemoryRequest}
    {target : PageNumber} (ha : request.allocates? = some target) (hne : target ≠ page) :
    Shows page (⟨request, true⟩ :: log) p := by
  have hs := stores?_of_allocates? ha
  apply h.cons
  · intro i
    simp [Attempt.byte?, hs, ha, hne]
  · simp [Attempt.dirty?, hs, ha, hne]

/-- A fresh page is full of zeros, whatever the page held before. -/
theorem shows_allocated {request : MemoryRequest} (ha : request.allocates? = some page)
    (zone : Zone) (now size : Nat) :
    Shows page (⟨request, true⟩ :: log)
      { number := page, zone, lastAccess := now, requested := size } := by
  have hs := stores?_of_allocates? ha
  constructor
  · intro i hi
    rw [storedByte_cons]
    simp [Attempt.byte?, hs, ha, hi]
  · rw [isWritten_cons]
    simp [Attempt.dirty?, hs, ha, Page.isDirty]

/-! ## What a memory shows -/

/-- Every resident page has the bytes and the dirty flag that the attempts ask
for. -/
def Reflects (log : List Attempt) (m : Memory) : Prop :=
  ∀ page p, m.pages.get? page = some p → Shows page log p

theorem reflects_empty : Reflects [] empty := fun _ _ h => by
  cases h

theorem Reflects.failed (h : Reflects log m) (request : MemoryRequest) :
    Reflects (⟨request, false⟩ :: log) m :=
  fun page p hp => (h page p hp).failed request

/-- The record of one resident page is replaced by one that shows the longer
history; the other pages show it already. -/
theorem Reflects.insert {a : Attempt} {pages : Table Page} {target : PageNumber} {q : Page}
    (hq : Shows target (a :: log) q)
    (hother : ∀ page p, target ≠ page → pages.get? page = some p → Shows page (a :: log) p) :
    ∀ page p, (pages.insert target q).get? page = some p → Shows page (a :: log) p := by
  intro page p hp
  obtain ⟨rfl, rfl⟩ | ⟨hne, hp⟩ := Table.get?_insert_eq_some_iff.1 hp
  · exact hq
  · exact hother page p hne hp

theorem Reflects.placed (h : Reflects log m) {request : MemoryRequest} {target : PageNumber}
    (ha : request.allocates? = some target) (size : Nat) (zone : Zone) :
    Reflects (⟨request, true⟩ :: log) (m.place target size zone) :=
  Reflects.insert (shows_allocated ha zone _ size)
    fun page p hne hp => (h page p hp).allocatedElsewhere ha hne

theorem Reflects.erase (h : Reflects log m) (page : PageNumber) :
    Reflects log { m with pages := m.pages.erase page } := by
  intro other p hp
  exact h other p (Table.get?_erase_eq_some_iff.1 hp).2

theorem Reflects.stored (h : Reflects log m) {request : MemoryRequest} {target : PageNumber}
    {offset : Nat} {bytes : List UInt8} (hs : request.stores? = some (target, offset, bytes))
    (hp : m.pages.get? target = some p) (now : Nat) :
    Reflects (⟨request, true⟩ :: log) (m.accessed target (p.written offset bytes now)) :=
  Reflects.insert ((h target p hp).written now hs)
    fun page q hne hq => (h page q hq).storedElsewhere hs hne

/-- A request that neither stores nor allocates may replace the record of a page by
one with the same bytes and the same dirty flag. -/
theorem Reflects.marked (h : Reflects log m) {request : MemoryRequest} {target : PageNumber}
    {q : Page} (hs : request.stores? = none) (ha : request.allocates? = none)
    (hp : m.pages.get? target = some p) (hcontent : q.content = p.content)
    (hdirty : q.isDirty = p.isDirty) :
    ∀ page r, (m.pages.insert target q).get? page = some r →
      Shows page (⟨request, true⟩ :: log) r :=
  Reflects.insert (((h target p hp).congr hcontent hdirty).other true hs ha)
    fun page r _ hr => (h page r hr).other true hs ha

theorem stores?_of_reads? {request : MemoryRequest} {range : PageNumber × Nat × Nat}
    (h : request.reads? = some range) : request.stores? = none ∧ request.allocates? = none := by
  cases request <;> first | exact ⟨rfl, rfl⟩ | cases h

theorem stores?_of_isQuery {request : MemoryRequest} (h : request.isQuery = true) :
    request.stores? = none ∧ request.allocates? = none := by
  cases request <;> first | exact ⟨rfl, rfl⟩ | cases h

/-- One request keeps the memory in agreement with the history. -/
theorem Reflects.after (h : Reflects log m) (request : MemoryRequest) :
    Reflects (⟨request, (m.perform request).result.isOk⟩ :: log) (m.after request) := by
  have hstep := performed_perform m request
  generalize (m.perform request).result = result at hstep ⊢
  generalize m.after request = m' at hstep ⊢
  cases hstep with
  | refused he => exact h.failed request
  | faulted hi hp => exact h.failed request
  | reset hbytes hframes => exact fun page p hp => by cases hp
  | placed ha hadmits hroom => exact h.placed ha _ _
  | @replaced _ page size zone victim ha hadmits hfull hv =>
      exact (h.erase victim.number).placed ha size zone
  | @freed page p hi hp => exact fun other q hq => (h.erase page other q hq).other true rfl rfl
  | stored hs hi hp hfits => exact h.stored hs hp _
  | loaded hr hi hp hfits =>
      obtain ⟨hs, ha⟩ := stores?_of_reads? hr
      exact h.marked hs ha hp rfl rfl
  | @pinned _ p hi hp => exact h.marked rfl rfl hp rfl (Page.isDirty_pin p)
  | @unpinned _ p hi hp => exact h.marked rfl rfl hp rfl (Page.isDirty_unpin p)
  | observed hq =>
      obtain ⟨hs, ha⟩ := stores?_of_isQuery hq
      exact fun page p hp => (h page p hp).other true hs ha

theorem Reflects.afterAll (h : Reflects log m) (requests : List MemoryRequest) :
    Reflects (m.attempts log requests) (m.afterAll requests) := by
  induction requests generalizing m log with
  | nil => exact h
  | cons request rest ih => exact ih (h.after request)

end Memory

end Timeshare
