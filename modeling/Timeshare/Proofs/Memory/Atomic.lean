import Timeshare.Proofs.Memory.ByteMap
import Timeshare.Proofs.Memory.Conservation

/-!
# Requests that fail

A request does all that it is asked for or nothing: a failure leaves the pages, the
clock, the limits and the counters as they are (`Memory.failures_are_atomic`). Its only
trace is the fault that is counted for an access to a page that is not resident, and no
success but that of a reset changes this count. `MemoryRequest.requires?` is the page
that a request cannot do without, so it is known beforehand which requests are counted
(`Memory.perform_eq_pageFault_iff`).
-/

namespace Timeshare

/-- The page that has to be resident for the request to succeed. -/
def MemoryRequest.requires? : MemoryRequest → Option PageNumber
  | .free page | .write page _ _ | .writeWord page _ _ | .read page _ _ | .readWord page _
  | .pin page | .unpin page | .isDirty page => some page
  | _ => none

/-- The error of a page that is not resident. -/
def MemoryError.isPageFault : MemoryError → Bool
  | .pageFault _ => true
  | _ => false

namespace Memory

variable {m : Memory} {request : MemoryRequest} {value : MemoryValue} {e : MemoryError}
  {page : PageNumber}

/-! ## Page faults -/

/-- If a resident page is never refused as absent, an access is a page fault exactly if the
memory is set up and the page is not resident. -/
theorem withPage_eq_pageFault_iff {α : Type} {target : PageNumber}
    {access : Page → Reply Memory (Except MemoryError α)} {f : α → MemoryValue}
    (h : ∀ p, (access p).result ≠ .error (.pageFault page)) :
    (m.withPage target access).result.map f = .error (.pageFault page) ↔
      m.initialized = true ∧ some target = some page ∧ m.isResident page = false := by
  rw [isResident_eq_false_iff]
  obtain ⟨hi, heq⟩ | ⟨hi, habsent, heq⟩ | ⟨p, hi, hp, heq⟩ := withPage_cases m target access
  · simp [heq, hi, Except.map]
  · rw [heq]
    simp only [Except.map, Except.error.injEq, MemoryError.pageFault.injEq, hi, true_and,
      Option.some.injEq]
    constructor
    · rintro rfl
      exact ⟨rfl, habsent⟩
    · exact fun hfault => hfault.1
  · rw [heq]
    constructor
    · intro hfault
      cases hresult : (access p).result with
      | error e =>
          rw [hresult] at hfault
          cases hfault
          exact absurd hresult (h p)
      | ok a =>
          rw [hresult] at hfault
          cases hfault
    · rintro ⟨-, htarget, habsent⟩
      cases htarget
      rw [hp] at habsent
      cases habsent

theorem write_eq_pageFault_iff (m : Memory) (target : PageNumber) (offset : Nat)
    (bytes : List UInt8) (f : Unit → MemoryValue) :
    (m.write target offset bytes).result.map f = .error (.pageFault page) ↔
      m.initialized = true ∧ some target = some page ∧ m.isResident page = false := by
  apply withPage_eq_pageFault_iff
  intro p
  by_cases hfits : offset + bytes.length ≤ pageSize
  · simp [Page.write_of_fits hfits]
  · simp [Page.write_of_not_fits hfits]

theorem read_eq_pageFault_iff (m : Memory) (target : PageNumber) (offset length : Nat)
    (f : List UInt8 → MemoryValue) :
    (m.read target offset length).result.map f = .error (.pageFault page) ↔
      m.initialized = true ∧ some target = some page ∧ m.isResident page = false := by
  apply withPage_eq_pageFault_iff
  intro p
  by_cases hfits : offset + length ≤ pageSize
  · simp [Page.read_of_fits hfits]
  · simp [Page.read_of_not_fits hfits]

theorem allocateIn_ne_pageFault (m : Memory) (target : PageNumber) (size : Nat) (zone : Zone) :
    (m.allocateIn target size zone).result ≠ .error (.pageFault page) := by
  rw [allocateIn]
  cases ha : m.admits target size with
  | error e =>
      intro h
      cases h
      exact admits_ne_pageFault ha rfl
  | ok _ =>
      by_cases hroom : m.pages.size < m.capacity
      · simp [hroom]
      · cases m.victim? <;> simp [hroom]

theorem reset_ne_pageFault (m : Memory) (bytes : Nat) (frames : Option Nat) :
    (m.reset bytes frames).result ≠ .error (.pageFault page) := by
  rw [reset]
  split
  · simp
  · split <;> simp

theorem map_ne_error {α : Type} {result : Except MemoryError α} (h : result ≠ .error e)
    (f : α → MemoryValue) : result.map f ≠ .error e := by
  cases result with
  | ok a => exact nofun
  | error e' =>
      intro he
      cases he
      exact h rfl

/-- The requests that are counted as faults are those that cannot do without a page which is
not resident. -/
theorem perform_eq_pageFault_iff (m : Memory) (request : MemoryRequest) (page : PageNumber) :
    (m.perform request).result = .error (.pageFault page) ↔
      m.initialized = true ∧ request.requires? = some page ∧ m.isResident page = false := by
  cases request with
  | free | pin | unpin | isDirty => exact withPage_eq_pageFault_iff fun p => by simp
  | write target offset bytes => exact write_eq_pageFault_iff m target offset bytes _
  | writeWord target offset value => exact write_eq_pageFault_iff m target offset _ _
  | read target offset length => exact read_eq_pageFault_iff m target offset length _
  | readWord target offset =>
      simp only [perform, readWord, Reply.result_map, MemoryRequest.requires?]
      rw [← read_eq_pageFault_iff m target offset 4 (.word ∘ wordOfBytes)]
      cases (m.read target offset 4).result <;> rfl
  | reset bytes frames =>
      refine iff_of_false (map_ne_error (m.reset_ne_pageFault bytes frames) _) ?_
      simp [MemoryRequest.requires?]
  | allocate target size =>
      refine iff_of_false (map_ne_error (m.allocateIn_ne_pageFault target size .user) _) ?_
      simp [MemoryRequest.requires?]
  | allocateIn target size zone =>
      refine iff_of_false (map_ne_error (m.allocateIn_ne_pageFault target size zone) _) ?_
      simp [MemoryRequest.requires?]
  | isInitialized | isResident | zoneOf | info | listPages | usage =>
      simp [perform, MemoryRequest.requires?]

/-! ## Failures -/

/-- An access that is refused by the resident page itself. -/
theorem state_withPage_of_refused {α : Type} {access : Page → Reply Memory (Except MemoryError α)}
    (hresident : m.isResident page = true) (h : ∀ p, (access p).state = m) :
    (m.withPage page access).state = m := by
  obtain ⟨-, heq⟩ | ⟨-, habsent, -⟩ | ⟨p, -, -, heq⟩ := withPage_cases m page access
  · rw [heq]
  · rw [isResident_eq_false_iff.2 habsent] at hresident
    cases hresident
  · rw [heq]
    exact h p

/-- No success but that of a reset changes the count of the faults. -/
theorem faults_after_of_ok (h : (m.perform request).result = .ok value)
    (hreset : request.isReset = false) : (m.after request).faults = m.faults := by
  have hstep := performed_perform m request
  rw [h] at hstep
  generalize m.after request = m' at hstep ⊢
  cases hstep with
  | reset => cases hreset
  | _ => rfl

/-- A request that fails leaves the memory as it was, unless it is counted as a fault. -/
theorem after_of_refused (h : (m.perform request).result = .error e)
    (he : e.isPageFault = false) : m.after request = m := by
  rw [after_of_error h, MemoryError.faultCount_eq_zero]
  · rfl
  · rintro page rfl
    cases he

/-- Failing requests are atomic. A request that is refused leaves the memory as it was. An
access to a page that is not resident, and nothing else, is a page fault; it adds one to the
count of the faults and changes nothing else. No success but that of a reset changes this
count. So an allocation that finds no room evicts nothing, a reset that is refused keeps the
old address space, and an access that runs over the end of a resident page neither writes nor
touches it and takes no time. -/
theorem failures_are_atomic (m : Memory) (request : MemoryRequest) :
    (∀ e, (m.perform request).result = .error e → e.isPageFault = false →
      m.after request = m) ∧
    (∀ page, (m.perform request).result = .error (.pageFault page) →
      m.after request = { m with faults := m.faults + 1 }) ∧
    (∀ page, (m.perform request).result = .error (.pageFault page) ↔
      m.initialized = true ∧ request.requires? = some page ∧ m.isResident page = false) ∧
    (∀ value, (m.perform request).result = .ok value → request.isReset = false →
      (m.after request).faults = m.faults) ∧
    (∀ page size zone, (m.allocateIn page size zone).result = .error .outOfMemory →
      (m.allocateIn page size zone).state = m) ∧
    (∀ bytes frames e, (m.reset bytes frames).result = .error e →
      (m.reset bytes frames).state = m) ∧
    (∀ page offset length, m.isResident page = true → pageSize < offset + length →
      (m.read page offset length).state = m ∧
      ∀ bytes : List UInt8, bytes.length = length → (m.write page offset bytes).state = m) := by
  refine ⟨fun e => after_of_refused, fun page => after_of_error, perform_eq_pageFault_iff m request,
    fun value => faults_after_of_ok, ?_, ?_, ?_⟩
  · intro page size zone h
    have herror : (m.perform (.allocateIn page size zone)).result = .error .outOfMemory :=
      congrArg (Except.map _) h
    exact after_of_refused herror rfl
  · intro bytes frames e h
    have herror : (m.perform (.reset bytes frames)).result = .error e :=
      congrArg (Except.map _) h
    refine after_of_refused herror ?_
    cases e with
    | pageFault page => exact absurd h (reset_ne_pageFault m bytes frames)
    | _ => rfl
  · intro page offset length hresident hover
    have hfits := Nat.not_le.2 hover
    constructor
    · refine state_withPage_of_refused hresident fun p => ?_
      rw [Page.read_of_not_fits hfits]
    · rintro bytes rfl
      refine state_withPage_of_refused hresident fun p => ?_
      rw [Page.write_of_not_fits hfits]

end Memory

end Timeshare
