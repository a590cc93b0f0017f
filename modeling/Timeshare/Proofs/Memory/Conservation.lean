import Timeshare.Proofs.Memory.Eviction

/-!
# Every allocated page is accounted for

A page that was allocated stays resident until it is evicted or freed. `Memory.records`
is the history of a memory with the answer to every request and the pages that left to
make room, and the tallies count in it what happened since the latest reset: allocations,
frees, evictions, evictions of pages that had been written, and faults. The memory looks
at none of this. It keeps its pages within its bounds (`Memory.Bounded`) and its counters
equal to the tallies (`Memory.Counted`) with every request, so both hold after any history
of a new memory (`Memory.pages_conserved`).
-/

namespace Timeshare

namespace MemoryRequest

/-- Whether the request asks for a fresh address space. -/
def isReset : MemoryRequest → Bool
  | .reset _ _ => true
  | _ => false

/-- Whether the request releases a page. -/
def isFree : MemoryRequest → Bool
  | .free _ => true
  | _ => false

/-- Whether the request can change which pages are resident. -/
def moves (request : MemoryRequest) : Bool :=
  request.isReset || request.allocates?.isSome || request.isFree

variable {request : MemoryRequest} {page : PageNumber}

theorem isReset_of_allocates? (h : request.allocates? = some page) :
    request.isReset = false ∧ request.isFree = false := by
  cases request <;> first | exact ⟨rfl, rfl⟩ | cases h

theorem moves_of_stores? {write : PageNumber × Nat × List UInt8}
    (h : request.stores? = some write) : request.moves = false := by
  cases request <;> first | rfl | cases h

theorem moves_of_reads? {range : PageNumber × Nat × Nat} (h : request.reads? = some range) :
    request.moves = false := by
  cases request <;> first | rfl | cases h

theorem moves_of_isQuery (h : request.isQuery = true) : request.moves = false := by
  cases request <;> first | rfl | cases h

end MemoryRequest

namespace Memory

/-! ## Tallies of a history -/

/-- A request that was made, the answer to it, and the pages that left to make room. -/
structure Record where
  request : MemoryRequest
  result : Except MemoryError MemoryValue
  evicted : List PageNumber

namespace Record

/-- The request and whether it succeeded. -/
def attempt (r : Record) : Attempt := ⟨r.request, r.result.isOk⟩

/-- Whether the address space was set up afresh. -/
def isReset (r : Record) : Bool := r.result.isOk && r.request.isReset

/-- Whether a page was made resident. -/
def isAllocation (r : Record) : Bool := r.result.isOk && r.request.allocates?.isSome

/-- Whether a page was released. -/
def isFree (r : Record) : Bool := r.result.isOk && r.request.isFree

/-- The faults that the answer reports. -/
def faultCount (r : Record) : Nat :=
  match r.result with
  | .error e => e.faultCount
  | .ok _ => 0

section ok

variable {request : MemoryRequest} {value : MemoryValue} {evicted : List PageNumber}

@[simp] theorem isReset_ok : isReset ⟨request, .ok value, evicted⟩ = request.isReset := rfl

@[simp] theorem isAllocation_ok :
    isAllocation ⟨request, .ok value, evicted⟩ = request.allocates?.isSome := rfl

@[simp] theorem isFree_ok : isFree ⟨request, .ok value, evicted⟩ = request.isFree := rfl

end ok

end Record

/-- The pages that a request evicts. -/
def evictedBy (m : Memory) (request : MemoryRequest) : List PageNumber :=
  if request.allocates?.isSome then
    m.pages.keys.filter fun v => !(m.after request).isResident v
  else []

/-- The record of a request. -/
def record (m : Memory) (request : MemoryRequest) : Record :=
  ⟨request, (m.perform request).result, m.evictedBy request⟩

/-- The records of a history, the latest first, in front of those made before. -/
def records (m : Memory) (before : List Record) : List MemoryRequest → List Record
  | [] => before
  | request :: rest => (m.after request).records (m.record request :: before) rest

/-- The sum of a quantity over the records since the latest reset, where the records made
before are given with each. -/
def tally (f : Record → List Record → Nat) : List Record → Nat
  | [] => 0
  | r :: log => if r.isReset then 0 else f r log + tally f log

/-- The successful allocations since the latest reset. -/
def countAllocations : List Record → Nat := tally fun r _ => r.isAllocation.toNat

/-- The successful requests to free since the latest reset. -/
def countFrees : List Record → Nat := tally fun r _ => r.isFree.toNat

/-- The pages evicted since the latest reset. -/
def countEvictions : List Record → Nat := tally fun r _ => r.evicted.length

/-- The pages evicted since the latest reset that had been written since they were
allocated. -/
def countWrittenEvictions : List Record → Nat :=
  tally fun r log => r.evicted.countP fun v => isWritten v (log.map Record.attempt)

/-- The answers since the latest reset that reported a fault. -/
def countFaults : List Record → Nat := tally fun r _ => r.faultCount

variable {m m' : Memory} {log : List Record} {attempts : List Attempt} {request : MemoryRequest}
  {page v : PageNumber} {p q : Page} {size : Nat} {zone : Zone}
  {result : Except MemoryError MemoryValue}

theorem tally_of_resets {f : Record → List Record → Nat} {r : Record} (h : r.isReset = true) :
    tally f (r :: log) = 0 :=
  if_pos h

theorem tally_of_not_resets {f : Record → List Record → Nat} {r : Record}
    (h : r.isReset = false) : tally f (r :: log) = f r log + tally f log := by
  rw [tally, h]
  rfl

theorem tally_le_tally {f g : Record → List Record → Nat} (h : ∀ r log, f r log ≤ g r log)
    (log : List Record) : tally f log ≤ tally g log := by
  induction log with
  | nil => exact Nat.le_refl 0
  | cons r log ih =>
      rw [tally, tally]
      split
      · exact Nat.le_refl 0
      · exact Nat.add_le_add (h r log) ih

/-- No more written pages than pages are evicted. -/
theorem countWrittenEvictions_le (log : List Record) :
    countWrittenEvictions log ≤ countEvictions log :=
  tally_le_tally (fun _ _ => List.countP_le_length) log

/-! ## The pages that are evicted -/

theorem mem_evictedBy_iff : v ∈ m.evictedBy request ↔ m.Evicts request v := by
  rw [evictedBy, Evicts, ← Option.isSome_iff_exists]
  split
  next ha =>
    rw [List.mem_filter, Bool.not_eq_true', ha]
    have hkey : v ∈ m.pages.keys ↔ m.isResident v = true := by
      rw [isResident, Table.contains_iff, Table.keys, List.mem_map]
      simp only [Prod.exists, Table.mem_entries_iff, exists_and_right, exists_eq_right]
    simp [hkey]
  next ha => simp [ha]

theorem nodup_evictedBy (m : Memory) (request : MemoryRequest) :
    (m.evictedBy request).Nodup := by
  rw [evictedBy]
  split
  · have hkeys : m.pages.keys.Nodup :=
      List.pairwise_map.2 (m.pages.ascending.imp Nat.ne_of_lt)
    exact hkeys.filter _
  · exact List.nodup_nil

/-- A request that leaves the count of the evictions evicts nothing. -/
theorem evictedBy_eq_nil (h : (m.after request).evictions ≠ m.evictions + 1) :
    m.evictedBy request = [] := by
  rw [List.eq_nil_iff_forall_not_mem]
  intro v hv
  obtain ⟨-, page, size, zone, victim, -, -, heq⟩ := (mem_evictedBy_iff.1 hv).cases
  exact h (congrArg Memory.evictions heq)

/-- A request evicts one page at most. -/
theorem evictedBy_eq_singleton (h : m.Evicts request v) : m.evictedBy request = [v] := by
  rw [← List.perm_singleton, List.perm_ext_iff_of_nodup (m.nodup_evictedBy request)
    (List.pairwise_singleton _ v)]
  intro w
  rw [mem_evictedBy_iff, List.mem_singleton]
  constructor
  · intro hw
    obtain ⟨-, -, -, -, victim, hv, rfl, -⟩ := h.cases
    obtain ⟨-, -, -, -, other, hother, rfl, -⟩ := hw.cases
    rw [hv] at hother
    cases hother
    rfl
  · rintro rfl
    exact h

/-! ## Bounds -/

/-- The resident pages keep within the bounds of the memory. -/
structure Bounded (m : Memory) : Prop where
  size_le : m.pages.size ≤ m.capacity
  capacity_le : m.capacity ≤ m.totalPages
  capacity_pos : m.initialized = true → 1 ≤ m.capacity
  pages_eq : m.initialized = false → m.pages = {}
  lt_totalPages : ∀ page p, m.pages.get? page = some p → page < m.totalPages

theorem bounded_empty : empty.Bounded where
  size_le := Nat.le_refl 0
  capacity_le := Nat.le_refl 0
  capacity_pos := nofun
  pages_eq _ := rfl
  lt_totalPages _ _ := nofun

/-- Other pages in the same address space, with other counters. -/
theorem Bounded.withPages (h : m.Bounded) (ready : m.initialized = true) {pages : Table Page}
    (hsize : pages.size ≤ m.capacity)
    (hlt : ∀ page p, pages.get? page = some p → page < m.totalPages)
    (clock evictions writebacks : Nat) :
    Bounded { m with pages, clock, evictions, writebacks } where
  size_le := hsize
  capacity_le := h.capacity_le
  capacity_pos := h.capacity_pos
  pages_eq hinit := nomatch ready.symm.trans hinit
  lt_totalPages := hlt

theorem Bounded.replace (h : m.Bounded) (ready : m.initialized = true)
    (hp : m.pages.get? page = some p) (q : Page) (clock : Nat) :
    Bounded { m with pages := m.pages.insert page q, clock } :=
  h.withPages ready (Nat.le_trans (Nat.le_of_eq (Table.size_insert_of_get? hp q)) h.size_le)
    (Table.forall_get?_insert h.lt_totalPages (h.lt_totalPages page p hp)) clock _ _

theorem one_le_pagesFor {bytes : Nat} (h : bytes ≠ 0) : 1 ≤ pagesFor bytes := by
  rw [pagesFor, pageSize]
  omega

/-- An eviction and the allocation for which it made room keep the number of pages. -/
theorem size_place_evict (hadmits : m.admits page size = .ok ())
    (hresident : m.pages.get? q.number = some q) :
    ((m.evict q).place page size zone).pages.size = m.pages.size := by
  have habsent : (m.evict q).pages.get? page = none := by
    rw [evict, Table.get?_erase, get?_of_admits hadmits, ite_self]
  rw [place, Table.size_insert_of_absent habsent, Table.size_of_get? hresident]
  rfl

/-- Every request keeps the bounds. -/
theorem Bounded.after (h : m.Bounded) (hs : Stamped attempts m) (request : MemoryRequest) :
    (m.after request).Bounded := by
  have hstep := performed_perform m request
  generalize (m.perform request).result = result at hstep
  generalize m.after request = m' at hstep ⊢
  cases hstep with
  | refused he => exact h
  | faulted hi hp =>
      exact ⟨h.size_le, h.capacity_le, h.capacity_pos, h.pages_eq, h.lt_totalPages⟩
  | @reset bytes frames hbytes hframes =>
      have hpos := one_le_pagesFor hbytes
      refine ⟨Nat.zero_le _, ?_, fun _ => ?_, nofun, fun _ _ => nofun⟩
      · cases frames with
        | none => exact Nat.le_refl _
        | some n => exact Nat.min_le_right ..
      · cases frames with
        | none => exact hpos
        | some n =>
            have hn : n ≠ 0 := fun hzero => hframes (congrArg some hzero)
            exact Nat.le_min.2 ⟨Nat.one_le_iff_ne_zero.2 hn, hpos⟩
  | @placed _ page size zone ha hadmits hroom =>
      obtain ⟨hi, -, hlt, habsent⟩ := admits_eq_ok_iff.1 hadmits
      refine h.withPages hi ?_ (Table.forall_get?_insert h.lt_totalPages hlt) _ _ _
      rw [Table.size_insert_of_absent habsent]
      exact hroom
  | @replaced _ page size zone victim ha hadmits hfull hv =>
      obtain ⟨hi, -, hlt, -⟩ := admits_eq_ok_iff.1 hadmits
      have hresident := (hs.oldest_of_victim? hv).resident
      refine h.withPages hi ?_ (Table.forall_get?_insert ?_ hlt) _ _ _
      · exact Nat.le_trans (Nat.le_of_eq (size_place_evict hadmits hresident)) h.size_le
      · exact fun page p hp => h.lt_totalPages page p (Table.get?_erase_eq_some_iff.1 hp).2
  | @freed page p hi hp =>
      have hsize := Table.size_of_get? hp
      have hle := h.size_le
      exact h.withPages hi (by omega)
        (fun page p hp => h.lt_totalPages page p (Table.get?_erase_eq_some_iff.1 hp).2) _ _ _
  | stored hs hi hp hfits => exact h.replace hi hp _ _
  | loaded hr hi hp hfits => exact h.replace hi hp _ _
  | pinned hi hp | unpinned hi hp => exact h.replace hi hp _ _
  | observed hq => exact h

/-! ## Counts -/

/-- The pages and the counters of the memory are those of the history. -/
structure Counted (log : List Record) (m : Memory) : Prop where
  allocations : countAllocations log = m.pages.size + m.evictions + countFrees log
  evictions : m.evictions = countEvictions log
  writebacks : m.writebacks = countWrittenEvictions log
  faults : m.faults = countFaults log

theorem counted_empty : Counted [] empty := ⟨rfl, rfl, rfl, rfl⟩

theorem counted_of_resets {r : Record} (hr : r.isReset = true) (hpages : m.pages = {})
    (hevictions : m.evictions = 0) (hwritebacks : m.writebacks = 0) (hfaults : m.faults = 0) :
    Counted (r :: log) m := by
  have hzero : ∀ {f}, tally f (r :: log) = 0 := tally_of_resets hr
  refine ⟨?_, ?_, ?_, ?_⟩
  · rw [countAllocations, countFrees, hzero, hzero, hpages, hevictions]
    rfl
  · rw [countEvictions, hzero, hevictions]
  · rw [countWrittenEvictions, hzero, hwritebacks]
  · rw [countFaults, hzero, hfaults]

/-- What a record that is no reset has to add up to. -/
theorem Counted.step (h : Counted log m) {r : Record} (hr : r.isReset = false)
    (hallocations : r.isAllocation.toNat + m.pages.size + m.evictions =
      m'.pages.size + m'.evictions + r.isFree.toNat)
    (hevictions : m'.evictions = m.evictions + r.evicted.length)
    (hwritebacks : m'.writebacks =
      m.writebacks + r.evicted.countP fun v => isWritten v (log.map Record.attempt))
    (hfaults : m'.faults = m.faults + r.faultCount) : Counted (r :: log) m' := by
  have hcons : ∀ {f}, tally f (r :: log) = f r log + tally f log := tally_of_not_resets hr
  refine ⟨?_, ?_, ?_, ?_⟩
  · have hbefore := h.allocations
    rw [countAllocations, countFrees] at hbefore ⊢
    rw [hcons, hcons]
    omega
  · rw [countEvictions, hcons, ← countEvictions, hevictions, h.evictions, Nat.add_comm]
  · rw [countWrittenEvictions, hcons, ← countWrittenEvictions, hwritebacks, h.writebacks, Nat.add_comm]
  · rw [countFaults, hcons, ← countFaults, hfaults, h.faults, Nat.add_comm]

/-- A request by which no page comes or goes. -/
theorem Counted.same (h : Counted log m) {r : Record}
    (hmoves : r.result.isOk = true → r.request.moves = false) (hevicted : r.evicted = [])
    (hsize : m'.pages.size = m.pages.size) (hevictions : m'.evictions = m.evictions)
    (hwritebacks : m'.writebacks = m.writebacks)
    (hfaults : m'.faults = m.faults + r.faultCount) : Counted (r :: log) m' := by
  have hkinds : r.isReset = false ∧ r.isAllocation = false ∧ r.isFree = false := by
    simp only [Record.isReset, Record.isAllocation, Record.isFree]
    cases hok : r.result.isOk with
    | false => exact ⟨rfl, rfl, rfl⟩
    | true =>
        have hfalse := hmoves hok
        simpa [MemoryRequest.moves, and_assoc] using hfalse
  obtain ⟨hr, ha, hf⟩ := hkinds
  refine h.step hr ?_ ?_ ?_ hfaults
  · rw [ha, hf, hsize, hevictions]
    exact Nat.add_right_cancel_iff.2 (Nat.zero_add _)
  · rw [hevicted, hevictions]
    rfl
  · rw [hevicted, hwritebacks]
    rfl

/-- Every request adds to the counters what its record adds to the tallies. -/
theorem Counted.after (h : Counted log m) (hs : Stamped attempts m)
    (hd : Reflects (log.map Record.attempt) m) (request : MemoryRequest) :
    Counted (m.record request :: log) (m.after request) := by
  have hstep := performed_perform m request
  have hnil : (m.after request).evictions ≠ m.evictions + 1 → m.evictedBy request = [] :=
    evictedBy_eq_nil
  have hkept : m.evictions ≠ m.evictions + 1 := (Nat.succ_ne_self _).symm
  rw [record]
  generalize (m.perform request).result = result at hstep ⊢
  generalize hafter : m.after request = m' at hstep hnil ⊢
  cases hstep with
  | @refused _ e he =>
      exact h.same nofun (hnil hkept) rfl rfl rfl
        (congrArg (m.faults + ·) (MemoryError.faultCount_eq_zero he).symm)
  | faulted hi hp => exact h.same nofun (hnil hkept) rfl rfl rfl rfl
  | reset hbytes hframes => exact counted_of_resets rfl rfl rfl rfl rfl
  | @placed _ page size zone ha hadmits hroom =>
      obtain ⟨hreset, hfree⟩ := MemoryRequest.isReset_of_allocates? ha
      have hsize := Table.size_insert_of_absent (get?_of_admits hadmits)
      refine h.step ?_ ?_ ?_ ?_ rfl
      · rw [Record.isReset_ok, hreset]
      · rw [Record.isAllocation_ok, Record.isFree_ok, ha, hfree]
        simp only [place, hsize]
        change 1 + m.pages.size + m.evictions = m.pages.size + 1 + m.evictions + 0
        omega
      · rw [hnil hkept]
        rfl
      · rw [hnil hkept]
        rfl
  | @replaced _ page size zone victim ha hadmits hfull hv =>
      obtain ⟨hreset, hfree⟩ := MemoryRequest.isReset_of_allocates? ha
      have hresident := (hs.oldest_of_victim? hv).resident
      have hevicted := evictedBy_eq_singleton (hs.evicts ha hadmits hv hafter)
      have hsize : ((m.evict victim).place page size zone).pages.size = m.pages.size :=
        size_place_evict hadmits hresident
      refine h.step ?_ ?_ ?_ ?_ rfl
      · rw [Record.isReset_ok, hreset]
      · rw [Record.isAllocation_ok, Record.isFree_ok, ha, hfree, hsize]
        change 1 + m.pages.size + m.evictions = m.pages.size + (m.evictions + 1) + 0
        omega
      · rw [hevicted]
        rfl
      · rw [hevicted, List.countP_singleton, ← (hd _ _ hresident).dirty]
        cases hdirty : victim.isDirty <;> simp [place, evict, hdirty]
  | @freed page p hi hp =>
      have hsize := Table.size_of_get? hp
      refine h.step rfl ?_ ?_ ?_ rfl
      · rw [Record.isAllocation_ok, Record.isFree_ok, hsize]
        change 0 + ((m.pages.erase page).size + 1) + m.evictions =
          (m.pages.erase page).size + m.evictions + 1
        omega
      · rw [hnil hkept]
        rfl
      · rw [hnil hkept]
        rfl
  | stored hr hi hp hfits =>
      exact h.same (fun _ => MemoryRequest.moves_of_stores? hr) (hnil hkept)
        (Table.size_insert_of_get? hp _) rfl rfl rfl
  | loaded hr hi hp hfits =>
      exact h.same (fun _ => MemoryRequest.moves_of_reads? hr) (hnil hkept)
        (Table.size_insert_of_get? hp _) rfl rfl rfl
  | pinned hi hp | unpinned hi hp =>
      exact h.same (fun _ => rfl) (hnil hkept) (Table.size_insert_of_get? hp _) rfl rfl rfl
  | observed hq =>
      exact h.same (fun _ => MemoryRequest.moves_of_isQuery hq) (hnil hkept) rfl rfl rfl rfl

/-- What holds of a memory with its history, along the history. -/
structure Conserved (log : List Record) (m : Memory) : Prop where
  bounded : m.Bounded
  counted : Counted log m
  stamped : Stamped (log.map Record.attempt) m
  reflects : Reflects (log.map Record.attempt) m

theorem conserved_empty : Conserved [] empty :=
  ⟨bounded_empty, counted_empty, stamped_of_pages_empty rfl, reflects_empty⟩

theorem Conserved.afterAll (h : Conserved log m) (requests : List MemoryRequest) :
    Conserved (m.records log requests) (m.afterAll requests) := by
  induction requests generalizing m log with
  | nil => exact h
  | cons request rest ih =>
      exact ih ⟨h.bounded.after h.stamped request, h.counted.after h.stamped h.reflects request,
        h.stamped.after request, h.reflects.after request⟩

/-! ## The summary -/

/-- Every page belongs to one zone. -/
theorem countP_zones (pages : List Page) :
    pages.countP (·.zone == .kernel) + pages.countP (·.zone == .user) +
      pages.countP (·.zone == .device) = pages.length := by
  induction pages with
  | nil => rfl
  | cons p pages ih =>
      simp only [List.countP_cons, List.length_cons]
      cases p.zone <;> simp <;> omega

theorem zones_usage (m : Memory) :
    m.usage.kernelPages + m.usage.userPages + m.usage.devicePages = m.usage.resident := by
  have hlength : m.pages.values.length = m.pages.size := List.length_map _
  exact (countP_zones m.pages.values).trans hlength

theorem usagePercent_le {resident capacity : Nat} (h : resident ≤ capacity) :
    usagePercent resident capacity ≤ 100 := by
  rw [usagePercent]
  split
  · exact Nat.zero_le _
  · calc resident * 100 % UInt64.size / capacity % UInt32.size
        ≤ resident * 100 % UInt64.size / capacity := Nat.mod_le ..
      _ ≤ resident * 100 / capacity := Nat.div_le_div_right (Nat.mod_le ..)
      _ ≤ 100 := Nat.div_le_of_le_mul (Nat.mul_le_mul_right 100 h)

/-- The percentage is exact where the product fits into a word. -/
theorem usagePercent_eq {resident capacity : Nat} (hle : resident ≤ capacity)
    (hlt : resident * 100 < UInt64.size) :
    usagePercent resident capacity = resident * 100 / capacity := by
  have hpercent : resident * 100 / capacity ≤ 100 :=
    Nat.div_le_of_le_mul (Nat.mul_le_mul_right 100 hle)
  rw [usagePercent]
  split
  next hzero => rw [hzero, Nat.div_zero]
  next =>
    rw [Nat.mod_eq_of_lt hlt, Nat.mod_eq_of_lt]
    exact Nat.lt_of_le_of_lt hpercent (by decide)

/-- The size of the address space was asked for in a reset. -/
theorem totalPages_after (m : Memory) (request : MemoryRequest) :
    (m.after request).totalPages = m.totalPages ∨
      ∃ bytes frames, request = .reset bytes frames ∧
        (m.after request).totalPages = pagesFor bytes := by
  have hstep := performed_perform m request
  generalize (m.perform request).result = result at hstep
  generalize m.after request = m' at hstep ⊢
  cases hstep with
  | @reset bytes frames hbytes hframes => exact .inr ⟨bytes, frames, rfl, rfl⟩
  | _ => exact .inl rfl

theorem totalPages_afterAll_le {bound : Nat} {requests : List MemoryRequest}
    (hm : m.totalPages ≤ bound)
    (h : ∀ bytes frames, .reset bytes frames ∈ requests → pagesFor bytes ≤ bound) :
    (m.afterAll requests).totalPages ≤ bound := by
  induction requests generalizing m with
  | nil => exact hm
  | cons request rest ih =>
      refine ih ?_ fun bytes frames hmem => h bytes frames (List.mem_cons_of_mem _ hmem)
      obtain heq | ⟨bytes, frames, rfl, heq⟩ := m.totalPages_after request
      · rwa [heq]
      · rw [heq]
        exact h bytes frames List.mem_cons_self

theorem pagesFor_le {bytes : Nat} (h : bytes < UInt64.size) :
    pagesFor bytes ≤ UInt64.size / pageSize := by
  rw [UInt64.size] at h ⊢
  rw [pagesFor, pageSize]
  omega

/-- After any history of a new memory, the resident pages keep within its bounds, each
under its own number and with a full page of bytes. Since the latest reset, every page
that was allocated is resident, or it was evicted or freed; a writeback was counted for
each evicted page that had been written since its allocation, and a fault for each answer
that reported one. So the zones add up to the resident pages and the percentage is at
most one hundred, and its product fits into a word if every size that was asked for did. -/
theorem pages_conserved (requests : List MemoryRequest) :
    let m := empty.afterAll requests
    let log := empty.records [] requests
    (m.usage.resident ≤ m.usage.capacity ∧ m.usage.capacity ≤ m.usage.totalPages ∧
      (m.initialized = true → 1 ≤ m.usage.capacity) ∧
      (m.initialized = false → m.pages = {})) ∧
    (∀ page p, m.pages.get? page = some p →
      page < m.usage.totalPages ∧ p.number = page ∧ p.content.toList.length = 4096) ∧
    (countAllocations log = m.usage.resident + m.usage.evictions + countFrees log ∧
      m.usage.evictions = countEvictions log ∧
      m.usage.writebacks = countWrittenEvictions log ∧
      m.usage.writebacks ≤ m.usage.evictions ∧
      m.usage.faults = countFaults log) ∧
    m.usage.kernelPages + m.usage.userPages + m.usage.devicePages = m.usage.resident ∧
    m.usage.percent ≤ 100 ∧
    ((∀ bytes frames, .reset bytes frames ∈ requests → bytes < UInt64.size) →
      m.usage.resident * 100 < UInt64.size ∧
      m.usage.percent = m.usage.resident * 100 / m.usage.capacity) := by
  intro m log
  have h : Conserved log m := conserved_empty.afterAll requests
  obtain ⟨hbounded, hcounted, hstamped, -⟩ := h
  refine ⟨⟨hbounded.size_le, hbounded.capacity_le, hbounded.capacity_pos, hbounded.pages_eq⟩,
    ?_, ⟨hcounted.allocations, hcounted.evictions, hcounted.writebacks, ?_, hcounted.faults⟩,
    m.zones_usage, usagePercent_le hbounded.size_le, ?_⟩
  · intro page p hp
    exact ⟨hbounded.lt_totalPages page p hp, hstamped.number_eq page p hp, p.content.length_toList⟩
  · have hle := countWrittenEvictions_le log
    rwa [← hcounted.evictions, ← hcounted.writebacks] at hle
  · intro hbytes
    have htotal : m.totalPages ≤ UInt64.size / pageSize :=
      totalPages_afterAll_le (Nat.zero_le _)
        fun bytes frames hmem => pagesFor_le (hbytes bytes frames hmem)
    have hsize : m.pages.size ≤ UInt64.size / pageSize :=
      Nat.le_trans hbounded.size_le (Nat.le_trans hbounded.capacity_le htotal)
    have hproduct : m.pages.size * 100 < UInt64.size :=
      Nat.lt_of_le_of_lt (Nat.mul_le_mul_right 100 hsize) (by decide)
    exact ⟨hproduct, usagePercent_eq hbounded.size_le hproduct⟩

/-- A page that had been written is evicted, the access to it is a fault, and another page
is freed. -/
theorem pages_conserved_of_written_eviction :
    let requests : List MemoryRequest :=
      [.reset 12288 (some 2), .allocate 0 16, .write 0 8 [7], .allocate 1 16, .allocate 2 16,
        .readWord 0 8, .free 1]
    let m := empty.afterAll requests
    let log := empty.records [] requests
    (∀ bytes frames, .reset bytes frames ∈ requests → bytes < UInt64.size) ∧
      countAllocations log = m.usage.resident + m.usage.evictions + countFrees log ∧
      countAllocations log = 3 ∧ m.usage.resident = 1 ∧ countFrees log = 1 ∧
      countWrittenEvictions log = 1 ∧ m.usage.writebacks = countWrittenEvictions log ∧
      m.usage.faults = 1 ∧ m.usage.percent = m.usage.resident * 100 / m.usage.capacity ∧
      m.usage.percent = 50 := by
  intro requests m log
  have hbytes : ∀ bytes frames, .reset bytes frames ∈ requests → bytes < UInt64.size := by
    simp [requests, UInt64.size]
  obtain ⟨-, -, ⟨hallocations, -, hwritebacks, -⟩, -, -, hpercent⟩ := pages_conserved requests
  exact ⟨hbytes, hallocations, by decide +kernel, by decide +kernel, by decide +kernel,
    by decide +kernel, hwritebacks, by decide +kernel, (hpercent hbytes).2, by decide +kernel⟩

end Memory

end Timeshare
