import Timeshare.Proofs.LittleEndian
import Timeshare.Proofs.Memory.History

/-!
# The memory as a map of bytes

A read answers with the bytes that the history of the memory asks for, whenever
the page is resident and the range lies inside it, and with nothing otherwise
(`Memory.byte_map`). What a page held is lost when the page leaves: a page that
becomes resident shows zeros, and a request that does not write to a page leaves
its bytes alone.
-/

namespace Timeshare

namespace Memory

variable {m : Memory} {log : List Attempt} {page : PageNumber} {p : Page} {offset length : Nat}

theorem isResident_iff : m.isResident page = true ↔ ∃ p, m.pages.get? page = some p :=
  Table.contains_iff m.pages page

theorem isResident_eq_false_iff : m.isResident page = false ↔ m.pages.get? page = none := by
  simp [isResident, Table.contains]

/-! ## Reads -/

theorem result_read_of_resident (hi : m.initialized = true) (hp : m.pages.get? page = some p)
    (hfits : offset + length ≤ pageSize) :
    (m.read page offset length).result = .ok (Page.slice p.content offset length) := by
  rw [read, withPage_of_resident hi hp, Page.read_of_fits hfits]

theorem exists_read_iff : (∃ bytes, (m.read page offset length).result = .ok bytes) ↔
    m.initialized = true ∧ m.isResident page = true ∧ offset + length ≤ pageSize := by
  constructor
  · rintro ⟨bytes, h⟩
    rw [read] at h
    obtain ⟨-, heq⟩ | ⟨-, -, heq⟩ | ⟨p, hi, hp, heq⟩ := withPage_cases m page _
    · rw [heq] at h
      cases h
    · rw [heq] at h
      cases h
    · rw [heq] at h
      by_cases hfits : offset + length ≤ pageSize
      · exact ⟨hi, isResident_iff.2 ⟨p, hp⟩, hfits⟩
      · rw [Page.read_of_not_fits hfits] at h
        cases h
  · rintro ⟨hi, hr, hfits⟩
    obtain ⟨p, hp⟩ := isResident_iff.1 hr
    exact ⟨_, result_read_of_resident hi hp hfits⟩

theorem read_eq_ok (h : ∃ bytes, (m.read page offset length).result = .ok bytes) :
    ∃ p, m.initialized = true ∧ m.pages.get? page = some p ∧ offset + length ≤ pageSize ∧
      (m.read page offset length).result = .ok (Page.slice p.content offset length) := by
  obtain ⟨hi, hr, hfits⟩ := exists_read_iff.1 h
  obtain ⟨p, hp⟩ := isResident_iff.1 hr
  exact ⟨p, hi, hp, hfits, result_read_of_resident hi hp hfits⟩

theorem slice_of_shows (h : Shows page log p) (hfits : offset + length ≤ pageSize) :
    Page.slice p.content offset length =
      (List.range length).map fun j => storedByte page (offset + j) log := by
  apply List.ext_getElem?
  intro j
  rw [Page.getElem?_slice, List.getElem?_map]
  by_cases hj : j < length
  · have hi : offset + j < pageSize := by omega
    rw [if_pos hj, h.byte _ hi, List.getElem?_range hj]
    rfl
  · have hnone : (List.range length)[j]? = none := by simpa using hj
    rw [if_neg hj, hnone]
    rfl

theorem read_of_reflects (h : Reflects log m) {bytes : List UInt8}
    (hread : (m.read page offset length).result = .ok bytes) :
    bytes = (List.range length).map fun j => storedByte page (offset + j) log := by
  obtain ⟨p, hi, hp, hfits, heq⟩ := read_eq_ok ⟨bytes, hread⟩
  rw [heq] at hread
  cases hread
  exact slice_of_shows (h page p hp) hfits

theorem exists_readWord_iff : (∃ word, (m.readWord page offset).result = .ok word) ↔
    m.initialized = true ∧ m.isResident page = true ∧ offset + 4 ≤ pageSize := by
  rw [← exists_read_iff, readWord, Reply.result_map]
  cases (m.read page offset 4).result <;> simp [Except.map]

/-- Four bytes fit in a word. -/
theorem toNat_wordOfBytes {bytes : List UInt8} (h : bytes.length = 4) :
    (wordOfBytes bytes).toNat = LittleEndian.ofBytes bytes := by
  have hlt := LittleEndian.ofBytes_lt bytes
  rw [h] at hlt
  rw [wordOfBytes, UInt32.toNat_ofNat']
  exact Nat.mod_eq_of_lt hlt

theorem readWord_of_reflects (h : Reflects log m) {word : UInt32}
    (hread : (m.readWord page offset).result = .ok word) :
    word.toNat = (storedByte page offset log).toNat +
      256 * (storedByte page (offset + 1) log).toNat +
      65536 * (storedByte page (offset + 2) log).toNat +
      16777216 * (storedByte page (offset + 3) log).toNat := by
  rw [readWord, Reply.result_map] at hread
  cases hr : (m.read page offset 4).result with
  | error e =>
      rw [hr] at hread
      cases hread
  | ok bytes =>
      rw [hr] at hread
      cases hread
      have hlength : bytes.length = 4 := by
        rw [read_of_reflects h hr, List.length_map, List.length_range]
      rw [toNat_wordOfBytes hlength, read_of_reflects h hr]
      simp only [List.range, List.range.loop, List.map, LittleEndian.ofBytes, Nat.add_zero]
      omega

/-! ## Flags -/

theorem dirty_info_of_reflects (h : Reflects log m) {info : PageInfo}
    (hinfo : m.info? page = some info) : info.dirty = isWritten page log := by
  obtain ⟨p, hp, rfl⟩ := Option.map_eq_some_iff.1 hinfo
  exact (h page p hp).dirty

theorem isDirty_of_reflects (h : Reflects log m) (hi : m.initialized = true)
    (hr : m.isResident page = true) : (m.isDirty page).result = .ok (isWritten page log) := by
  obtain ⟨p, hp⟩ := isResident_iff.1 hr
  rw [isDirty, withPage_of_resident hi hp, ← (h page p hp).dirty]

/-! ## One request and the bytes of a page -/

/-- The request was carried out as a write to the page. -/
def WritesTo (m : Memory) (request : MemoryRequest) (page : PageNumber) : Prop :=
  (m.perform request).result.isOk = true ∧
    ∃ offset bytes, request.stores? = some (page, offset, bytes)

/-- A page that is resident after a request was resident before it, with the same
bytes and the same dirty flag unless the request wrote to it, or it is fresh. -/
theorem page_after {request : MemoryRequest} {p' : Page}
    (hp' : (m.after request).pages.get? page = some p') :
    (m.pages.get? page = none ∧ p'.content = Vector.replicate pageSize 0 ∧ p'.isDirty = false) ∨
    (∃ p, m.pages.get? page = some p ∧ (m.after request).initialized = m.initialized ∧
      p'.number = p.number ∧
      (m.WritesTo request page ∨ p'.content = p.content ∧ p'.isDirty = p.isDirty)) := by
  have hstep := performed_perform m request
  rw [WritesTo]
  generalize (m.perform request).result = result at hstep ⊢
  generalize m.after request = m' at hstep hp' ⊢
  cases hstep with
  | refused he => exact .inr ⟨p', hp', rfl, rfl, .inr ⟨rfl, rfl⟩⟩
  | faulted hi hp => exact .inr ⟨p', hp', rfl, rfl, .inr ⟨rfl, rfl⟩⟩
  | reset hbytes hframes => cases hp'
  | placed ha hadmits hroom =>
      obtain ⟨rfl, rfl⟩ | ⟨hne, hp⟩ := Table.get?_insert_eq_some_iff.1 hp'
      · exact .inl ⟨get?_of_admits hadmits, rfl, rfl⟩
      · exact .inr ⟨p', hp, rfl, rfl, .inr ⟨rfl, rfl⟩⟩
  | replaced ha hadmits hfull hv =>
      obtain ⟨rfl, rfl⟩ | ⟨hne, hp⟩ := Table.get?_insert_eq_some_iff.1 hp'
      · exact .inl ⟨get?_of_admits hadmits, rfl, rfl⟩
      · have hp := (Table.get?_erase_eq_some_iff.1 hp).2
        exact .inr ⟨p', hp, rfl, rfl, .inr ⟨rfl, rfl⟩⟩
  | freed hi hp =>
      have hp := (Table.get?_erase_eq_some_iff.1 hp').2
      exact .inr ⟨p', hp, rfl, rfl, .inr ⟨rfl, rfl⟩⟩
  | stored hs hi hp hfits =>
      obtain ⟨rfl, rfl⟩ | ⟨hne, hq⟩ := Table.get?_insert_eq_some_iff.1 hp'
      · exact .inr ⟨_, hp, rfl, rfl, .inl ⟨rfl, _, _, hs⟩⟩
      · exact .inr ⟨p', hq, rfl, rfl, .inr ⟨rfl, rfl⟩⟩
  | loaded hr hi hp hfits =>
      obtain ⟨rfl, rfl⟩ | ⟨hne, hq⟩ := Table.get?_insert_eq_some_iff.1 hp'
      · exact .inr ⟨_, hp, rfl, rfl, .inr ⟨rfl, rfl⟩⟩
      · exact .inr ⟨p', hq, rfl, rfl, .inr ⟨rfl, rfl⟩⟩
  | @pinned _ q hi hp =>
      obtain ⟨rfl, rfl⟩ | ⟨hne, hq⟩ := Table.get?_insert_eq_some_iff.1 hp'
      · exact .inr ⟨q, hp, rfl, rfl, .inr ⟨rfl, Page.isDirty_pin q⟩⟩
      · exact .inr ⟨p', hq, rfl, rfl, .inr ⟨rfl, rfl⟩⟩
  | @unpinned _ q hi hp =>
      obtain ⟨rfl, rfl⟩ | ⟨hne, hq⟩ := Table.get?_insert_eq_some_iff.1 hp'
      · exact .inr ⟨q, hp, rfl, rfl, .inr ⟨rfl, Page.isDirty_unpin q⟩⟩
      · exact .inr ⟨p', hq, rfl, rfl, .inr ⟨rfl, rfl⟩⟩
  | observed hq => exact .inr ⟨p', hp', rfl, rfl, .inr ⟨rfl, rfl⟩⟩

theorem slice_zeros (offset length : Nat) :
    Page.slice (Vector.replicate pageSize 0) offset length = List.replicate length 0 := by
  apply List.ext_getElem?
  intro j
  rw [Page.getElem?_slice, List.getElem?_replicate]
  by_cases hj : j < length
  · by_cases hi : offset + j < pageSize <;> simp [hj, hi]
  · simp [hj]

/-- A page that becomes resident is full of zeros. -/
theorem read_after_of_absent {request : MemoryRequest} (hr : m.isResident page = false)
    {bytes : List UInt8}
    (h : ((m.after request).read page offset length).result = .ok bytes) :
    bytes = List.replicate length 0 := by
  obtain ⟨p', hi, hp', hfits, heq⟩ := read_eq_ok ⟨bytes, h⟩
  rw [heq] at h
  cases h
  obtain ⟨hp, hcontent, -⟩ | ⟨p, hp, -⟩ := page_after hp'
  · rw [hcontent, slice_zeros]
  · rw [isResident_eq_false_iff.1 hr] at hp
    cases hp

/-- A page that stays resident keeps its bytes unless it is written. -/
theorem read_after_of_not_written {request : MemoryRequest} (hw : ¬ m.WritesTo request page)
    (hr : m.isResident page = true) (hr' : (m.after request).isResident page = true) :
    ((m.after request).read page offset length).result = (m.read page offset length).result := by
  obtain ⟨p, hp⟩ := isResident_iff.1 hr
  obtain ⟨p', hp'⟩ := isResident_iff.1 hr'
  obtain ⟨hnone, -⟩ | ⟨q, hq, hi, hnumber, hwrites | ⟨hcontent, -⟩⟩ := page_after hp'
  · rw [hp] at hnone
    cases hnone
  · exact absurd hwrites hw
  · rw [hp] at hq
    cases hq
    by_cases hready : m.initialized = true
    · rw [read, read, withPage_of_resident hready hp, withPage_of_resident (hi ▸ hready) hp']
      by_cases hfits : offset + length ≤ pageSize
      · simp only [Page.read_of_fits hfits, hcontent]
      · simp only [Page.read_of_not_fits hfits, hnumber]
    · have hready : m.initialized = false := by simpa using hready
      rw [read, read, withPage_of_not_initialized hready,
        withPage_of_not_initialized (hi ▸ hready)]

theorem isResident_of_reset {bytes : Nat} {frames : Option Nat}
    (h : (m.reset bytes frames).result = .ok ()) (page : PageNumber) :
    (m.reset bytes frames).state.isResident page = false := by
  rw [reset] at h ⊢
  split
  next hb =>
    rw [if_pos hb] at h
    cases h
  next hb =>
    rw [if_neg hb] at h
    split
    next hf =>
      rw [if_pos hf] at h
      cases h
    next hf => rfl

theorem isResident_of_free (h : (m.free page).result = .ok ()) :
    (m.free page).state.isResident page = false := by
  rw [free] at h ⊢
  obtain ⟨-, heq⟩ | ⟨-, -, heq⟩ | ⟨p, hi, hp, heq⟩ := withPage_cases m page _
  · rw [heq] at h
    cases h
  · rw [heq] at h
    cases h
  · rw [heq, isResident_eq_false_iff, Table.get?_erase]
    simp

/-- The memory is a map of bytes that is determined by its history. After any
requests to a new memory, a read succeeds exactly when the memory is initialized,
the page resident and the range inside it, and answers with the bytes stored last
since the page was allocated; a word is read from its four bytes, the least
significant one first; and the dirty flag tells whether the page was written. A
request leaves the bytes of every page alone that it does not write to, and no
content survives the absence of its page. -/
theorem byte_map (requests : List MemoryRequest) :
    let m := empty.afterAll requests
    let log := empty.attempts [] requests
    (∀ page offset length,
      ((∃ bytes, (m.read page offset length).result = .ok bytes) ↔
        m.initialized = true ∧ m.isResident page = true ∧ offset + length ≤ pageSize) ∧
      ∀ bytes, (m.read page offset length).result = .ok bytes →
        bytes = (List.range length).map fun j => storedByte page (offset + j) log) ∧
    (∀ page offset,
      ((∃ word, (m.readWord page offset).result = .ok word) ↔
        m.initialized = true ∧ m.isResident page = true ∧ offset + 4 ≤ pageSize) ∧
      ∀ word, (m.readWord page offset).result = .ok word →
        word.toNat = (storedByte page offset log).toNat +
          256 * (storedByte page (offset + 1) log).toNat +
          65536 * (storedByte page (offset + 2) log).toNat +
          16777216 * (storedByte page (offset + 3) log).toNat) ∧
    (∀ page,
      (∀ info, m.info? page = some info → info.dirty = isWritten page log) ∧
      (m.initialized = true → m.isResident page = true →
        (m.isDirty page).result = .ok (isWritten page log))) ∧
    (∀ request page offset length,
      (m.isResident page = false → ∀ bytes,
        ((m.after request).read page offset length).result = .ok bytes →
          bytes = List.replicate length 0) ∧
      (¬ m.WritesTo request page → m.isResident page = true →
        (m.after request).isResident page = true →
        ((m.after request).read page offset length).result =
          (m.read page offset length).result)) ∧
    (∀ bytes frames, (m.reset bytes frames).result = .ok () →
      ∀ page, (m.reset bytes frames).state.isResident page = false) ∧
    (∀ page, (m.free page).result = .ok () → (m.free page).state.isResident page = false) := by
  intro m log
  have h : Reflects log m := reflects_empty.afterAll requests
  refine ⟨fun page offset length => ⟨exists_read_iff, fun bytes => read_of_reflects h⟩,
    fun page offset => ⟨exists_readWord_iff, fun word => readWord_of_reflects h⟩,
    fun page => ⟨fun info => dirty_info_of_reflects h, isDirty_of_reflects h⟩,
    fun request page offset length => ⟨fun hr bytes => read_after_of_absent hr,
      read_after_of_not_written⟩, ?_, ?_⟩
  · intro bytes frames hreset page
    exact isResident_of_reset hreset page
  · intro page hfree
    exact isResident_of_free hfree

end Memory

end Timeshare
