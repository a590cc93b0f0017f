import Timeshare.Proofs.Memory.Performed

/-!
# What accesses see of a memory

A read or a write finds out whether the memory is initialized, whether the page is
resident, and the number and the bytes of the page (`Memory.visible`). It does not see
the flags, the clock or the other pages. So two memories that show the same at some
pages answer accesses to these pages in the same way, and go on showing the same
(`Memory.SameOn`).
-/

namespace Timeshare

namespace Memory

/-- The number and the bytes of a page, if it is resident. -/
def visible (m : Memory) (page : PageNumber) : Option (PageNumber × Vector UInt8 pageSize) :=
  (m.pages.get? page).map fun p => (p.number, p.content)

/-- The bytes of a page, if it is resident. -/
def bytes? (m : Memory) (page : PageNumber) : Option (Vector UInt8 pageSize) :=
  (m.pages.get? page).map Page.content

/-- Whether a range of a page can be accessed, and if not, why. -/
def reach (m : Memory) (page : PageNumber) (offset length : Nat) : Except MemoryError Unit :=
  if !m.initialized then .error .notInitialized
  else
    match m.visible page with
    | none => .error (.pageFault page)
    | some (number, _) =>
      if Page.inPage offset length then .ok () else .error (.outOfBounds number offset length)

variable {m m' m₁ : Memory} {page other : PageNumber} {offset length : Nat} {bytes : List UInt8}

theorem visible_of_get? {p : Page} (h : m.pages.get? page = some p) :
    m.visible page = some (p.number, p.content) := by
  rw [visible, h]
  rfl

theorem bytes?_eq_visible (m : Memory) (page : PageNumber) :
    m.bytes? page = (m.visible page).map Prod.snd := by
  rw [visible, bytes?, Option.map_map]
  rfl

theorem visible_accessed (m : Memory) (page other : PageNumber) (p : Page) :
    (m.accessed page p).visible other =
      if page = other then some (p.number, p.content) else m.visible other := by
  rw [visible, accessed, Table.get?_insert]
  by_cases h : page = other <;> simp [h, visible]

/-- An access to an absent page is counted, and the count cannot be seen. -/
theorem visible_faults (m : Memory) (n : Nat) (page : PageNumber) :
    ({ m with faults := n } : Memory).visible page = m.visible page :=
  rfl

/-! ## Reads -/

theorem result_read (m : Memory) (page : PageNumber) (offset length : Nat) :
    (m.read page offset length).result =
      (m.reach page offset length).map fun _ =>
        (m.visible page).elim [] fun v => Page.slice v.2 offset length := by
  rw [reach, read]
  obtain ⟨hi, heq⟩ | ⟨hi, hp, heq⟩ | ⟨p, hi, hp, heq⟩ := withPage_cases m page _
  · rw [heq]
    simp [hi, Except.map]
  · rw [heq]
    simp [hi, visible, hp, Except.map]
  · rw [heq]
    by_cases hfits : offset + length ≤ pageSize
    · simp [hi, visible_of_get? hp, Page.read_of_fits hfits, Page.inPage_eq_true_iff.2 hfits,
        Except.map]
    · have hout := mt Page.inPage_eq_true_iff.1 hfits
      simp [hi, visible_of_get? hp, Page.read_of_not_fits hfits, hout, Except.map]

theorem visible_read (m : Memory) (page : PageNumber) (offset length : Nat) (other : PageNumber) :
    (m.read page offset length).state.visible other = m.visible other := by
  rw [read]
  obtain ⟨hi, heq⟩ | ⟨hi, hp, heq⟩ | ⟨p, hi, hp, heq⟩ := withPage_cases m page _
  · rw [heq]
  · rw [heq, visible_faults]
  · rw [heq]
    by_cases hfits : offset + length ≤ pageSize
    · simp only [Page.read_of_fits hfits]
      refine (visible_accessed m page other _).trans ?_
      by_cases h : page = other
      · subst h
        rw [if_pos rfl, visible_of_get? hp]
        rfl
      · rw [if_neg h]
    · simp only [Page.read_of_not_fits hfits]

theorem initialized_read (m : Memory) (page : PageNumber) (offset length : Nat) :
    (m.read page offset length).state.initialized = m.initialized := by
  rw [read]
  obtain ⟨hi, heq⟩ | ⟨hi, hp, heq⟩ | ⟨p, hi, hp, heq⟩ := withPage_cases m page _
  · rw [heq]
  · rw [heq]
  · rw [heq]
    by_cases hfits : offset + length ≤ pageSize
    · simp only [Page.read_of_fits hfits]
    · simp only [Page.read_of_not_fits hfits]

/-! ## Writes -/

theorem result_write (m : Memory) (page : PageNumber) (offset : Nat) (bytes : List UInt8) :
    (m.write page offset bytes).result = m.reach page offset bytes.length := by
  rw [reach, write]
  obtain ⟨hi, heq⟩ | ⟨hi, hp, heq⟩ | ⟨p, hi, hp, heq⟩ := withPage_cases m page _
  · rw [heq]
    simp [hi]
  · rw [heq]
    simp [hi, visible, hp]
  · rw [heq]
    by_cases hfits : offset + bytes.length ≤ pageSize
    · simp [hi, visible_of_get? hp, Page.write_of_fits hfits, Page.inPage_eq_true_iff.2 hfits]
    · have hout := mt Page.inPage_eq_true_iff.1 hfits
      simp [hi, visible_of_get? hp, Page.write_of_not_fits hfits, hout]

/-- A write that succeeds is seen at its own page, in its own range. -/
theorem visible_write (m : Memory) (page : PageNumber) (offset : Nat) (bytes : List UInt8)
    (other : PageNumber) :
    (m.write page offset bytes).state.visible other =
      if page = other ∧ (m.reach page offset bytes.length).isOk then
        (m.visible other).map fun v => (v.1, Page.overlay v.2 offset bytes)
      else m.visible other := by
  rw [reach, write]
  obtain ⟨hi, heq⟩ | ⟨hi, hp, heq⟩ | ⟨p, hi, hp, heq⟩ := withPage_cases m page _
  · rw [heq]
    simp [hi, Except.isOk, Except.toBool]
  · rw [heq, visible_faults]
    simp [hi, visible, hp, Except.isOk, Except.toBool]
  · rw [heq]
    by_cases hfits : offset + bytes.length ≤ pageSize
    · simp only [Page.write_of_fits hfits]
      refine (visible_accessed m page other _).trans ?_
      by_cases h : page = other
      · subst h
        simp [hi, visible_of_get? hp, Page.inPage_eq_true_iff.2 hfits, Page.written,
          Except.isOk, Except.toBool]
      · simp [h]
    · have hout := mt Page.inPage_eq_true_iff.1 hfits
      simp [hi, visible_of_get? hp, Page.write_of_not_fits hfits, hout, Except.isOk,
        Except.toBool]

theorem initialized_write (m : Memory) (page : PageNumber) (offset : Nat) (bytes : List UInt8) :
    (m.write page offset bytes).state.initialized = m.initialized := by
  rw [write]
  obtain ⟨hi, heq⟩ | ⟨hi, hp, heq⟩ | ⟨p, hi, hp, heq⟩ := withPage_cases m page _
  · rw [heq]
  · rw [heq]
  · rw [heq]
    by_cases hfits : offset + bytes.length ≤ pageSize
    · simp only [Page.write_of_fits hfits]
    · simp only [Page.write_of_not_fits hfits]

/-! ## Memories that show the same -/

/-- Accesses to the given pages cannot tell the memories apart. -/
structure SameOn (pages : List PageNumber) (m m' : Memory) : Prop where
  initialized_eq : m.initialized = m'.initialized
  visible_eq : ∀ page ∈ pages, m.visible page = m'.visible page

variable {pages : List PageNumber}

theorem SameOn.refl (pages : List PageNumber) (m : Memory) : SameOn pages m m :=
  ⟨rfl, fun _ _ => rfl⟩

theorem SameOn.symm (h : SameOn pages m m') : SameOn pages m' m :=
  ⟨h.initialized_eq.symm, fun page hp => (h.visible_eq page hp).symm⟩

theorem SameOn.trans (h : SameOn pages m m') (h₁ : SameOn pages m' m₁) : SameOn pages m m₁ :=
  ⟨h.initialized_eq.trans h₁.initialized_eq,
    fun page hp => (h.visible_eq page hp).trans (h₁.visible_eq page hp)⟩

theorem SameOn.bytes?_eq (h : SameOn pages m m') (hp : page ∈ pages) :
    m.bytes? page = m'.bytes? page := by
  rw [bytes?_eq_visible, bytes?_eq_visible, h.visible_eq page hp]

theorem SameOn.reach_eq (h : SameOn pages m m') (hp : page ∈ pages) (offset length : Nat) :
    m.reach page offset length = m'.reach page offset length := by
  rw [reach, reach, h.initialized_eq, h.visible_eq page hp]

theorem SameOn.result_read (h : SameOn pages m m') (hp : page ∈ pages) (offset length : Nat) :
    (m.read page offset length).result = (m'.read page offset length).result := by
  rw [Memory.result_read, Memory.result_read, h.reach_eq hp, h.visible_eq page hp]

theorem SameOn.state_read (h : SameOn pages m m') (page : PageNumber) (offset length : Nat) :
    SameOn pages (m.read page offset length).state (m'.read page offset length).state := by
  constructor
  · rw [initialized_read, initialized_read, h.initialized_eq]
  · intro other hother
    rw [visible_read, visible_read, h.visible_eq other hother]

theorem SameOn.result_write (h : SameOn pages m m') (hp : page ∈ pages) (offset : Nat)
    (bytes : List UInt8) :
    (m.write page offset bytes).result = (m'.write page offset bytes).result := by
  rw [Memory.result_write, Memory.result_write, h.reach_eq hp]

theorem SameOn.state_write (h : SameOn pages m m') (hp : page ∈ pages) (offset : Nat)
    (bytes : List UInt8) :
    SameOn pages (m.write page offset bytes).state (m'.write page offset bytes).state := by
  constructor
  · rw [initialized_write, initialized_write, h.initialized_eq]
  · intro other hother
    rw [visible_write, visible_write, h.reach_eq hp, h.visible_eq other hother]

end Memory

end Timeshare
