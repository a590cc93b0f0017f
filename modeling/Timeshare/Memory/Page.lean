import Timeshare.Memory.Error

/-!
# Resident pages

A page holds `pageSize` bytes together with the zone it was allocated in, its
flags and the time of its last access. A page of the kernel zone is pinned
whatever its flags say.

Bytes are read and written in ranges. A range lies inside the page if its end,
as an exact number, does not pass the end of the page (`inPage`). The content of
a page after a write is `overlay`, and what a read answers with is `slice`; both
are described byte by byte by `getElem?_overlay` and `getElem?_slice`.
-/

namespace Timeshare

/-- The number of bytes of a page. -/
def pageSize : Nat := 4096

/-- The number of pages that are needed to hold the given number of bytes. -/
def pagesFor (bytes : Nat) : Nat := (bytes + (pageSize - 1)) / pageSize

/-- The part of the address space that a page belongs to. -/
inductive Zone
  | kernel
  | user
  | device
  deriving DecidableEq

namespace Zone

/-- Whether the pages of a zone are never evicted. -/
def isPinned : Zone → Bool
  | kernel => true
  | _ => false

/-- The name of a zone in messages. -/
def name : Zone → String
  | kernel => "Kernel"
  | user => "User"
  | device => "Device"

end Zone

/-- The flags of a page, as a set of two members. -/
structure PageFlags where
  /-- The page was written since it was allocated. -/
  dirty : Bool := false
  /-- The page was pinned by request. -/
  pinned : Bool := false
  deriving DecidableEq

namespace PageFlags

/-- The members of either set. -/
def union (a b : PageFlags) : PageFlags := ⟨a.dirty || b.dirty, a.pinned || b.pinned⟩

/-- The members of the first set that are not in the second. -/
def difference (a b : PageFlags) : PageFlags := ⟨a.dirty && !b.dirty, a.pinned && !b.pinned⟩

/-- Whether every member of the second set is in the first. -/
def contains (a b : PageFlags) : Bool := (!b.dirty || a.dirty) && (!b.pinned || a.pinned)

/-- The set as a number: the dirty flag counts one and the pinned flag two. -/
def bits (a : PageFlags) : Nat := a.dirty.toNat + 2 * a.pinned.toNat

end PageFlags

/-- A resident page. -/
structure Page where
  number : PageNumber
  zone : Zone
  flags : PageFlags := {}
  /-- The time of the most recent access. -/
  lastAccess : Nat
  /-- The size that was asked for; the whole page can be used all the same. -/
  requested : Nat
  content : Vector UInt8 pageSize := Vector.replicate pageSize 0

/-- What can be said about a page without looking at its bytes. -/
structure PageInfo where
  number : PageNumber
  zone : Zone
  dirty : Bool
  pinned : Bool
  lastAccess : Nat
  requested : Nat
  deriving DecidableEq

namespace Page

/-- The bytes with `new` written over them from `offset` on. -/
def overlay {n : Nat} (old : Vector UInt8 n) (offset : Nat) : List UInt8 → Vector UInt8 n
  | [] => old
  | b :: rest => overlay (old.setIfInBounds offset b) (offset + 1) rest

/-- The `length` bytes from `offset` on. -/
def slice {n : Nat} (bytes : Vector UInt8 n) (offset length : Nat) : List UInt8 :=
  (List.range' offset length).map fun i => bytes[i]?.getD 0

/-- Whether the range lies inside a page. -/
def inPage (offset length : Nat) : Bool := offset + length ≤ pageSize

/-- Whether the page was written since it was allocated. -/
def isDirty (p : Page) : Bool := p.flags.dirty

/-- Whether the page is pinned, by request or by its zone. -/
def isPinned (p : Page) : Bool := p.zone.isPinned || p.flags.pinned

/-- Pins the page by request. -/
def pin (p : Page) : Page := { p with flags := p.flags.union { pinned := true } }

/-- Takes back a pin that was set by request. -/
def unpin (p : Page) : Page := { p with flags := p.flags.difference { pinned := true } }

/-- Records an access at the time `now`. -/
def touch (p : Page) (now : Nat) : Page := { p with lastAccess := now }

/-- Refuses a range that does not lie inside the page. -/
def checkRange (p : Page) (offset length : Nat) : Except MemoryError Unit :=
  if inPage offset length then .ok () else .error (.outOfBounds p.number offset length)

/-- Reads a range of bytes at the time `now`. -/
def read (p : Page) (offset length now : Nat) : Except MemoryError (List UInt8 × Page) :=
  (p.checkRange offset length).map fun _ => (slice p.content offset length, p.touch now)

/-- Writes bytes at the time `now`. -/
def write (p : Page) (offset : Nat) (bytes : List UInt8) (now : Nat) : Except MemoryError Page :=
  (p.checkRange offset bytes.length).map fun _ =>
    { p with
      flags := p.flags.union { dirty := true }
      lastAccess := now
      content := overlay p.content offset bytes }

/-- The description of the page. -/
def info (p : Page) : PageInfo where
  number := p.number
  zone := p.zone
  dirty := p.isDirty
  pinned := p.isPinned
  lastAccess := p.lastAccess
  requested := p.requested

/-! ## Ranges of bytes -/

/-- A byte of a slice is the byte at the same place of the page. -/
theorem getElem?_slice {n : Nat} (bytes : Vector UInt8 n) (offset length j : Nat) :
    (slice bytes offset length)[j]? =
      if j < length then some (bytes[offset + j]?.getD 0) else none := by
  by_cases h : j < length
  · simp [slice, h]
  · simp [slice, h]

/-- An overlay changes exactly the bytes of its range. -/
theorem getElem?_overlay {n : Nat} (old : Vector UInt8 n) (offset : Nat) (new : List UInt8)
    (i : Nat) (hi : i < n) :
    (overlay old offset new)[i]? =
      if offset ≤ i ∧ i < offset + new.length then new[i - offset]? else old[i]? := by
  induction new generalizing old offset with
  | nil =>
      have : ¬ (offset ≤ i ∧ i < offset) := by omega
      simp [overlay, this]
  | cons b rest ih =>
      rw [overlay, ih]
      by_cases hio : i = offset
      · subst hio
        have h1 : ¬ (i + 1 ≤ i ∧ i < i + 1 + rest.length) := by omega
        have h2 : i ≤ i ∧ i < i + (b :: rest).length := by simp
        rw [if_neg h1, if_pos h2]
        simp [hi]
      · by_cases hr : offset ≤ i ∧ i < offset + (b :: rest).length
        · have hr' : offset + 1 ≤ i ∧ i < offset + 1 + rest.length := by
            simp only [List.length_cons] at hr
            omega
          have hs : i - offset = (i - (offset + 1)) + 1 := by omega
          rw [if_pos hr, if_pos hr', hs, List.getElem?_cons_succ]
        · have hr' : ¬ (offset + 1 ≤ i ∧ i < offset + 1 + rest.length) := by
            simp only [List.length_cons] at hr
            omega
          rw [if_neg hr, if_neg hr']
          simp [Ne.symm hio]

theorem inPage_eq_true_iff {offset length : Nat} :
    inPage offset length = true ↔ offset + length ≤ pageSize := by
  simp [inPage]

end Page

end Timeshare
