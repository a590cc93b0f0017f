import Timeshare.Identifier

/-!
# Errors of the memory

Each constructor is one reason for which the memory refuses an operation.
-/

namespace Timeshare

/-- Why a memory operation is refused. -/
inductive MemoryError
  /-- A size that is zero or larger than a page. -/
  | invalidSize (bytes : Nat)
  /-- The memory has not been initialized. -/
  | notInitialized
  /-- The capacity is used up and every resident page is pinned. -/
  | outOfMemory
  /-- The page is not resident. -/
  | pageFault (page : PageNumber)
  /-- The bytes do not lie inside the page, or the page not in the address space. -/
  | outOfBounds (page : PageNumber) (offset length : Nat)
  /-- The page to allocate is resident already. -/
  | alreadyResident (page : PageNumber)
  deriving DecidableEq

/-- The text of a memory error. -/
def MemoryError.message : MemoryError → String
  | invalidSize bytes => s!"invalid size: {bytes} bytes"
  | notInitialized => "memory manager not initialized"
  | outOfMemory => "out of memory"
  | pageFault page => "page fault: " ++ page.text ++ " is not resident"
  | outOfBounds page offset length =>
    "out of bounds: " ++ page.text ++ s!" offset {offset} length {length}"
  | alreadyResident page => page.text ++ " is already resident"

end Timeshare
