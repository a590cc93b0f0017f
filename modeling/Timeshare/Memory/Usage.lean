import Timeshare.Memory.Basic

/-!
# Memory usage

`MemoryUsage` is the summary of a memory that is shown to an observer. Its
percentage is computed on machine words: the product wraps at 64 bits and the
quotient at 32 bits.
-/

namespace Timeshare

/-- A summary of the memory. -/
structure MemoryUsage where
  totalPages : Nat
  capacity : Nat
  resident : Nat
  kernelPages : Nat
  userPages : Nat
  devicePages : Nat
  dirtyPages : Nat
  pinnedPages : Nat
  evictions : Nat
  writebacks : Nat
  faults : Nat
  deriving DecidableEq

/-- The part of `capacity` that `resident` fills, in percent; nothing is filled
if there is no capacity. -/
def usagePercent (resident capacity : Nat) : Nat :=
  if capacity = 0 then 0 else (resident * 100 % UInt64.size) / capacity % UInt32.size

/-- The part of the capacity that is in use, in percent. -/
def MemoryUsage.percent (u : MemoryUsage) : Nat := usagePercent u.resident u.capacity

/-- The number of resident pages that satisfy `p`. -/
def Memory.countPages (m : Memory) (p : Page → Bool) : Nat := m.pages.values.countP p

/-- The summary of a memory. -/
def Memory.usage (m : Memory) : MemoryUsage where
  totalPages := m.totalPages
  capacity := m.capacity
  resident := m.pages.size
  kernelPages := m.countPages (·.zone == .kernel)
  userPages := m.countPages (·.zone == .user)
  devicePages := m.countPages (·.zone == .device)
  dirtyPages := m.countPages Page.isDirty
  pinnedPages := m.countPages Page.isPinned
  evictions := m.evictions
  writebacks := m.writebacks
  faults := m.faults

end Timeshare
