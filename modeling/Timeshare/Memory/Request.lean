import Timeshare.Memory.Usage

/-!
# Memory requests

A request is an operation on the memory as a value, so a history of a memory is
a list of requests (`Memory.afterAll`). The answer to a request that succeeds is
a `MemoryValue`.
-/

namespace Timeshare

/-- An operation on the memory. -/
inductive MemoryRequest
  | reset (bytes : Nat) (frames : Option Nat)
  | allocate (page : PageNumber) (size : Nat)
  | allocateIn (page : PageNumber) (size : Nat) (zone : Zone)
  | free (page : PageNumber)
  | write (page : PageNumber) (offset : Nat) (bytes : List UInt8)
  | writeWord (page : PageNumber) (offset : Nat) (value : UInt32)
  | read (page : PageNumber) (offset length : Nat)
  | readWord (page : PageNumber) (offset : Nat)
  | pin (page : PageNumber)
  | unpin (page : PageNumber)
  | isDirty (page : PageNumber)
  | isInitialized
  | isResident (page : PageNumber)
  | zoneOf (page : PageNumber)
  | info (page : PageNumber)
  | listPages
  | usage

/-- The answer to a memory request that succeeds. -/
inductive MemoryValue
  | done
  | flag (value : Bool)
  | bytes (value : List UInt8)
  | word (value : UInt32)
  | zone (value : Option Zone)
  | info (value : Option PageInfo)
  | pages (value : List PageInfo)
  | usage (value : MemoryUsage)

namespace Memory

/-- Carries out a request. -/
def perform (m : Memory) : MemoryRequest → Reply Memory (Except MemoryError MemoryValue)
  | .reset bytes frames => (m.reset bytes frames).map (Except.map fun _ => .done)
  | .allocate page size => (m.allocate page size).map (Except.map fun _ => .done)
  | .allocateIn page size zone => (m.allocateIn page size zone).map (Except.map fun _ => .done)
  | .free page => (m.free page).map (Except.map fun _ => .done)
  | .write page offset bytes => (m.write page offset bytes).map (Except.map fun _ => .done)
  | .writeWord page offset value => (m.writeWord page offset value).map (Except.map fun _ => .done)
  | .read page offset length => (m.read page offset length).map (Except.map .bytes)
  | .readWord page offset => (m.readWord page offset).map (Except.map .word)
  | .pin page => (m.pin page).map (Except.map fun _ => .done)
  | .unpin page => (m.unpin page).map (Except.map fun _ => .done)
  | .isDirty page => (m.isDirty page).map (Except.map .flag)
  | .isInitialized => ⟨.ok (.flag m.initialized), m, #[]⟩
  | .isResident page => ⟨.ok (.flag (m.isResident page)), m, #[]⟩
  | .zoneOf page => ⟨.ok (.zone (m.zoneOf? page)), m, #[]⟩
  | .info page => ⟨.ok (.info (m.info? page)), m, #[]⟩
  | .listPages => ⟨.ok (.pages m.listPages), m, #[]⟩
  | .usage => ⟨.ok (.usage m.usage), m, #[]⟩

/-- The memory after a request. -/
def after (m : Memory) (request : MemoryRequest) : Memory := (m.perform request).state

/-- The memory after a history of requests. -/
def afterAll (m : Memory) (requests : List MemoryRequest) : Memory := requests.foldl after m

@[simp] theorem afterAll_nil (m : Memory) : m.afterAll [] = m := rfl

@[simp] theorem afterAll_cons (m : Memory) (request : MemoryRequest)
    (requests : List MemoryRequest) :
    m.afterAll (request :: requests) = (m.after request).afterAll requests := rfl

theorem afterAll_append (m : Memory) (first second : List MemoryRequest) :
    m.afterAll (first ++ second) = (m.afterAll first).afterAll second := by
  simp [afterAll]

end Memory

end Timeshare
