import Timeshare.Identifier
import Timeshare.Priority

/-!
# Ready queues

There is one queue of process numbers for each priority level. Every operation
is described by what it does to the queue of each level: `level_pushBack`,
`level_pushFront` and `level_remove`. Taken together the queues are one list of
entries, a level with a process number each, which lists the levels from the
highest on and each queue from its head (`entries`).
-/

namespace Timeshare

/-- One queue of process numbers for each level. -/
structure ReadyQueues where
  levels : Vector (List ProcessId) levelCount := Vector.replicate levelCount []
  deriving DecidableEq

namespace ReadyQueues

/-- The queue of a level, from its head. -/
def level (q : ReadyQueues) (p : Priority) : List ProcessId := q.levels[p]

/-- The queues with another queue at a level. -/
def setLevel (q : ReadyQueues) (p : Priority) (pids : List ProcessId) : ReadyQueues :=
  ⟨q.levels.set p pids⟩

/-- Every queued process with its level, in the order of the queues. -/
def entries (q : ReadyQueues) : List (Priority × ProcessId) :=
  Priority.all.flatMap fun p => (q.level p).map (p, ·)

/-- Adds a process at the tail of a queue. -/
def pushBack (q : ReadyQueues) (p : Priority) (pid : ProcessId) : ReadyQueues :=
  q.setLevel p (q.level p ++ [pid])

/-- Adds a process at the head of a queue. -/
def pushFront (q : ReadyQueues) (p : Priority) (pid : ProcessId) : ReadyQueues :=
  q.setLevel p (pid :: q.level p)

/-- The highest level at which a process is queued. -/
def levelOf? (q : ReadyQueues) (pid : ProcessId) : Option Priority :=
  Priority.all.find? fun p => (q.level p).contains pid

/-- The queues without the first entry of a process. -/
def remove (q : ReadyQueues) (pid : ProcessId) : ReadyQueues :=
  match q.levelOf? pid with
  | none => q
  | some p => q.setLevel p ((q.level p).erase pid)

/-- The highest level with a queue that is not empty. -/
def highest? (q : ReadyQueues) : Option Priority :=
  Priority.all.find? fun p => !(q.level p).isEmpty

/-- The head of the highest queue that is not empty. -/
def head? (q : ReadyQueues) : Option ProcessId := q.highest?.bind fun p => (q.level p).head?

/-- The number of entries of a process. -/
def occurrences (q : ReadyQueues) (pid : ProcessId) : Nat := q.entries.countP (·.2 == pid)

/-- Whether a process is queued at any level. -/
def contains (q : ReadyQueues) (pid : ProcessId) : Bool := (q.levelOf? pid).isSome

/-- The number of entries at each level. -/
def lengths (q : ReadyQueues) : List Nat := Priority.all.map fun p => (q.level p).length

/-- The number of all entries. -/
def size (q : ReadyQueues) : Nat := q.lengths.foldr (· + ·) 0

/-- Whether nothing is queued. -/
def isEmpty (q : ReadyQueues) : Bool := Priority.all.all fun p => (q.level p).isEmpty

@[simp] theorem level_empty (p : Priority) : level {} p = [] := by
  simp [level]

theorem level_setLevel (q : ReadyQueues) (p r : Priority) (pids : List ProcessId) :
    (q.setLevel p pids).level r = if p = r then pids else q.level r := by
  simp [level, setLevel, Vector.getElem_set, Fin.ext_iff]

theorem level_pushBack (q : ReadyQueues) (p r : Priority) (pid : ProcessId) :
    (q.pushBack p pid).level r = if p = r then q.level r ++ [pid] else q.level r := by
  rw [pushBack, level_setLevel]
  split <;> simp_all

theorem level_pushFront (q : ReadyQueues) (p r : Priority) (pid : ProcessId) :
    (q.pushFront p pid).level r = if p = r then pid :: q.level r else q.level r := by
  rw [pushFront, level_setLevel]
  split <;> simp_all

/-- A removal shortens the queue of the highest level at which the process is
queued, and no other. -/
theorem level_remove (q : ReadyQueues) (r : Priority) (pid : ProcessId) :
    (q.remove pid).level r =
      if q.levelOf? pid = some r then (q.level r).erase pid else q.level r := by
  cases h : q.levelOf? pid with
  | none => simp [remove, h]
  | some p =>
      rw [remove, h]
      by_cases hr : p = r <;> simp [level_setLevel, hr]

/-- Queues are determined by their levels. -/
theorem ext_level {q r : ReadyQueues} (h : ∀ p, q.level p = r.level p) : q = r := by
  obtain ⟨u⟩ := q
  obtain ⟨v⟩ := r
  refine congrArg _ (Vector.ext fun i hi => ?_)
  exact h ⟨i, hi⟩

theorem mem_entries_iff {q : ReadyQueues} {p : Priority} {pid : ProcessId} :
    (p, pid) ∈ q.entries ↔ pid ∈ q.level p := by
  simp [entries]

end ReadyQueues

end Timeshare
