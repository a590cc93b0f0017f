import Mathlib.Algebra.Ring.Nat
import Timeshare.Scheduler.Consistency

/-!
# Queues that account for a process table

`ProcessTable.share t level pid` is how often a process is to be queued at a level:
once if it is ready at that level, and otherwise not at all. The queues account for
the table if every level holds every process exactly that often
(`ReadyQueues.Accounts`). The condition is pointwise, so an operation that moves one
process is checked at that process alone: `ReadyQueues.AccountsBut` is what is left
while it is in no queue.
-/

namespace Timeshare

/-- How often the process is to be queued at a level. -/
def Process.share (p : Process) (level : Priority) : Nat :=
  if p.state = .ready ∧ p.priority = level then 1 else 0

/-- How often a process of the table is to be queued at a level. -/
def ProcessTable.share (t : ProcessTable) (level : Priority) (pid : ProcessId) : Nat :=
  (t.get? pid).elim 0 (·.share level)

section share

variable {p : Process} {level : Priority} {t : ProcessTable} {pid other : ProcessId}

theorem Process.share_of_not_ready (h : p.state ≠ .ready) : p.share level = 0 := by
  simp [share, h]

theorem Process.share_of_ready (h : p.state = .ready) :
    p.share level = if p.priority = level then 1 else 0 := by
  simp [share, h]

theorem ProcessTable.share_of_get? (h : t.get? pid = some p) : t.share level pid = p.share level := by
  simp [share, h]

theorem ProcessTable.share_of_absent (h : t.get? pid = none) : t.share level pid = 0 := by
  simp [share, h]

theorem ProcessTable.share_insert :
    ProcessTable.share (t.insert pid p) level other =
      if pid = other then p.share level else t.share level other := by
  rw [share, Table.get?_insert]
  by_cases h : pid = other <;> simp [share, h]

/-- A process that is to be queued is ready at the level at which it is. -/
theorem ProcessTable.share_pos_iff :
    0 < t.share level pid ↔ ∃ p, t.get? pid = some p ∧ p.state = .ready ∧ p.priority = level := by
  rw [share]
  cases h : t.get? pid with
  | none => simp
  | some p => simp [Process.share, Nat.pos_iff_ne_zero]

theorem ProcessTable.share_le_one : t.share level pid ≤ 1 := by
  rw [share]
  cases h : t.get? pid with
  | none => simp
  | some p =>
      simp only [Option.elim_some, Process.share]
      split <;> omega

end share

namespace ReadyQueues

variable {q : ReadyQueues} {t : ProcessTable} {pid : ProcessId} {p : Process}

/-! ## Counting the entries of a level -/

theorem count_level_pushBack (q : ReadyQueues) (level other : Priority) (pid x : ProcessId) :
    ((q.pushBack level pid).level other).count x =
      (q.level other).count x + if level = other ∧ pid = x then 1 else 0 := by
  rw [level_pushBack]
  by_cases hl : level = other
  · simp [hl, List.count_append, List.count_singleton]
  · simp [hl]

theorem count_level_pushFront (q : ReadyQueues) (level other : Priority) (pid x : ProcessId) :
    ((q.pushFront level pid).level other).count x =
      (q.level other).count x + if level = other ∧ pid = x then 1 else 0 := by
  rw [level_pushFront]
  by_cases hl : level = other
  · simp [hl, List.count_cons]
  · simp [hl]

theorem levelOf?_eq_none_iff : q.levelOf? pid = none ↔ ∀ level, pid ∉ q.level level := by
  simp [levelOf?]

theorem mem_of_levelOf? {level : Priority} (h : q.levelOf? pid = some level) :
    pid ∈ q.level level := by
  simpa using List.find?_some h

/-- The number of entries of a process is the sum over the levels. -/
theorem occurrences_eq_sum (q : ReadyQueues) (pid : ProcessId) :
    q.occurrences pid = (Priority.all.map fun level => (q.level level).count pid).sum := by
  rw [occurrences, entries, List.countP_flatMap]
  apply congrArg
  apply List.map_congr_left
  intro level _
  rw [Function.comp_apply, List.countP_map]
  rfl

/-! ## Accounting -/

/-- Every level holds every process as often as the table asks for. -/
def Accounts (q : ReadyQueues) (t : ProcessTable) : Prop :=
  ∀ level pid, (q.level level).count pid = t.share level pid

/-- The process `pid` is not queued, and all others are as the table asks for. -/
def AccountsBut (q : ReadyQueues) (t : ProcessTable) (pid : ProcessId) : Prop :=
  ∀ level x, (q.level level).count x = if pid = x then 0 else t.share level x

theorem accounts_empty : Accounts {} {} := by
  intro level pid
  simp [ProcessTable.share]

theorem Accounts.mem_level_iff (h : q.Accounts t) {level : Priority} :
    pid ∈ q.level level ↔ ∃ p, t.get? pid = some p ∧ p.state = .ready ∧ p.priority = level := by
  rw [← List.count_pos_iff, h level pid, ProcessTable.share_pos_iff]

theorem sum_levels_eq_one : ∀ level : Priority,
    (Priority.all.map fun other => if level = other then 1 else 0).sum = 1 := by
  decide

/-- Over all levels, a ready process is queued once. -/
theorem Accounts.occurrences_of_ready (h : q.Accounts t) (hp : t.get? pid = some p)
    (hr : p.state = .ready) : q.occurrences pid = 1 := by
  rw [occurrences_eq_sum, ← sum_levels_eq_one p.priority]
  apply congrArg
  apply List.map_congr_left
  intro level _
  rw [h, ProcessTable.share_of_get? hp, Process.share_of_ready hr]

theorem Accounts.occurrences_of_not_ready (h : q.Accounts t) (hp : t.get? pid = some p)
    (hr : p.state ≠ .ready) : q.occurrences pid = 0 := by
  rw [occurrences, List.countP_eq_zero]
  intro entry hentry heq
  have hpid : entry.2 = pid := by simpa using heq
  obtain ⟨p', hp', hr', -⟩ := h.mem_level_iff.1 (hpid ▸ mem_entries_iff.1 hentry)
  rw [hp] at hp'
  cases hp'
  exact hr hr'

theorem Accounts.but_of_share_eq_zero (h : q.Accounts t) (hz : ∀ level, t.share level pid = 0) :
    q.AccountsBut t pid := by
  intro level x
  by_cases hx : pid = x
  · subst hx
    rw [if_pos rfl, h, hz]
  · rw [if_neg hx, h]

theorem AccountsBut.accounts (h : q.AccountsBut t pid) (hz : ∀ level, t.share level pid = 0) :
    q.Accounts t := by
  intro level x
  rw [h level x]
  by_cases hx : pid = x
  · subst hx
    rw [if_pos rfl, hz]
  · rw [if_neg hx]

/-- A removal takes the process out of the queues and leaves the others alone. -/
theorem Accounts.remove (h : q.Accounts t) (pid : ProcessId) :
    (q.remove pid).AccountsBut t pid := by
  intro level x
  rw [level_remove]
  by_cases hx : pid = x
  · subst hx
    rw [if_pos rfl]
    by_cases hl : q.levelOf? pid = some level
    · have hle : (q.level level).count pid ≤ 1 := by
        rw [h]
        exact ProcessTable.share_le_one
      rw [if_pos hl, List.count_erase_self]
      omega
    · rw [if_neg hl, List.count_eq_zero]
      intro hmem
      cases hq : q.levelOf? pid with
      | none => exact levelOf?_eq_none_iff.1 hq level hmem
      | some other =>
          -- The process would be ready at two levels.
          obtain ⟨p, hp, -, hpl⟩ := h.mem_level_iff.1 hmem
          obtain ⟨p', hp', -, hpo⟩ := h.mem_level_iff.1 (mem_of_levelOf? hq)
          rw [hp] at hp'
          cases hp'
          exact hl (by rw [hq, ← hpo, hpl])
  · rw [if_neg hx]
    split
    · rw [List.count_erase_of_ne (Ne.symm hx), h]
    · exact h level x

theorem AccountsBut.pushBack (h : q.AccountsBut t pid) (hp : p.state = .ready) :
    (q.pushBack p.priority pid).Accounts (t.insert pid p) := by
  intro level x
  rw [count_level_pushBack, h, ProcessTable.share_insert, Process.share_of_ready hp]
  by_cases hx : pid = x <;> simp [hx]

theorem AccountsBut.pushFront (h : q.AccountsBut t pid) (hp : p.state = .ready) :
    (q.pushFront p.priority pid).Accounts (t.insert pid p) := by
  intro level x
  rw [count_level_pushFront, h, ProcessTable.share_insert, Process.share_of_ready hp]
  by_cases hx : pid = x <;> simp [hx]

theorem AccountsBut.insert (h : q.AccountsBut t pid) (hp : p.state ≠ .ready) :
    q.Accounts (t.insert pid p) := by
  intro level x
  rw [h, ProcessTable.share_insert, Process.share_of_not_ready hp]

/-- A new record of a process may stay in the queues of the old one if it is to be
queued in the same way. -/
theorem Accounts.insert (h : q.Accounts t) {old : Process} (hp : t.get? pid = some old)
    (hshare : ∀ level, p.share level = old.share level) : q.Accounts (t.insert pid p) := by
  intro level x
  rw [h, ProcessTable.share_insert]
  by_cases hx : pid = x
  · subst hx
    rw [if_pos rfl, hshare, ProcessTable.share_of_get? hp]
  · rw [if_neg hx]

theorem Accounts.of_share_eq (h : q.Accounts t) {u : ProcessTable}
    (hu : ∀ level pid, u.share level pid = t.share level pid) : q.Accounts u := by
  intro level x
  rw [h, hu]

/-! ## One entry for each process -/

theorem level_remove_of_not_mem {level : Priority} (h : pid ∉ q.level level) :
    (q.remove pid).level level = q.level level := by
  rw [level_remove, List.erase_of_not_mem h, ite_self]

theorem Accounts.occurrences_le_one (h : q.Accounts t) (pid : ProcessId) :
    q.occurrences pid ≤ 1 := by
  by_cases hmem : ∃ level, pid ∈ q.level level
  · obtain ⟨level, hmem⟩ := hmem
    obtain ⟨p, hp, hready, -⟩ := h.mem_level_iff.1 hmem
    exact Nat.le_of_eq (h.occurrences_of_ready hp hready)
  · have hzero : q.occurrences pid = 0 := by
      rw [occurrences, List.countP_eq_zero]
      intro entry hentry heq
      have hpid : entry.2 = pid := by simpa using heq
      exact hmem ⟨entry.1, hpid ▸ mem_entries_iff.1 hentry⟩
    omega

theorem Accounts.nodup_entries (h : q.Accounts t) : (q.entries.map (·.2)).Nodup := by
  rw [List.nodup_iff_count]
  intro pid
  rw [List.count, List.countP_map]
  exact h.occurrences_le_one pid

end ReadyQueues

end Timeshare
