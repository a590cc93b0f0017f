import Timeshare.Proofs.Scheduler.Settled

/-!
# What the check finds

The check of a scheduler looks at the entries of the queues and then at the processes of the
table, and stops at the first that is wrong. Nothing is assumed of the scheduler here: its
queues, its table and its running slot may be anything. A process breaks the rules of the
bookkeeping in one of the ways of `Scheduler.Breaks`, one for each condition of
`Scheduler.Consistent`; an entry may moreover be that of no process at all. The two passes
together miss none of these (`Scheduler.consistent_of_fault?_eq_none`), and what they report
is one of them (`Scheduler.cause_of_fault?`).
-/

namespace Timeshare

namespace Scheduler

/-- The ways in which a process breaks the rules of the bookkeeping. -/
inductive Breaks (s : Scheduler) (pid : ProcessId) (p : Process) : Prop
  /-- It has an entry that is not that of a ready process at this level. -/
  | misplaced {level : Priority} (hqueued : (level, pid) ∈ s.queues.entries)
      (hwrong : p.state ≠ .ready ∨ p.priority ≠ level)
  /-- It is ready, and is not queued or is queued more than once. -/
  | miscounted (hready : p.state = .ready) (hcount : s.queues.occurrences pid ≠ 1)
  /-- It is not ready, and is queued. -/
  | intruding (hready : p.state ≠ .ready) (hcount : s.queues.occurrences pid ≠ 0)
  /-- It is running, and does not hold the processor. -/
  | unheld (hrunning : p.state = .running) (hslot : s.running ≠ some pid)

variable {s : Scheduler} {pid : ProcessId} {p : Process} {level : Priority}

theorem entryFault?_of_absent (hp : s.processes.get? pid = none) :
    s.entryFault? (level, pid) = some (.unknownProcess pid) := by
  simp only [entryFault?, hp]

theorem entryFault?_of_get? (hp : s.processes.get? pid = some p) :
    s.entryFault? (level, pid) =
      if p.state = .ready ∧ p.priority = level then none
      else some (.inconsistent pid p.state) := by
  simp only [entryFault?, hp]

theorem entryFault?_eq_none_iff :
    s.entryFault? (level, pid) = none ↔
      ∃ p, s.processes.get? pid = some p ∧ p.state = .ready ∧ p.priority = level := by
  cases hp : s.processes.get? pid with
  | none => simp [entryFault?_of_absent hp]
  | some p => simp [entryFault?_of_get? hp]

theorem isAccounted_eq_true_iff :
    s.isAccounted pid p = true ↔
      (p.state = .ready → s.queues.occurrences pid = 1) ∧
      (p.state ≠ .ready → s.queues.occurrences pid = 0) ∧
      (p.state = .running → s.running = some pid) := by
  rw [isAccounted]
  cases p.state <;> simp [and_comm]

theorem processFault?_eq_none_iff :
    s.processFault? (pid, p) = none ↔ s.isAccounted pid p = true := by
  simp [processFault?]

theorem fault?_eq_none_iff :
    s.fault? = none ↔
      (∀ level pid, (level, pid) ∈ s.queues.entries → s.entryFault? (level, pid) = none) ∧
      ∀ pid p, s.processes.get? pid = some p → s.processFault? (pid, p) = none := by
  simp only [fault?, Option.or_eq_none_iff, List.findSome?_eq_none_iff, Prod.forall,
    Table.mem_entries_iff]

/-- Where both passes find nothing, the queues and the table agree. -/
theorem consistent_of_fault?_eq_none (h : s.fault? = none) : s.Consistent := by
  obtain ⟨hentries, hprocesses⟩ := fault?_eq_none_iff.1 h
  have haccounted : ∀ pid p, s.processes.get? pid = some p → s.isAccounted pid p = true :=
    fun pid p hp => processFault?_eq_none_iff.1 (hprocesses pid p hp)
  exact {
    entry_ready := fun level pid hmem => entryFault?_eq_none_iff.1 (hentries level pid hmem)
    ready_once := fun pid p hp => (isAccounted_eq_true_iff.1 (haccounted pid p hp)).1
    others_absent := fun pid p hp => (isAccounted_eq_true_iff.1 (haccounted pid p hp)).2.1
    running_held := fun pid p hp => (isAccounted_eq_true_iff.1 (haccounted pid p hp)).2.2 }

theorem check_eq_ok_iff (s : Scheduler) : s.check = .ok () ↔ s.fault? = none := by
  rw [check]
  cases s.fault? <;> simp

theorem check_eq_error_iff {e : SchedulerError} : s.check = .error e ↔ s.fault? = some e := by
  rw [check]
  cases s.fault? <;> simp

/-! ## What is reported -/

/-- What is wrong with an entry is that there is no such process, or that the process breaks
the rules by it. -/
theorem cause_of_entryFault? {e : SchedulerError} (hqueued : (level, pid) ∈ s.queues.entries)
    (h : s.entryFault? (level, pid) = some e) :
    (e = .unknownProcess pid ∧ s.processes.get? pid = none) ∨
      ∃ p, e = .inconsistent pid p.state ∧ s.processes.get? pid = some p ∧ s.Breaks pid p := by
  cases hp : s.processes.get? pid with
  | none =>
      rw [entryFault?_of_absent hp] at h
      exact .inl ⟨(Option.some.inj h).symm, rfl⟩
  | some p =>
      rw [entryFault?_of_get? hp] at h
      by_cases hright : p.state = .ready ∧ p.priority = level
      · rw [if_pos hright] at h
        cases h
      · rw [if_neg hright] at h
        exact .inr ⟨p, (Option.some.inj h).symm, rfl,
          .misplaced hqueued (not_and_or.1 hright)⟩

theorem breaks_of_not_accounted (h : s.isAccounted pid p ≠ true) : s.Breaks pid p := by
  by_contra hnone
  refine h (isAccounted_eq_true_iff.2 ⟨fun hready => ?_, fun hready => ?_, fun hrunning => ?_⟩)
  · by_contra hcount
    exact hnone (.miscounted hready hcount)
  · by_contra hcount
    exact hnone (.intruding hready hcount)
  · by_contra hslot
    exact hnone (.unheld hrunning hslot)

theorem cause_of_processFault? {e : SchedulerError} (h : s.processFault? (pid, p) = some e) :
    e = .inconsistent pid p.state ∧ s.Breaks pid p := by
  rw [processFault?] at h
  by_cases haccounted : s.isAccounted pid p = true
  · rw [if_pos haccounted] at h
    cases h
  · rw [if_neg haccounted] at h
    exact ⟨(Option.some.inj h).symm, breaks_of_not_accounted haccounted⟩

/-- What the passes find is an entry of no process, or a process that breaks the rules. -/
theorem cause_of_fault? {e : SchedulerError} (h : s.fault? = some e) :
    (∃ level pid, e = .unknownProcess pid ∧ (level, pid) ∈ s.queues.entries ∧
      s.processes.get? pid = none) ∨
    ∃ pid p, e = .inconsistent pid p.state ∧ s.processes.get? pid = some p ∧ s.Breaks pid p := by
  obtain hentry | ⟨-, hprocess⟩ := Option.or_eq_some_iff.1 h
  · obtain ⟨⟨level, pid⟩, hqueued, hfault⟩ := List.exists_of_findSome?_eq_some hentry
    obtain ⟨he, hnone⟩ | hbreaks := cause_of_entryFault? hqueued hfault
    · exact .inl ⟨level, pid, he, hqueued, hnone⟩
    · exact .inr ⟨pid, hbreaks⟩
  · obtain ⟨⟨pid, p⟩, hmem, hfault⟩ := List.exists_of_findSome?_eq_some hprocess
    obtain ⟨he, hbreaks⟩ := cause_of_processFault? hfault
    exact .inr ⟨pid, p, he, s.processes.mem_entries_iff.1 hmem, hbreaks⟩

/-- The check decides whether the queues and the table agree, on every scheduler. If it reports
a number as unknown, that number is queued and there is no such process; if it reports a
process as inconsistent, the process is in the state that is reported and breaks one of the
rules; and it reports nothing else. -/
theorem check_decides_consistency (s : Scheduler) :
    (s.check = .ok () ↔ s.Consistent) ∧
    ∀ e, s.check = .error e →
      (∃ level pid, e = .unknownProcess pid ∧ (level, pid) ∈ s.queues.entries ∧
        s.processes.get? pid = none) ∨
      ∃ pid p, e = .inconsistent pid p.state ∧ s.processes.get? pid = some p ∧
        s.Breaks pid p := by
  refine ⟨?_, fun e h => cause_of_fault? (check_eq_error_iff.1 h)⟩
  exact ⟨fun h => consistent_of_fault?_eq_none (s.check_eq_ok_iff.1 h), Consistent.check_eq_ok⟩

/-- A ready process that is queued at its level, and at another one as well. -/
example :
    let s := (Scheduler.new (.roundRobin {})).submit (.ofList [.halt]) |>.state
    s.check = .ok () ∧
      { s with queues := s.queues.pushBack .lowest 1 }.check = .error (.inconsistent 1 .ready) := by
  exact ⟨rfl, rfl⟩

end Scheduler

end Timeshare
