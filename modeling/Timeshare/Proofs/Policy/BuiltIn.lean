import Timeshare.Policy.Standard
import Timeshare.Proofs.Scheduler.Settled

/-!
# The choices of the built-in policies

A built-in policy chooses a process that is queued, and on a settled scheduler such a
process is ready (`Scheduler.Settled.ready_of_choice?`). So it never chooses a process
that cannot be dispatched. As long as a process is ready it does choose one
(`Scheduler.Settled.exists_choice?`), and the slice that it gives is at least the base
quantum (`PolicyKind.le_timeSlice`).
-/

namespace Timeshare

/-- The policy is one of those of the machine. -/
def Policy.BuiltIn (policy : Policy) : Prop := ∃ kind params, policy = PolicyKind.build kind params

theorem Policy.BuiltIn.agesByRule {policy : Policy} (h : policy.BuiltIn) : policy.AgesByRule := by
  obtain ⟨kind, params, rfl⟩ := h
  exact kind.agesByRule_build params

namespace ReadyQueues

variable {q : ReadyQueues} {pid : ProcessId}

theorem mem_level_of_head? (h : q.head? = some pid) : ∃ level, pid ∈ q.level level := by
  obtain ⟨level, -, hhead⟩ := Option.bind_eq_some_iff.1 h
  exact ⟨level, List.mem_of_head? hhead⟩

theorem mem_level_of_contains (h : q.contains pid = true) : ∃ level, pid ∈ q.level level := by
  obtain ⟨level, hlevel⟩ := Option.isSome_iff_exists.1 h
  exact ⟨level, mem_of_levelOf? hlevel⟩

theorem exists_head? {level : Priority} (h : pid ∈ q.level level) :
    ∃ other, q.head? = some other := by
  have hnonempty : (!(q.level level).isEmpty) = true := by
    simpa using List.ne_nil_of_mem h
  obtain ⟨highest, hhighest⟩ : ∃ highest, q.highest? = some highest :=
    Option.isSome_iff_exists.1 (List.find?_isSome.2 ⟨level, Priority.mem_all level, hnonempty⟩)
  have hne : q.level highest ≠ [] := by
    simpa using List.find?_some hhighest
  refine ⟨(q.level highest).head hne, ?_⟩
  rw [head?, hhighest]
  exact List.head?_eq_some_head hne

theorem contains_of_mem_level {level : Priority} (h : pid ∈ q.level level) :
    q.contains pid = true := by
  rw [contains, Option.isSome_iff_ne_none]
  exact fun hnone => levelOf?_eq_none_iff.1 hnone level h

end ReadyQueues

theorem Policy.mem_level_of_leastRemaining {q : ReadyQueues} {t : ProcessTable} {pid : ProcessId}
    (h : leastRemaining q t = some pid) : ∃ level, pid ∈ q.level level := by
  obtain ⟨entry, hleast, rfl⟩ := Option.map_eq_some_iff.1 h
  have hmem := (List.mem_filter.1 (List.minOn?_mem hleast)).2
  exact ReadyQueues.mem_level_of_contains hmem

theorem Policy.BuiltIn.mem_level_of_select {policy : Policy} {q : ReadyQueues} {t : ProcessTable}
    {pid : ProcessId} (h : policy.BuiltIn) (hselect : policy.select q t = some pid) :
    ∃ level, pid ∈ q.level level := by
  obtain ⟨kind, params, rfl⟩ := h
  cases kind with
  | roundRobin | priorityAging | realTime => exact ReadyQueues.mem_level_of_head? hselect
  | shortestJobFirst => exact mem_level_of_leastRemaining hselect

theorem Scheduler.Settled.ready_of_choice? {s : Scheduler} {pid : ProcessId} (h : s.Settled)
    (hpolicy : s.policy.BuiltIn) (hchoice : s.choice? = some pid) :
    ∃ p, s.processes.get? pid = some p ∧ p.state = .ready := by
  obtain ⟨level, hmem⟩ := hpolicy.mem_level_of_select hchoice
  obtain ⟨p, hp, hready, -⟩ := h.accounts.mem_level_iff.1 hmem
  exact ⟨p, hp, hready⟩

theorem Policy.exists_leastRemaining {q : ReadyQueues} {t : ProcessTable} {pid : ProcessId}
    {p : Process} {level : Priority} (h : pid ∈ q.level level) (hp : t.get? pid = some p) :
    ∃ other, leastRemaining q t = some other := by
  have hmem : (pid, p) ∈ t.entries.filter fun e => q.contains e.1 :=
    List.mem_filter.2 ⟨t.mem_entries_iff.2 hp, ReadyQueues.contains_of_mem_level h⟩
  obtain ⟨entry, hentry⟩ := Option.isSome_iff_exists.1
    (List.isSome_minOn?_of_mem (f := fun e : ProcessId × Process => e.2.remainingEstimate) hmem)
  exact ⟨entry.1, Option.map_eq_some_iff.2 ⟨entry, hentry, rfl⟩⟩

/-- A built-in policy leaves the processor to somebody as long as a process is ready. -/
theorem Scheduler.Settled.exists_choice? {s : Scheduler} {pid : ProcessId} {p : Process}
    (h : s.Settled) (hpolicy : s.policy.BuiltIn) (hp : s.processes.get? pid = some p)
    (hready : p.state = .ready) : ∃ other, s.choice? = some other := by
  have hmem := h.accounts.mem_level_iff.2 ⟨p, hp, hready, rfl⟩
  obtain ⟨kind, params, heq⟩ := hpolicy
  rw [choice?, heq]
  cases kind with
  | roundRobin | priorityAging | realTime => exact ReadyQueues.exists_head? hmem
  | shortestJobFirst => exact Policy.exists_leastRemaining hmem hp

theorem PolicyKind.le_timeSlice (kind : PolicyKind) (params : PolicyParams) (p : Process) :
    params.baseQuantum ≤ (kind.build params).timeSlice p := by
  have hlevel : ∀ level, params.baseQuantum ≤ params.levelSlice level :=
    fun level => Nat.le_mul_of_pos_right _ (Nat.succ_pos _)
  cases kind with
  | roundRobin | priorityAging => exact hlevel p.priority
  | shortestJobFirst => exact Nat.le_refl _
  | realTime =>
      simp only [build, Policy.realTime, PolicyParams.realTimeSlice]
      split
      · exact hlevel .lowest
      · exact hlevel p.priority

end Timeshare
