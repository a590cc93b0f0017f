import Timeshare.Proofs.Policy.Aging
import Timeshare.Proofs.Scheduler.Operations
import Timeshare.Proofs.Table

/-!
# The scheduler between two operations

`Scheduler.Settled` is the condition in which every operation finds and leaves the
scheduler: nothing runs, the queues account for the process table, and no process
has a number that is still to be given away. The operations on processes are shown
to keep it here; dispatching follows with the machine.
-/

namespace Timeshare

namespace Scheduler

/-- The scheduler between two operations. -/
structure Settled (s : Scheduler) : Prop where
  accounts : s.queues.Accounts s.processes
  tame : ∀ pid p, s.processes.get? pid = some p → p.state ≠ .running ∧ pid < s.nextPid
  running_eq : s.running = none
  agesByRule : s.policy.AgesByRule

variable {s : Scheduler} {pid : ProcessId} {p : Process}

/-- Between two operations no process is running. -/
theorem Settled.ready_of_live (h : s.Settled) (hp : s.processes.get? pid = some p)
    (hwaiting : p.state ≠ .waiting) (hlive : p.state ≠ .terminated) : p.state = .ready := by
  cases hstate : p.state with
  | ready => rfl
  | running => exact absurd hstate (h.tame pid p hp).1
  | waiting => exact absurd hstate hwaiting
  | terminated => exact absurd hstate hlive

theorem settled_new {policy : Policy} (h : policy.AgesByRule) : (new policy).Settled := by
  refine ⟨ReadyQueues.accounts_empty, ?_, rfl, h⟩
  intro pid p hp
  cases hp

/-! ## Start and stop -/

theorem Settled.start (h : s.Settled) : s.start.state.Settled := by
  rw [state_start]
  exact ⟨h.accounts, h.tame, h.running_eq, h.agesByRule⟩

theorem Settled.stop (h : s.Settled) : s.stop.state.Settled := by
  rw [state_stop]
  exact ⟨h.accounts, h.tame, h.running_eq, h.agesByRule⟩

theorem Settled.honourStop (h : s.Settled) : s.honourStop.state.Settled := by
  rw [state_honourStop]
  exact ⟨h.accounts, h.tame, h.running_eq, h.agesByRule⟩

theorem Settled.setPolicy (h : s.Settled) {policy : Policy} (hp : policy.AgesByRule) :
    (s.setPolicy policy).state.Settled :=
  ⟨h.accounts, h.tame, h.running_eq, hp⟩

/-! ## Processes -/

/-- Another record of a process, with queues that account for it. -/
theorem Settled.refile (h : s.Settled) (hp : s.processes.get? pid = some p) {p' : Process}
    {s' : Scheduler} (hprocesses : s'.processes = s.processes.insert pid p')
    (haccounts : s'.queues.Accounts (s.processes.insert pid p')) (hstate : p'.state ≠ .running)
    (hrunning : s'.running = none) (hnext : s'.nextPid = s.nextPid)
    (hpolicy : s'.policy = s.policy) : s'.Settled := by
  refine ⟨?_, ?_, hrunning, ?_⟩
  · rw [hprocesses]
    exact haccounts
  · rw [hprocesses, hnext]
    exact Table.forall_get?_insert h.tame ⟨hstate, (h.tame pid p hp).2⟩
  · rw [hpolicy]
    exact h.agesByRule

/-- The next number to be given away is that of no process. -/
theorem Settled.get?_nextPid (h : s.Settled) : s.processes.get? s.nextPid = none := by
  cases hp : s.processes.get? s.nextPid with
  | none => rfl
  | some p => exact absurd (h.tame _ p hp).2 (Nat.lt_irrefl _)

theorem Settled.submitAt (h : s.Settled) (program : Program) (priority : Priority) :
    (s.submitAt program priority).state.Settled := by
  have hbut := h.accounts.but_of_share_eq_zero fun _ =>
    ProcessTable.share_of_absent h.get?_nextPid
  refine ⟨?_, ?_, h.running_eq, h.agesByRule⟩
  · have hready : (Process.submitted program priority s.clock).state = .ready := rfl
    exact hbut.pushBack hready
  · have htame : ∀ pid p, s.processes.get? pid = some p →
        p.state ≠ .running ∧ pid < s.nextPid + 1 :=
      fun pid p hp => ⟨(h.tame pid p hp).1, Nat.lt_succ_of_lt (h.tame pid p hp).2⟩
    refine Table.forall_get?_insert htame ⟨?_, Nat.lt_succ_self _⟩
    simp [Process.submitted]

theorem Settled.makeReady (h : s.Settled) (hp : s.processes.get? pid = some p)
    (hw : p.state = .waiting) (marked : Bool) :
    (s.makeReady pid { p with killRequested := marked }).Settled := by
  have hnot : p.state ≠ .ready := by simp [hw]
  have hzero : ∀ level, s.processes.share level pid = 0 := by
    intro level
    rw [ProcessTable.share_of_get? hp, Process.share_of_not_ready hnot]
  refine h.refile hp rfl ?_ (by simp) h.running_eq rfl rfl
  have hready : ({ p with
      killRequested := marked, state := .ready, readySince := s.clock } : Process).state =
        .ready := rfl
  exact (h.accounts.but_of_share_eq_zero hzero).pushBack hready

theorem Settled.wake (h : s.Settled) (pid : ProcessId) : (s.wake pid).state.Settled := by
  obtain ⟨-, hstate⟩ | ⟨p, hp, hw, -, hstate⟩ := wake_cases s pid
  · rw [hstate]
    exact h
  · rw [hstate]
    exact h.makeReady hp hw p.killRequested

theorem Settled.mark (h : s.Settled) (hp : s.processes.get? pid = some p) :
    (s.setProcess pid { p with killRequested := true }).Settled :=
  h.refile hp rfl (h.accounts.insert hp fun _ => rfl) (h.tame pid p hp).1 h.running_eq rfl rfl

theorem Settled.kill (h : s.Settled) (pid : ProcessId) : (s.kill pid).state.Settled := by
  obtain ⟨-, hstate⟩ | ⟨p, hp, hw, -, hstate⟩ | ⟨p, hp, -, -, -, hstate⟩ := kill_cases s pid
  · rw [hstate]
    exact h
  · rw [hstate]
    exact h.makeReady hp hw true
  · rw [hstate]
    exact h.mark hp

theorem Settled.reap (h : s.Settled) : s.reap.state.Settled := by
  refine ⟨h.accounts.of_share_eq fun level pid => ?_, ?_, h.running_eq, h.agesByRule⟩
  · simp only [Scheduler.reap, ProcessTable.share, Table.get?_filter]
    cases hp : s.processes.get? pid with
    | none => rfl
    | some p =>
        by_cases ht : p.state = .terminated
        · simp [Process.isTerminated, Process.share, Option.filter, ht]
        · simp [Process.isTerminated, Option.filter, ht]
  · intro pid p hp
    exact h.tame pid p (Table.get?_filter_eq_some_iff.1 hp).1

theorem Settled.beginTick (h : s.Settled) : s.beginTick.state.Settled := by
  refine ⟨h.agesByRule.accounts_age h.accounts _, ?_, h.running_eq, h.agesByRule⟩
  intro pid p hp
  have hsame : (s.processes.get? pid).map Process.state = some p.state := by
    rw [← h.agesByRule.map_get?_age (fun _ _ _ => rfl) s.queues s.processes (s.clock + 1) pid]
    exact congrArg _ hp
  obtain ⟨p₀, hp₀, hstate⟩ := Option.map_eq_some_iff.1 hsame
  rw [← hstate]
  exact h.tame pid p₀ hp₀

/-! ## Consistency -/

theorem Settled.consistent (h : s.Settled) : s.Consistent where
  entry_ready := fun _ _ hmem => h.accounts.mem_level_iff.1 (ReadyQueues.mem_entries_iff.1 hmem)
  ready_once := fun _ _ hp hr => h.accounts.occurrences_of_ready hp hr
  others_absent := fun _ _ hp hr => h.accounts.occurrences_of_not_ready hp hr
  running_held := fun pid p hp hr => absurd hr (h.tame pid p hp).1

/-- The check finds nothing wrong with queues and a process table that agree. -/
theorem Consistent.check_eq_ok (h : s.Consistent) : s.check = .ok () := by
  have hentries : s.queues.entries.findSome? s.entryFault? = none := by
    rw [List.findSome?_eq_none_iff]
    intro entry hentry
    obtain ⟨p, hp, hr, hl⟩ := h.entry_ready entry.1 entry.2 hentry
    simp [entryFault?, hp, hr, hl]
  have hprocesses : s.processes.entries.findSome? s.processFault? = none := by
    rw [List.findSome?_eq_none_iff]
    intro entry hentry
    have hp : s.processes.get? entry.1 = some entry.2 := s.processes.mem_entries_iff.1 hentry
    have hready := h.ready_once entry.1 entry.2 hp
    have hothers := h.others_absent entry.1 entry.2 hp
    have hrunning := h.running_held entry.1 entry.2 hp
    cases hstate : entry.2.state <;> simp_all [processFault?, isAccounted]
  simp [check, fault?, hentries, hprocesses]

end Scheduler

end Timeshare
