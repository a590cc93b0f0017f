import Timeshare.Proofs.Machine.Dispatched
import Timeshare.Proofs.Scheduler.Settled

/-!
# The bookkeeping of the scheduler

Every tick leaves the scheduler settled, whatever the policy chooses and however the
dispatch ends (`Machine.settled_dispatched`, `Machine.settled_tick`), and so does every
other request. `Scheduler.Reachable` collects the schedulers that any requests lead to
from a new one. The processor and the memory are arbitrary before each of the
requests, for the scheduler does not own them, and the policy can be replaced before
each of them, so that it need not answer twice in the same way.
-/

namespace Timeshare

namespace Scheduler

variable {s : Scheduler} {pid : ProcessId} {p : Process}

theorem state_filed_ne_running (s : Scheduler) (p : Process) (exit : Exit) :
    (s.filed p exit).state ≠ .running := by
  rcases exit with e | outcome
  · simp [filed]
  · cases outcome <;> simp [filed]

/-- A process that was taken out of its queue is queued again if its slice expired. -/
theorem accounts_filedQueues (h : s.queues.AccountsBut s.processes pid) (p : Process)
    (exit : Exit) :
    (s.filedQueues pid p exit).Accounts (s.processes.insert pid (s.filed p exit)) := by
  rcases exit with e | outcome
  · have hnot : (s.filed p (.error e)).state ≠ .ready := by simp [filed]
    exact h.insert hnot
  · cases outcome with
    | halted =>
        have hnot : (s.filed p (.ok .halted)).state ≠ .ready := by simp [filed]
        exact h.insert hnot
    | waiting =>
        have hnot : (s.filed p (.ok .waiting)).state ≠ .ready := by simp [filed]
        exact h.insert hnot
    | sliceExpired =>
        have hready : (s.filed p (.ok .sliceExpired)).state = .ready := rfl
        rw [filedQueues]
        split
        · exact h.pushFront hready
        · exact h.pushBack hready

end Scheduler

namespace Machine

variable {m m' : Machine} {outcome : TickOutcome}

theorem settled_dispatched (h : m.scheduler.Settled) (hd : m.Dispatched outcome m') :
    m'.scheduler.Settled := by
  cases hd with
  | idle hchoice => exact ⟨h.accounts, h.tame, h.running_eq, h.agesByRule⟩
  | @discarded pid queues hchoice hready hqueues =>
      -- What is not ready is not queued, so the removals change nothing.
      have hzero : ∀ level, m.scheduler.processes.share level pid = 0 := by
        intro level
        cases hp : m.scheduler.processes.get? pid with
        | none => exact ProcessTable.share_of_absent hp
        | some p =>
            rw [ProcessTable.share_of_get? hp, Process.share_of_not_ready (hready p hp)]
      have honce := (h.accounts.remove pid).accounts hzero
      refine ⟨?_, h.tame, rfl, h.agesByRule⟩
      rcases hqueues with rfl | rfl
      · exact honce
      · exact (honce.remove pid).accounts hzero
  | @killed pid p hchoice hp hready hkill =>
      refine h.refile hp rfl ?_ (by simp) rfl rfl rfl
      exact (h.accounts.remove pid).insert (by simp)
  | @putBack pid p hchoice hp hready hkill hpower =>
      have hback : ({ p with state := .ready } : Process).state = .ready := rfl
      exact h.refile hp rfl ((h.accounts.remove pid).pushFront hback) (by simp) rfl rfl rfl
  | @ran pid p hchoice hp hready hkill hpower =>
      rw [Scheduler.state_settle]
      have hbut : (m.scheduler.take pid).queues.AccountsBut
          (m.scheduler.take pid).processes pid := h.accounts.remove pid
      exact h.refile hp rfl (Scheduler.accounts_filedQueues hbut _ _)
        (Scheduler.state_filed_ne_running _ _ _) rfl rfl rfl

theorem settled_tick (m : Machine) (h : m.scheduler.Settled) : m.tick.state.scheduler.Settled := by
  rcases ticked_tick m with ⟨-, -, hstate⟩ | ⟨-, hd⟩
  · rw [hstate]
    exact h.honourStop
  · exact settled_dispatched h.honourStop.beginTick hd

end Machine

/-- The policies that the request hands over age by the rule. -/
def MachineRequest.AgesByRule : MachineRequest → Prop
  | .setPolicy policy => policy.AgesByRule
  | _ => True

theorem Machine.settled_after {m : Machine} (h : m.scheduler.Settled) {request : MachineRequest}
    (hr : request.AgesByRule) : (m.after request).scheduler.Settled := by
  cases request with
  | power on | memory request => exact h
  | start => exact h.start
  | stop => exact h.stop
  | requestStop => exact ⟨h.accounts, h.tame, h.running_eq, h.agesByRule⟩
  | submit program => exact h.submitAt program .normal
  | submitAt program priority => exact h.submitAt program priority
  | wake pid => exact h.wake pid
  | kill pid => exact h.kill pid
  | reap => exact h.reap
  | setPolicy policy => exact h.setPolicy hr
  | tick => exact settled_tick m h
  | run maxTicks =>
      exact run_induction (P := fun m => m.scheduler.Settled) settled_tick h maxTicks

namespace Scheduler

/-- The schedulers that requests lead to from a new one, with any processor and any
memory at each of the requests. -/
inductive Reachable : Scheduler → Prop
  | new {policy : Policy} (h : policy.AgesByRule) : Reachable (.new policy)
  | after {s : Scheduler} (h : Reachable s) (cpu : Cpu) (memory : Memory)
      {request : MachineRequest} (hr : request.AgesByRule) :
      Reachable (({ scheduler := s, cpu, memory } : Machine).after request).scheduler

variable {s : Scheduler}

theorem Reachable.settled (h : s.Reachable) : s.Settled := by
  -- The processor and the memory are free at each step: the invariant is the scheduler's.
  induction h with
  | new h => exact settled_new h
  | after h cpu memory hr ih => exact Machine.settled_after ih hr

theorem Reachable.afterAll {m : Machine} (h : m.scheduler.Reachable)
    {requests : List MachineRequest} (hr : ∀ request ∈ requests, request.AgesByRule) :
    (m.afterAll requests).scheduler.Reachable := by
  induction requests generalizing m with
  | nil => exact h
  | cons request rest ih =>
      obtain ⟨hfirst, hrest⟩ := List.forall_mem_cons.1 hr
      exact ih (h.after m.cpu m.memory hfirst) hrest

/-- Whatever was requested and whatever the policies answered: nothing runs, the ready
processes are queued once and at their own levels, nothing else is queued, and no
process has a number that is still to be given away. So the check finds nothing. -/
theorem Reachable.bookkeeping (h : s.Reachable) :
    s.running = none ∧
      (∀ pid p, s.processes.get? pid = some p → p.state ≠ .running ∧ pid < s.nextPid) ∧
      (∀ pid p, s.processes.get? pid = some p → p.state = .ready →
        s.queues.occurrences pid = 1 ∧ pid ∈ s.queues.level p.priority) ∧
      (∀ level pid, pid ∈ s.queues.level level →
        ∃ p, s.processes.get? pid = some p ∧ p.state = .ready) ∧
      s.check = .ok () := by
  have hs := h.settled
  refine ⟨hs.running_eq, hs.tame, ?_, ?_, hs.consistent.check_eq_ok⟩
  · intro pid p hp hready
    exact ⟨hs.accounts.occurrences_of_ready hp hready,
      hs.accounts.mem_level_iff.2 ⟨p, hp, hready, rfl⟩⟩
  · intro level pid hmem
    obtain ⟨p, hp, hready, -⟩ := hs.accounts.mem_level_iff.1 hmem
    exact ⟨p, hp, hready⟩

/-- A policy that insists on a process that does not exist. -/
theorem Reachable.bookkeeping_of_unknown_choice :
    let policy := (Policy.roundRobin {}).override { choice := some 42 }
    let m := ({ scheduler := .new policy } : Machine).afterAll
      [.submit (.ofList [.halt]), .start, .tick]
    m.scheduler.Reachable ∧ m.scheduler.stats.ticks = 1 ∧ m.scheduler.queues.size = 1 ∧
      m.scheduler.check = .ok () := by
  intro policy m
  have hpolicy : policy.AgesByRule :=
    (PolicyKind.agesByRule_build .roundRobin {}).override rfl
  have hm : m.scheduler.Reachable := by
    refine Reachable.afterAll (.new hpolicy) fun request hrequest => ?_
    simp only [List.mem_cons, List.not_mem_nil, or_false] at hrequest
    rcases hrequest with rfl | rfl | rfl <;> trivial
  obtain ⟨-, -, -, -, hcheck⟩ := Reachable.bookkeeping hm
  exact ⟨hm, by decide, by decide, hcheck⟩

end Scheduler

end Timeshare
