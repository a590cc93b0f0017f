import Timeshare.Scheduler.Basic

/-!
# What an operation on the scheduler can do

Starting and stopping set two flags. A process that is woken or killed is left alone,
made ready, or marked; `Scheduler.wake_cases` and `Scheduler.kill_cases` say when each of
these happens and what the answer is then.
-/

namespace Timeshare

namespace Scheduler

theorem state_start (s : Scheduler) :
    s.start.state = { s with stopRequested := false, started := true } := by
  rw [start]
  split
  next h => rw [← h]
  next => rfl

theorem state_stop (s : Scheduler) : s.stop.state = { s with started := false } := by
  rw [stop]
  split
  next => rfl
  next h =>
    have hs : s.started = false := by simpa using h
    rw [← hs]

theorem state_honourStop (s : Scheduler) :
    s.honourStop.state =
      { s with stopRequested := false, started := s.started && !s.stopRequested } := by
  rw [honourStop]
  split
  next h => simp [state_stop, h]
  next h =>
    have hs : s.stopRequested = false := by simpa using h
    simp only [hs, Bool.not_false, Bool.and_true]
    rw [← hs]

@[simp] theorem processes_start (s : Scheduler) : s.start.state.processes = s.processes := by
  rw [state_start]

@[simp] theorem processes_stop (s : Scheduler) : s.stop.state.processes = s.processes := by
  rw [state_stop]

@[simp] theorem processes_honourStop (s : Scheduler) :
    s.honourStop.state.processes = s.processes := by
  rw [state_honourStop]

/-- A process is woken if it waits, and otherwise nothing happens. -/
theorem wake_cases (s : Scheduler) (pid : ProcessId) :
    ((∀ p, s.processes.get? pid = some p → p.state ≠ .waiting) ∧ (s.wake pid).state = s) ∨
    (∃ p, s.processes.get? pid = some p ∧ p.state = .waiting ∧ (s.wake pid).result = .ok () ∧
      (s.wake pid).state = s.makeReady pid p) := by
  rw [wake]
  cases hp : s.processes.get? pid with
  | none =>
      refine .inl ⟨?_, rfl⟩
      intro p h
      cases h
  | some p =>
      by_cases hw : p.state = .waiting
      · simp only [if_pos hw, true_and]
        exact .inr ⟨p, rfl, hw, rfl⟩
      · simp only [if_neg hw]
        refine .inl ⟨?_, trivial⟩
        intro q h
        cases h
        exact hw

/-- A process that is killed is made ready if it waits and marked if it is ready or
running; one that has terminated or does not exist is left alone. -/
theorem kill_cases (s : Scheduler) (pid : ProcessId) :
    ((∀ p, s.processes.get? pid = some p → p.state = .terminated) ∧ (s.kill pid).state = s) ∨
    (∃ p, s.processes.get? pid = some p ∧ p.state = .waiting ∧ (s.kill pid).result = .ok () ∧
      (s.kill pid).state = s.makeReady pid { p with killRequested := true }) ∨
    (∃ p, s.processes.get? pid = some p ∧ p.state ≠ .waiting ∧ p.state ≠ .terminated ∧
      (s.kill pid).result = .ok () ∧
      (s.kill pid).state = s.setProcess pid { p with killRequested := true }) := by
  rw [kill]
  cases hp : s.processes.get? pid with
  | none =>
      refine .inl ⟨?_, rfl⟩
      intro p h
      cases h
  | some p =>
      obtain ⟨priority, basePriority, state, program, context, cpuTime, dispatches, readySince,
        expirations, killRequested, fault⟩ := p
      cases state with
      | ready | running => exact .inr (.inr ⟨_, rfl, by simp, by simp, rfl, rfl⟩)
      | waiting => exact .inr (.inl ⟨_, rfl, rfl, rfl, rfl⟩)
      | terminated =>
          refine .inl ⟨?_, rfl⟩
          intro q h
          cases h
          rfl

end Scheduler

end Timeshare
