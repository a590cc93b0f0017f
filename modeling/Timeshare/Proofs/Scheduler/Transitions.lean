import Timeshare.Proofs.Scheduler.Calls

/-!
# Transitions

A process may move from state to state as `ProcessState.canMoveTo` says. The operations do not
ask it. A dispatch asks whether the process is ready, which comes to the same
(`ProcessState.canMoveTo_running_iff`); a process is woken if it waits, and after a run it is
filed in a state that depends on how the run ended. So every change of a record is allowed: a call
leaves the state of a process, moves it once, or moves it twice by way of the running state
(`ProcessState.Goes`, `Scheduler.Called.goes`), and a run of ticks is no exception.
-/

namespace Timeshare

namespace ProcessState

variable {old new : ProcessState}

theorem canMoveTo_running_iff : old.canMoveTo running = true ↔ old = ready := by
  cases old <;> simp [canMoveTo]

/-- A running process may be filed in any other state. -/
theorem canMoveTo_of_running (h : new ≠ running) : running.canMoveTo new = true := by
  cases new with
  | running => exact absurd rfl h
  | ready | waiting | terminated => rfl

/-- A process may be started in the first state and stop running in the second one. -/
def Runs (old new : ProcessState) : Prop :=
  old.canMoveTo running = true ∧ running.canMoveTo new = true

/-- What an operation does to the state of a process. -/
inductive Goes : ProcessState → ProcessState → Prop
  | stays (state : ProcessState) : Goes state state
  | moves {old new : ProcessState} (h : old.canMoveTo new = true) : Goes old new
  | runs {old new : ProcessState} (h : old.Runs new) : Goes old new

end ProcessState

namespace Process

variable {pid : ProcessId} {p q : Process} {outcome : TickOutcome} {outcomes : List TickOutcome}

theorem Handled.goes (h : p.Handled q) : p.state.Goes q.state := by
  cases h with
  | kept | marked => exact .stays p.state
  | readied hwaiting =>
      rw [hwaiting]
      exact .moves rfl

theorem Dispatched.runs (h : p.Dispatched pid outcome q) : p.state.Runs q.state := by
  refine ⟨ProcessState.canMoveTo_running_iff.2 h.ready, ProcessState.canMoveTo_of_running ?_⟩
  cases h with
  | killed => simp
  | putBack hready => simp [hready]
  | ran hready hkill s => exact s.state_filed_ne_running _ _

theorem Ticked.runs (h : p.Ticked pid outcome q) : q.state = p.state ∨ p.state.Runs q.state := by
  cases h with
  | passed hraised => exact .inl hraised.state_eq
  | chosen hraised hd => exact .inr (hraised.state_eq ▸ hd.runs)

/-- Ticks one after the other come to one tick, for each of them starts and stops the process
that it chooses. -/
theorem TickedAll.runs (h : p.TickedAll pid outcomes q) :
    q.state = p.state ∨ p.state.Runs q.state := by
  induction h with
  | nil => exact .inl rfl
  | snoc hfirst hlast ih =>
      obtain hstays | hruns := hlast.runs
      · rwa [hstays]
      · obtain hsame | hbefore := ih
        · exact .inr (hsame ▸ hruns)
        · exact .inr ⟨hbefore.1, hruns.2⟩

theorem TickedAll.goes (h : p.TickedAll pid outcomes q) : p.state.Goes q.state := by
  obtain hsame | hruns := h.runs
  · rw [hsame]
    exact .stays p.state
  · exact .runs hruns

end Process

namespace Scheduler

variable {s s' : Scheduler} {pid : ProcessId} {p q : Process} {outcomes : List TickOutcome}
  {answer : MachineAnswer}

/-- A call changes the state of a process by allowed moves only. -/
theorem Called.goes (h : s.Called s' answer outcomes) (hs : s.Settled)
    (hp : s.processes.get? pid = some p) (hq : s'.processes.get? pid = some q) :
    p.state.Goes q.state := by
  cases h with
  | submitted hprocesses =>
      rw [hprocesses, Table.get?_insert_of_ne _ (Nat.ne_of_gt (hs.tame pid p hp).2), hp] at hq
      cases hq
      exact .stays p.state
  | reaped =>
      have hkept := (Table.get?_filter_eq_some_iff.1 hq).1
      rw [hp] at hkept
      cases hkept
      exact .stays p.state
  | handled hrelated =>
      obtain ⟨q', hq', hpq⟩ := hrelated.exists_get? hp
      rw [hq] at hq'
      cases hq'
      exact hpq.goes
  | ticked hrelated =>
      obtain ⟨q', hq', hpq⟩ := hrelated.exists_get? hp
      rw [hq] at hq'
      cases hq'
      exact hpq.goes

end Scheduler

end Timeshare
