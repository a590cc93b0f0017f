/-!
# Process states

A process is ready, running, waiting or terminated. Only a ready process is
started, only a running one stops running, and only a waiting one is woken;
nothing leads out of the terminated state.
-/

namespace Timeshare

/-- The scheduling state of a process. -/
inductive ProcessState
  | ready
  | running
  | waiting
  | terminated
  deriving DecidableEq

namespace ProcessState

/-- The name of a state in messages. -/
def name : ProcessState → String
  | ready => "Ready"
  | running => "Running"
  | waiting => "Waiting"
  | terminated => "Terminated"

/-- Whether a process may move from one state to the other. -/
def canMoveTo : ProcessState → ProcessState → Bool
  | ready, running => true
  | running, ready => true
  | running, waiting => true
  | running, terminated => true
  | waiting, ready => true
  | _, _ => false

/-- A process never leaves the terminated state. -/
theorem canMoveTo_terminated (new : ProcessState) : terminated.canMoveTo new = false := by
  cases new <;> rfl

/-- A process terminates only while it runs. -/
theorem canMoveTo_eq_true_terminated {old : ProcessState}
    (h : old.canMoveTo terminated = true) : old = running := by
  cases old <;> simp_all [canMoveTo]

end ProcessState

end Timeshare
