import Timeshare.Scheduler.Basic

/-!
# What a dispatch comes to

A process that was taken out of its queue to be dispatched is filed back here:
`Scheduler.terminateMarked` if its termination was requested, `Scheduler.putBack` if
there was no power to run it, and `Scheduler.settle` after a run. A process that
halted or failed is terminated, one that gave up the processor waits, and one
whose slice expired is queued again at the level that the policy gives it.
-/

namespace Timeshare

/-! ## Events -/

namespace Event

def processKilled (pid : ProcessId) : Event where
  severity := .info
  source := .scheduler
  text := pid.text ++ " killed"

def processPutBack (pid : ProcessId) : Event where
  severity := .warn
  source := .scheduler
  text := pid.text ++ " not dispatched: cpu powered off"

def processHalted (pid : ProcessId) (cpuTime : Nat) : Event where
  severity := .info
  source := .scheduler
  text := pid.text ++ s!" halted after {cpuTime} instructions"

def processDemoted (pid : ProcessId) (old new : Priority) : Event where
  severity := .debug
  source := .scheduler
  text := pid.text ++ " demoted " ++ old.text ++ " -> " ++ new.text

def processFaulted (pid : ProcessId) (e : CpuError) : Event where
  severity := .warn
  source := .scheduler
  text := pid.text ++ " terminated by fault: " ++ e.message

end Event

namespace Scheduler

/-- Terminates a running process that was marked for it. -/
def terminateMarked (s : Scheduler) (pid : ProcessId) (p : Process) : Scheduler :=
  { s.setProcess pid { p with state := .terminated, fault := some .killed } with
    running := none
    stats := { s.stats with kills := s.stats.kills + 1 } }

/-- Puts a running process back at the head of its queue, as if it had not been
chosen. -/
def putBack (s : Scheduler) (pid : ProcessId) (p : Process) : Scheduler :=
  { s.setProcess pid { p with state := .ready } with
    running := none
    queues := s.queues.pushFront p.priority pid }

/-- The running process after its slice expired, with the level that the policy
gives it. A change of level starts the count of expirations anew. -/
def afterExpiry (s : Scheduler) (p : Process) : Process :=
  let p := { p with consecutiveExpirations := p.consecutiveExpirations + 1 }
  let level := s.policy.levelAfterExpiry p
  if level = p.priority then p else { p with priority := level, consecutiveExpirations := 0 }

/-- Queues a running process whose slice expired, at the end that the policy
asks for. -/
def requeue (s : Scheduler) (pid : ProcessId) (p : Process) : Scheduler :=
  let p := { p with state := .ready, readySince := s.clock }
  { s.setProcess pid p with
    running := none
    queues :=
      if s.policy.requeueAtHead p then s.queues.pushFront p.priority pid
      else s.queues.pushBack p.priority pid }

/-- Files a running process back after its run; the processor was powered. -/
def settle (s : Scheduler) (pid : ProcessId) (p : Process) (exit : Exit) :
    Reply Scheduler ProcessState :=
  let s := { s with stats := { s.stats with dispatches := s.stats.dispatches + 1 } }
  match exit with
  | .ok .halted =>
    ⟨.terminated, { s.setProcess pid { p with state := .terminated } with running := none },
      #[.processMoved pid p.state .terminated, .processHalted pid p.cpuTime]⟩
  | .ok .waiting =>
    ⟨.waiting,
      { s.setProcess pid { p with state := .waiting, consecutiveExpirations := 0 } with
        running := none },
      #[.processMoved pid p.state .waiting]⟩
  | .ok .sliceExpired =>
    let p' := s.afterExpiry p
    if p'.priority = p.priority then
      ⟨.ready, s.requeue pid p', #[.processMoved pid p.state .ready]⟩
    else
      let s := { s with stats := { s.stats with demotions := s.stats.demotions + 1 } }
      ⟨.ready, s.requeue pid p',
        #[.processDemoted pid p.priority p'.priority, .processMoved pid p.state .ready]⟩
  | .error e =>
    ⟨.terminated,
      { s.setProcess pid { p with state := .terminated, fault := some (.cpu e) } with
        running := none
        stats := { s.stats with faults := s.stats.faults + 1 } },
      #[.processMoved pid p.state .terminated, .processFaulted pid e]⟩

end Scheduler

end Timeshare
