import Timeshare.Proofs.Machine.Dispatched
import Timeshare.Proofs.Policy.Timeless
import Timeshare.Proofs.Scheduler.Settled

/-!
# Schedulers that are the same but for the time

Two schedulers that differ only in the logical time, and in what they keep of it, answer every
operation in the same way and go on to differ only in the time (`Scheduler.SameUpToTime`). The
order within their queues need be the same only under a policy to which it matters.
-/

namespace Timeshare

/-- The counters of the scheduler without that of the ticks. -/
def SchedulerStats.timeless (stats : SchedulerStats) : SchedulerStats := { stats with ticks := 0 }

namespace Scheduler

/-- The schedulers differ only in the time: in the logical time, the number of ticks, and the
ticks at which the processes became ready. Their queues are the same if the order in them
matters. -/
structure SameUpToTime (ordered : Prop) (s s' : Scheduler) : Prop where
  policy_eq : s.policy = s'.policy
  processes : s.processes.SameUpToTime s'.processes
  queues_eq : ordered → s.queues = s'.queues
  running_eq : s.running = s'.running
  nextPid_eq : s.nextPid = s'.nextPid
  started_eq : s.started = s'.started
  stopRequested_eq : s.stopRequested = s'.stopRequested
  stats_eq : s.stats.timeless = s'.stats.timeless

namespace SameUpToTime

variable {ordered : Prop} {s s' : Scheduler} {pid : ProcessId} {p p' : Process}

theorem refl (ordered : Prop) (s : Scheduler) : s.SameUpToTime ordered s :=
  ⟨rfl, rfl, fun _ => rfl, rfl, rfl, rfl, rfl, rfl⟩

theorem symm (h : s.SameUpToTime ordered s') : s'.SameUpToTime ordered s :=
  ⟨h.policy_eq.symm, h.processes.symm, fun ho => (h.queues_eq ho).symm, h.running_eq.symm,
    h.nextPid_eq.symm, h.started_eq.symm, h.stopRequested_eq.symm, h.stats_eq.symm⟩

theorem trans {s₁ : Scheduler} (h : s.SameUpToTime ordered s') (h₁ : s'.SameUpToTime ordered s₁) :
    s.SameUpToTime ordered s₁ :=
  ⟨h.policy_eq.trans h₁.policy_eq, h.processes.trans h₁.processes,
    fun ho => (h.queues_eq ho).trans (h₁.queues_eq ho), h.running_eq.trans h₁.running_eq,
    h.nextPid_eq.trans h₁.nextPid_eq, h.started_eq.trans h₁.started_eq,
    h.stopRequested_eq.trans h₁.stopRequested_eq, h.stats_eq.trans h₁.stats_eq⟩

/-! ## Start and stop -/

theorem start (h : s.SameUpToTime ordered s') :
    s.start.state.SameUpToTime ordered s'.start.state := by
  rw [state_start, state_start]
  exact { h with started_eq := rfl, stopRequested_eq := rfl }

theorem stop (h : s.SameUpToTime ordered s') :
    s.stop.state.SameUpToTime ordered s'.stop.state := by
  rw [state_stop, state_stop]
  exact { h with started_eq := rfl }

theorem requestStop (h : s.SameUpToTime ordered s') :
    s.requestStop.SameUpToTime ordered s'.requestStop :=
  { h with stopRequested_eq := rfl }

theorem honourStop (h : s.SameUpToTime ordered s') :
    s.honourStop.state.SameUpToTime ordered s'.honourStop.state := by
  rw [state_honourStop, state_honourStop, h.started_eq, h.stopRequested_eq]
  exact { h with started_eq := rfl, stopRequested_eq := rfl }

/-! ## Processes -/

theorem setProcess (h : s.SameUpToTime ordered s') (pid : ProcessId)
    (hp : p.timeless = p'.timeless) :
    (s.setProcess pid p).SameUpToTime ordered (s'.setProcess pid p') :=
  { h with processes := h.processes.insert pid hp }

theorem submitAt (h : s.SameUpToTime ordered s') (program : Program) (priority : Priority) :
    (s.submitAt program priority).result = (s'.submitAt program priority).result ∧
      (s.submitAt program priority).state.SameUpToTime ordered
        (s'.submitAt program priority).state := by
  refine ⟨h.nextPid_eq, ?_⟩
  simp only [Scheduler.submitAt, h.nextPid_eq]
  exact { h with
    processes := h.processes.insert s'.nextPid rfl
    queues_eq := fun ho => congrArg (·.pushBack priority s'.nextPid) (h.queues_eq ho)
    nextPid_eq := rfl }

theorem makeReady (h : s.SameUpToTime ordered s') (pid : ProcessId) (p : Process) (since : Nat) :
    (s.makeReady pid p).SameUpToTime ordered
      (s'.makeReady pid { p with readySince := since }) :=
  { h with
    processes := h.processes.insert pid rfl
    queues_eq := fun ho => congrArg (·.pushBack p.priority pid) (h.queues_eq ho) }

/-- Both tables have the same process, up to the tick at which it became ready, or neither has
one. -/
theorem get?_cases (h : s.SameUpToTime ordered s') (pid : ProcessId) :
    (s.processes.get? pid = none ∧ s'.processes.get? pid = none) ∨
      ∃ p since, s.processes.get? pid = some p ∧
        s'.processes.get? pid = some { p with readySince := since } := by
  cases hp : s.processes.get? pid with
  | none => exact .inl ⟨rfl, h.processes.get?_eq_none hp⟩
  | some p =>
      obtain ⟨p', hp', hsame⟩ := h.processes.get? hp
      obtain ⟨since, rfl⟩ := Process.exists_of_timeless_eq hsame
      exact .inr ⟨p, since, rfl, hp'⟩

theorem wake (h : s.SameUpToTime ordered s') (pid : ProcessId) :
    (s.wake pid).result = (s'.wake pid).result ∧
      (s.wake pid).state.SameUpToTime ordered (s'.wake pid).state := by
  obtain ⟨hp, hp'⟩ | ⟨p, since, hp, hp'⟩ := h.get?_cases pid
  · simp only [Scheduler.wake, hp, hp']
    exact ⟨trivial, h⟩
  · simp only [Scheduler.wake, hp, hp']
    split
    · exact ⟨rfl, h.makeReady pid p since⟩
    · exact ⟨rfl, h⟩

theorem kill (h : s.SameUpToTime ordered s') (pid : ProcessId) :
    (s.kill pid).result = (s'.kill pid).result ∧
      (s.kill pid).state.SameUpToTime ordered (s'.kill pid).state := by
  obtain ⟨hp, hp'⟩ | ⟨p, since, hp, hp'⟩ := h.get?_cases pid
  · simp only [Scheduler.kill, hp, hp']
    exact ⟨trivial, h⟩
  · simp only [Scheduler.kill, hp, hp']
    cases p.state with
    | terminated => exact ⟨rfl, h⟩
    | waiting => exact ⟨rfl, h.makeReady pid { p with killRequested := true } since⟩
    | ready | running => exact ⟨rfl, h.setProcess pid rfl⟩

theorem reap (h : s.SameUpToTime ordered s') :
    s.reap.result = s'.reap.result ∧ s.reap.state.SameUpToTime ordered s'.reap.state :=
  ⟨(h.processes.filter fun _ => rfl).snapshots_eq,
    { h with processes := h.processes.filter fun _ => rfl }⟩

/-! ## Dispatches -/

theorem take (h : s.SameUpToTime ordered s') (pid : ProcessId) :
    (s.take pid).SameUpToTime ordered (s'.take pid) :=
  { h with
    queues_eq := fun ho => congrArg (·.remove pid) (h.queues_eq ho)
    running_eq := rfl }

theorem terminateMarked (h : s.SameUpToTime ordered s') (pid : ProcessId) (p : Process)
    (since : Nat) :
    (s.terminateMarked pid p).SameUpToTime ordered
      (s'.terminateMarked pid { p with readySince := since }) :=
  { h with
    processes := h.processes.insert pid rfl
    running_eq := rfl
    stats_eq := congrArg (fun stats => { stats with kills := stats.kills + 1 }) h.stats_eq }

theorem putBack (h : s.SameUpToTime ordered s') (pid : ProcessId) (p : Process) (since : Nat) :
    (s.putBack pid p).SameUpToTime ordered (s'.putBack pid { p with readySince := since }) :=
  { h with
    processes := h.processes.insert pid rfl
    queues_eq := fun ho => congrArg (·.pushFront p.priority pid) (h.queues_eq ho)
    running_eq := rfl }

theorem timeless_filed (h : s.SameUpToTime ordered s') (hpolicy : s.policy.IgnoresTime ordered)
    (p : Process) (since : Nat) (exit : Exit) :
    (s.filed p exit).timeless = (s'.filed { p with readySince := since } exit).timeless := by
  rcases exit with e | outcome
  · rfl
  · cases outcome with
    | halted | waiting => rfl
    | sliceExpired =>
        have hlevel : s'.policy.levelAfterExpiry
            { p with
              readySince := since
              consecutiveExpirations := p.consecutiveExpirations + 1 } =
            s.policy.levelAfterExpiry
              { p with consecutiveExpirations := p.consecutiveExpirations + 1 } := by
          rw [← h.policy_eq]
          exact hpolicy.level_congr rfl
        simp only [filed, afterExpiry, hlevel]
        split <;> rfl

theorem settle (h : s.SameUpToTime ordered s') (hpolicy : s.policy.IgnoresTime ordered)
    (pid : ProcessId) (p : Process) (since : Nat) (exit : Exit) :
    (s.settle pid p exit).state.SameUpToTime ordered
      (s'.settle pid { p with readySince := since } exit).state := by
  have hfiled := h.timeless_filed hpolicy p since exit
  have hlevel : (s.filed p exit).priority =
      (s'.filed { p with readySince := since } exit).priority :=
    (congrArg Process.priority hfiled :)
  have hrequeue : s.policy.requeueAtHead (s.filed p exit) =
      s'.policy.requeueAtHead (s'.filed { p with readySince := since } exit) := by
    rw [← h.policy_eq]
    exact hpolicy.requeue_congr hfiled
  rw [state_settle, state_settle]
  refine { h with
    processes := h.processes.insert pid hfiled
    queues_eq := fun ho => ?_
    running_eq := rfl
    stats_eq := ?_ }
  · simp only [filedQueues, hlevel, hrequeue, h.queues_eq ho]
  · rcases exit with e | outcome
    · exact congrArg (fun stats => { stats with
        dispatches := stats.dispatches + 1
        faults := stats.faults + 1 }) h.stats_eq
    · cases outcome with
      | halted | waiting =>
          exact congrArg (fun stats => { stats with dispatches := stats.dispatches + 1 }) h.stats_eq
      | sliceExpired =>
          simp only [filedStats, hlevel]
          split
          · exact congrArg (fun stats => { stats with dispatches := stats.dispatches + 1 })
              h.stats_eq
          · exact congrArg (fun stats => { stats with
              dispatches := stats.dispatches + 1
              demotions := stats.demotions + 1 }) h.stats_eq

end SameUpToTime

variable {ordered : Prop} {s : Scheduler} {pid : ProcessId} {p : Process}

/-- Without aging, the beginning of a tick advances the time and does nothing else. -/
theorem sameUpToTime_beginTick (hage : s.policy.age = Aging.idle) :
    s.SameUpToTime ordered s.beginTick.state := by
  simp only [beginTick, hage, Aging.idle]
  exact ⟨rfl, rfl, fun _ => rfl, rfl, rfl, rfl, rfl, rfl⟩

/-- The process that was chosen is put back as if it had not been chosen. -/
theorem Settled.sameUpToTime_putBack (h : s.Settled) (hpolicy : s.policy.IgnoresTime ordered)
    (hchoice : s.choice? = some pid) (hp : s.processes.get? pid = some p)
    (hready : p.state = .ready) :
    s.SameUpToTime ordered ((s.take pid).putBack pid { p with state := .running }) := by
  have hrecord : ({ p with state := .ready } : Process) = p := by
    rw [← hready]
  refine ⟨rfl, ?_, fun ho => (hpolicy.putBack_eq ho h.accounts hchoice hp).symm, h.running_eq, rfl,
    rfl, rfl, rfl⟩
  refine (Table.map_insert_of_get? (v := { p with state := .ready }) ?_).symm
  rw [hp, hrecord]
  rfl

end Scheduler

end Timeshare
