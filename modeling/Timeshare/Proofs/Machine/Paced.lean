import Timeshare.Proofs.Machine.Settled

/-!
# Ticks with requests in between

`Machine.paced requests n m` is the machine after `n` ticks, when `requests k` are made
before the tick `k + 1`. As long as the requests keep the machine on
(`MachineRequest.keepsOn`), they add to the queues at the tails only and leave the ready
processes as they are (`Scheduler.Extends`).
-/

namespace Timeshare

/-- Whether the request lets a machine go on that ticks under its policy: it does not stop
the scheduler, take the power away, replace the policy or tick by itself. -/
def MachineRequest.keepsOn : MachineRequest → Bool
  | .power on => on
  | .start | .submit _ | .submitAt _ _ | .wake _ | .kill _ | .reap | .memory _ => true
  | .stop | .requestStop | .setPolicy _ | .tick | .run _ => false

theorem ReadyQueues.level_pushBack_prefix (q : ReadyQueues) (level : Priority) (pid : ProcessId)
    (other : Priority) : q.level other <+: (q.pushBack level pid).level other := by
  rw [level_pushBack]
  split
  · exact List.prefix_append ..
  · exact List.prefix_rfl

namespace Scheduler

/-- The later scheduler has the ready processes of the earlier one as they were, in the
same queues and at the same places. -/
structure Extends (s s' : Scheduler) : Prop where
  policy_eq : s'.policy = s.policy
  clock_eq : s'.clock = s.clock
  started : s.started = true → s'.started = true
  stopRequested : s.stopRequested = false → s'.stopRequested = false
  ready : ∀ pid p, s.processes.get? pid = some p → p.state = .ready →
    ∃ p', s'.processes.get? pid = some p' ∧ p'.state = .ready ∧ p'.priority = p.priority ∧
      p'.readySince = p.readySince
  level : ∀ level, s.queues.level level <+: s'.queues.level level

variable {s s' s₁ : Scheduler} {pid : ProcessId} {p p' : Process}

theorem Extends.refl (s : Scheduler) : s.Extends s :=
  ⟨rfl, rfl, id, id, fun _ p hp hready => ⟨p, hp, hready, rfl, rfl⟩, fun _ => List.prefix_rfl⟩

theorem Extends.trans (h : s.Extends s') (h₁ : s'.Extends s₁) : s.Extends s₁ where
  policy_eq := h₁.policy_eq.trans h.policy_eq
  clock_eq := h₁.clock_eq.trans h.clock_eq
  started := fun hs => h₁.started (h.started hs)
  stopRequested := fun hs => h₁.stopRequested (h.stopRequested hs)
  ready := by
    intro pid p hp hready
    obtain ⟨p', hp', hready', hpriority', hsince'⟩ := h.ready pid p hp hready
    obtain ⟨p₁, hp₁, hready₁, hpriority₁, hsince₁⟩ := h₁.ready pid p' hp' hready'
    exact ⟨p₁, hp₁, hready₁, hpriority₁.trans hpriority', hsince₁.trans hsince'⟩
  level := fun level => (h.level level).trans (h₁.level level)

/-- A record may be written if no ready process loses its place by it. -/
theorem ready_insert
    (h : ∀ p, s.processes.get? pid = some p → p.state = .ready →
      p'.state = .ready ∧ p'.priority = p.priority ∧ p'.readySince = p.readySince) :
    ∀ other p, s.processes.get? other = some p → p.state = .ready →
      ∃ q, (s.processes.insert pid p').get? other = some q ∧ q.state = .ready ∧
        q.priority = p.priority ∧ q.readySince = p.readySince := by
  intro other p hp hready
  by_cases hpid : pid = other
  · subst hpid
    exact ⟨p', Table.get?_insert_self .., h p hp hready⟩
  · exact ⟨p, (Table.get?_insert_of_ne _ hpid _).trans hp, hready, rfl, rfl⟩

theorem extends_start (s : Scheduler) : s.Extends s.start.state := by
  rw [state_start]
  exact ⟨rfl, rfl, fun _ => rfl, fun _ => rfl,
    fun _ p hp hready => ⟨p, hp, hready, rfl, rfl⟩, fun _ => List.prefix_rfl⟩

theorem Settled.extends_submitAt (h : s.Settled) (program : Program) (priority : Priority) :
    s.Extends (s.submitAt program priority).state := by
  refine ⟨rfl, rfl, id, id, ready_insert fun p hp _ => ?_,
    ReadyQueues.level_pushBack_prefix _ _ _⟩
  exact absurd (h.tame _ p hp).2 (Nat.lt_irrefl _)

theorem extends_makeReady (hp : s.processes.get? pid = some p) (hw : p.state = .waiting)
    (marked : Bool) : s.Extends (s.makeReady pid { p with killRequested := marked }) := by
  refine ⟨rfl, rfl, id, id, ready_insert fun q hq hready => ?_,
    ReadyQueues.level_pushBack_prefix _ _ _⟩
  rw [hp] at hq
  cases hq
  rw [hw] at hready
  cases hready

theorem extends_wake (s : Scheduler) (pid : ProcessId) : s.Extends (s.wake pid).state := by
  obtain ⟨-, hstate⟩ | ⟨p, hp, hw, -, hstate⟩ := wake_cases s pid
  · rw [hstate]
    exact .refl s
  · rw [hstate]
    exact extends_makeReady hp hw p.killRequested

theorem extends_kill (s : Scheduler) (pid : ProcessId) : s.Extends (s.kill pid).state := by
  obtain ⟨-, hstate⟩ | ⟨p, hp, hw, -, hstate⟩ | ⟨p, hp, -, -, -, hstate⟩ := kill_cases s pid
  · rw [hstate]
    exact .refl s
  · rw [hstate]
    exact extends_makeReady hp hw true
  · rw [hstate]
    refine ⟨rfl, rfl, id, id, ready_insert fun q hq hready => ?_, fun _ => List.prefix_rfl⟩
    rw [hp] at hq
    cases hq
    exact ⟨hready, rfl, rfl⟩

theorem extends_reap (s : Scheduler) : s.Extends s.reap.state := by
  refine ⟨rfl, rfl, id, id, fun pid p hp hready => ?_, fun _ => List.prefix_rfl⟩
  have hlive : (!p.isTerminated) = true := by simp [Process.isTerminated, hready]
  exact ⟨p, Table.get?_filter_eq_some_iff.2 ⟨hp, hlive⟩, hready, rfl, rfl⟩

end Scheduler

namespace Machine

variable {m m' : Machine} {params : PolicyParams} {request : MachineRequest}

/-- The machine ticks under priority aging: it is started, nobody asked it to stop, and
the processor is powered. -/
structure RunsAging (params : PolicyParams) (m : Machine) : Prop where
  settled : m.scheduler.Settled
  policy_eq : m.scheduler.policy = .priorityAging params
  started : m.scheduler.started = true
  unstopped : m.scheduler.stopRequested = false
  powered : m.cpu.powered = true

theorem extends_after (h : m.scheduler.Settled) (hr : request.keepsOn = true) :
    m.scheduler.Extends (m.after request).scheduler := by
  cases request with
  | power on | memory request => exact .refl m.scheduler
  | start => exact m.scheduler.extends_start
  | submit program => exact h.extends_submitAt program .normal
  | submitAt program priority => exact h.extends_submitAt program priority
  | wake pid => exact m.scheduler.extends_wake pid
  | kill pid => exact m.scheduler.extends_kill pid
  | reap => exact m.scheduler.extends_reap
  | stop | requestStop | setPolicy | tick | run => cases hr

theorem powered_after (h : m.cpu.powered = true) (hr : request.keepsOn = true) :
    (m.after request).cpu.powered = true := by
  cases request with
  | power on =>
      obtain rfl : on = true := hr
      change (m.cpu.setPower true).state.powered = true
      rw [Cpu.state_setPower]
  | stop | requestStop | setPolicy | tick | run => cases hr
  | _ => exact h

theorem RunsAging.after (h : m.RunsAging params) (hr : request.keepsOn = true) :
    (m.after request).RunsAging params := by
  have hextends := extends_after h.settled hr
  have hrule : request.AgesByRule := by
    cases request <;> trivial
  exact ⟨settled_after h.settled hrule, hextends.policy_eq.trans h.policy_eq,
    hextends.started h.started, hextends.stopRequested h.unstopped, powered_after h.powered hr⟩

theorem RunsAging.afterAll {requests : List MachineRequest} (h : m.RunsAging params)
    (hr : ∀ request ∈ requests, request.keepsOn = true) :
    (m.afterAll requests).RunsAging params ∧
      m.scheduler.Extends (m.afterAll requests).scheduler := by
  induction requests generalizing m with
  | nil => exact ⟨h, .refl m.scheduler⟩
  | cons request rest ih =>
      obtain ⟨hfirst, hrest⟩ := List.forall_mem_cons.1 hr
      obtain ⟨hruns, hextends⟩ := ih (h.after hfirst) hrest
      exact ⟨hruns, (extends_after h.settled hfirst).trans hextends⟩

/-! ## Ticks -/

/-- The tick of the machine dispatches the process. -/
def Dispatches (m : Machine) (pid : ProcessId) : Prop :=
  ∃ retired state, m.tick.result = .ran pid retired state

/-- The machine after `n` ticks, when `requests k` are made before the tick `k + 1`. -/
def paced (requests : Nat → List MachineRequest) : Nat → Machine → Machine
  | 0, m => m
  | n + 1, m => ((m.paced requests n).afterAll (requests n)).tick.state

/-- The tick `n + 1` dispatches the process. -/
def DispatchesAt (requests : Nat → List MachineRequest) (n : Nat) (m : Machine)
    (pid : ProcessId) : Prop :=
  ((m.paced requests n).afterAll (requests n)).Dispatches pid

/-- A tick under priority aging begins and dispatches. -/
theorem RunsAging.dispatched (h : m.RunsAging params) :
    ({ m with scheduler := m.scheduler.beginTick.state } : Machine).Dispatched
      m.tick.result m.tick.state :=
  dispatched_tick h.started h.unstopped

/-- A dispatch has no part in what the machine is told from outside. -/
theorem Dispatched.kept {outcome : TickOutcome} (h : m.Dispatched outcome m') :
    m'.scheduler.policy = m.scheduler.policy ∧ m'.scheduler.started = m.scheduler.started ∧
      m'.scheduler.stopRequested = m.scheduler.stopRequested ∧
      m'.scheduler.clock = m.scheduler.clock ∧ m'.cpu.powered = m.cpu.powered := by
  cases h with
  | @ran pid p hchoice hp hready hkill hpower =>
      rw [Scheduler.state_settle]
      refine ⟨rfl, rfl, rfl, rfl, ?_⟩
      rw [slice, Cpu.cpu_run hpower]
  | _ => exact ⟨rfl, rfl, rfl, rfl, rfl⟩

theorem RunsAging.tick (h : m.RunsAging params) : m.tick.state.RunsAging params := by
  obtain ⟨hpolicy, hstarted, hstop, -, hpower⟩ := h.dispatched.kept
  exact ⟨settled_tick m h.settled, hpolicy.trans h.policy_eq, hstarted.trans h.started,
    hstop.trans h.unstopped, hpower.trans h.powered⟩

theorem RunsAging.clock_tick (h : m.RunsAging params) :
    m.tick.state.scheduler.clock = m.scheduler.clock + 1 :=
  h.dispatched.kept.2.2.2.1

theorem RunsAging.paced (h : m.RunsAging params) {requests : Nat → List MachineRequest}
    (hr : ∀ n, ∀ request ∈ requests n, request.keepsOn = true) (n : Nat) :
    (m.paced requests n).RunsAging params ∧
      (m.paced requests n).scheduler.clock = m.scheduler.clock + n := by
  induction n with
  | zero => exact ⟨h, rfl⟩
  | succ n ih =>
      obtain ⟨hruns, hextends⟩ := ih.1.afterAll (hr n)
      refine ⟨hruns.tick, ?_⟩
      rw [Machine.paced, hruns.clock_tick, hextends.clock_eq, ih.2, Nat.add_assoc]

end Machine

end Timeshare
