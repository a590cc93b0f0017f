import Timeshare.Proofs.Machine.Settled
import Timeshare.Proofs.Policy.BuiltIn
import Timeshare.Proofs.Process.Books

/-!
# Counters that balance

`Machine.Balanced n gone missed m` says that the counters of the processor and of the
scheduler agree with the books of the `n` processes that were submitted, where `gone`
are the records that were reaped and `missed` is the number of ticks that found the
processor without power. Every request keeps the machine balanced with what it adds to
these. For a tick this is shown by the ways in which a dispatch ends
(`Machine.Balanced.dispatched`); a built-in policy never chooses in vain, so none of them
goes uncounted.
-/

namespace Timeshare

/-- Whether the tick found the processor without power. -/
def TickOutcome.isUnavailable : TickOutcome → Bool
  | .cpuUnavailable _ => true
  | _ => false

@[simp] theorem Scheduler.cpuTime_filed (s : Scheduler) (p : Process) (exit : Exit) :
    (s.filed p exit).cpuTime = p.cpuTime := by
  obtain ⟨level, expirations, readySince, state, fault, h⟩ := s.exists_filed p exit
  rw [h]

/-- The fault of a process after its run is that of the run, if there is one. -/
theorem Scheduler.fault_filed (s : Scheduler) (p : Process) (exit : Exit) :
    (s.filed p exit).fault = match exit with
      | .ok _ => p.fault
      | .error e => some (.cpu e) := by
  rcases exit with e | outcome
  · rfl
  · cases outcome with
    | halted | waiting => rfl
    | sliceExpired =>
        obtain ⟨level, expirations, h⟩ := s.exists_afterExpiry p
        rw [filed, h]

theorem Scheduler.charge_filed {p : Process} (s : Scheduler) (exit : Exit)
    (hfault : p.fault = none) :
    (s.filed p exit).failed.toNat = (if exit.isOk then 0 else 1) ∧
      (s.filed p exit).wasKilled = false := by
  have hfiled := s.fault_filed p exit
  rw [Process.failed, Process.wasKilled, hfiled]
  cases exit with
  | error e => exact ⟨rfl, rfl⟩
  | ok outcome =>
      simp only [hfault, and_true]
      rfl

/-- A run is counted as a dispatch, and as a fault if it failed. -/
theorem Scheduler.exists_filedStats (s : Scheduler) (p : Process) (exit : Exit) :
    ∃ demotions, s.filedStats p exit =
      { s.stats with
        dispatches := s.stats.dispatches + 1
        faults := s.stats.faults + if exit.isOk then 0 else 1
        demotions } := by
  rcases exit with e | outcome
  · exact ⟨_, rfl⟩
  · cases outcome with
    | halted | waiting => exact ⟨_, rfl⟩
    | sliceExpired =>
        rw [filedStats]
        split <;> exact ⟨_, rfl⟩

namespace Machine

/-- What the machine counts in all. -/
def charged (m : Machine) : Charge → Nat
  | .time => m.cpu.retiredTotal
  | .dispatches => m.cpu.runs
  | .faults => m.cpu.faults
  | .kills => m.scheduler.stats.kills

/-- The counters of the machine agree with each other and with the books. -/
structure Balanced (n : Nat) (gone : List (ProcessId × Process)) (missed : Nat) (m : Machine) :
    Prop where
  settled : m.scheduler.Settled
  builtIn : m.scheduler.policy.BuiltIn
  nextPid_eq : m.scheduler.nextPid = n + 1
  books : Books m.charged n (gone ++ m.scheduler.processes.entries)
  dispatches_eq : m.scheduler.stats.dispatches = m.cpu.runs
  faults_eq : m.scheduler.stats.faults = m.cpu.faults
  ticks_eq : m.scheduler.stats.ticks = m.scheduler.stats.idleTicks +
    m.scheduler.stats.dispatches + m.scheduler.stats.kills + missed

variable {m m' : Machine} {n missed : Nat} {gone : List (ProcessId × Process)}
  {pid : ProcessId} {p p' : Process} {outcome : TickOutcome}

theorem balanced_new {policy : Policy} (h : policy.BuiltIn) (memory : Memory) :
    Balanced 0 [] 0 { scheduler := .new policy, memory } where
  settled := Scheduler.settled_new h.agesByRule
  builtIn := h
  nextPid_eq := rfl
  books := ⟨fun c => by cases c <;> rfl, fun e he => absurd he List.not_mem_nil, .nil⟩
  dispatches_eq := rfl
  faults_eq := rfl
  ticks_eq := rfl

theorem charged_congr (htime : m'.cpu.retiredTotal = m.cpu.retiredTotal)
    (hruns : m'.cpu.runs = m.cpu.runs) (hfaults : m'.cpu.faults = m.cpu.faults)
    (hkills : m'.scheduler.stats.kills = m.scheduler.stats.kills) : m'.charged = m.charged := by
  funext c
  cases c with
  | time => exact htime
  | dispatches => exact hruns
  | faults => exact hfaults
  | kills => exact hkills

/-! ## Requests that run nothing -/

/-- A request that leaves the scheduler and what is counted alone. -/
theorem Balanced.congr (h : m.Balanced n gone missed) (hscheduler : m'.scheduler = m.scheduler)
    (hcharged : m'.charged = m.charged) : m'.Balanced n gone missed := by
  have hruns : m'.cpu.runs = m.cpu.runs := congrFun hcharged .dispatches
  have hfaults : m'.cpu.faults = m.cpu.faults := congrFun hcharged .faults
  constructor
  · exact hscheduler ▸ h.settled
  · exact hscheduler ▸ h.builtIn
  · exact hscheduler ▸ h.nextPid_eq
  · rw [hscheduler, hcharged]
    exact h.books
  · rw [hscheduler, hruns]
    exact h.dispatches_eq
  · rw [hscheduler, hfaults]
    exact h.faults_eq
  · rw [hscheduler]
    exact h.ticks_eq

/-- An operation on the scheduler that leaves the statistics alone. -/
theorem Balanced.withScheduler (h : m.Balanced n gone missed) {s : Scheduler} (hs : s.Settled)
    (hpolicy : s.policy.BuiltIn) (hstats : s.stats = m.scheduler.stats) {n' : Nat}
    {gone' : List (ProcessId × Process)} (hnext : s.nextPid = n' + 1)
    (hbooks : Books m.charged n' (gone' ++ s.processes.entries)) :
    (m.withScheduler s).Balanced n' gone' missed := by
  have hcharged : (m.withScheduler s).charged = m.charged :=
    charged_congr rfl rfl rfl (congrArg SchedulerStats.kills hstats)
  refine ⟨hs, hpolicy, hnext, hcharged ▸ hbooks, ?_, ?_, ?_⟩
  · exact (congrArg SchedulerStats.dispatches hstats).trans h.dispatches_eq
  · exact (congrArg SchedulerStats.faults hstats).trans h.faults_eq
  · change s.stats.ticks = s.stats.idleTicks + s.stats.dispatches + s.stats.kills + missed
    rw [hstats]
    exact h.ticks_eq

theorem Balanced.setPower (h : m.Balanced n gone missed) (on : Bool) :
    (m.withCpu (m.cpu.setPower on).state).Balanced n gone missed := by
  rw [Cpu.state_setPower]
  exact h.congr rfl (charged_congr rfl rfl rfl rfl)

theorem Balanced.withMemory (h : m.Balanced n gone missed) (memory : Memory) :
    (m.withMemory memory).Balanced n gone missed :=
  h.congr rfl (charged_congr rfl rfl rfl rfl)

theorem Balanced.start (h : m.Balanced n gone missed) :
    (m.withScheduler m.scheduler.start.state).Balanced n gone missed := by
  have hs := h.settled.start
  rw [Scheduler.state_start] at hs ⊢
  exact h.withScheduler hs h.builtIn rfl h.nextPid_eq h.books

theorem Balanced.stop (h : m.Balanced n gone missed) :
    (m.withScheduler m.scheduler.stop.state).Balanced n gone missed := by
  have hs := h.settled.stop
  rw [Scheduler.state_stop] at hs ⊢
  exact h.withScheduler hs h.builtIn rfl h.nextPid_eq h.books

theorem Balanced.requestStop (h : m.Balanced n gone missed) :
    (m.withScheduler m.scheduler.requestStop).Balanced n gone missed := by
  have hs : m.scheduler.requestStop.Settled :=
    ⟨h.settled.accounts, h.settled.tame, h.settled.running_eq, h.settled.agesByRule⟩
  exact h.withScheduler hs h.builtIn rfl h.nextPid_eq h.books

theorem Balanced.setPolicy (h : m.Balanced n gone missed) {policy : Policy}
    (hpolicy : policy.BuiltIn) :
    (m.withScheduler (m.scheduler.setPolicy policy).state).Balanced n gone missed :=
  h.withScheduler (h.settled.setPolicy hpolicy.agesByRule) hpolicy rfl h.nextPid_eq h.books

theorem Balanced.honourStop (h : m.Balanced n gone missed) :
    (m.withScheduler m.scheduler.honourStop.state).Balanced n gone missed := by
  have hs := h.settled.honourStop
  rw [Scheduler.state_honourStop] at hs ⊢
  exact h.withScheduler hs h.builtIn rfl h.nextPid_eq h.books

theorem Balanced.submitAt (h : m.Balanced n gone missed) (program : Program)
    (priority : Priority) :
    (m.withScheduler (m.scheduler.submitAt program priority).state).Balanced (n + 1) gone
      missed := by
  have habsent : m.scheduler.processes.get? (n + 1) = none :=
    h.nextPid_eq ▸ h.settled.get?_nextPid
  have hbooks := h.books.submit habsent program priority m.scheduler.clock
  rw [← h.nextPid_eq] at hbooks
  exact h.withScheduler (h.settled.submitAt program priority) h.builtIn rfl
    (congrArg (· + 1) h.nextPid_eq) (h.nextPid_eq ▸ hbooks)

theorem Balanced.makeReady (h : m.Balanced n gone missed)
    (hp : m.scheduler.processes.get? pid = some p) (hw : p.state = .waiting) (marked : Bool) :
    (m.withScheduler (m.scheduler.makeReady pid { p with killRequested := marked })).Balanced n
      gone missed := by
  have hlive : p.state ≠ .terminated := by simp [hw]
  exact h.withScheduler (h.settled.makeReady hp hw marked) h.builtIn rfl h.nextPid_eq
    (h.books.insert_of_live hp hlive rfl rfl rfl rfl)

theorem Balanced.wake (h : m.Balanced n gone missed) (pid : ProcessId) :
    (m.withScheduler (m.scheduler.wake pid).state).Balanced n gone missed := by
  obtain ⟨-, hstate⟩ | ⟨p, hp, hw, -, hstate⟩ := m.scheduler.wake_cases pid
  · rw [hstate]
    exact h
  · rw [hstate]
    exact h.makeReady hp hw p.killRequested

theorem Balanced.kill (h : m.Balanced n gone missed) (pid : ProcessId) :
    (m.withScheduler (m.scheduler.kill pid).state).Balanced n gone missed := by
  obtain ⟨-, hstate⟩ | ⟨p, hp, hw, -, hstate⟩ | ⟨p, hp, -, hlive, -, hstate⟩ :=
    m.scheduler.kill_cases pid
  · rw [hstate]
    exact h
  · rw [hstate]
    exact h.makeReady hp hw true
  · rw [hstate]
    exact h.withScheduler (h.settled.mark hp) h.builtIn rfl h.nextPid_eq
      (h.books.insert_of_live hp hlive rfl rfl rfl rfl)

/-- The records that are reaped leave the table and remain in the books. -/
theorem Balanced.reap (h : m.Balanced n gone missed) :
    (m.withScheduler m.scheduler.reap.state).Balanced n
      (gone ++ (m.scheduler.processes.filter fun _ p => p.isTerminated).entries) missed :=
  h.withScheduler h.settled.reap h.builtIn rfl h.nextPid_eq
    (h.books.reap fun _ p => p.isTerminated)

/-! ## Ticks -/

theorem cpu_slice (hpower : m.cpu.powered = true) (p : Process) :
    (m.slice p).cpu =
      { m.cpu with
        retiredTotal := m.cpu.retiredTotal +
          ((m.slice p).workspace.context.retired - p.context.retired)
        runs := m.cpu.runs + 1
        faults := m.cpu.faults + if (m.sliceExit p).isOk then 0 else 1 } := by
  rw [workspace_slice hpower, sliceExit_eq hpower, slice, Cpu.cpu_run hpower]
  rfl

/-- When a tick begins it is counted, before anything is known of its outcome. -/
theorem Balanced.beginTick (h : m.Balanced n gone missed) :
    (m.withScheduler m.scheduler.beginTick.state).Balanced n gone (missed + 1) := by
  have hrule := h.builtIn.agesByRule
  have hcharged : (m.withScheduler m.scheduler.beginTick.state).charged = m.charged :=
    charged_congr rfl rfl rfl rfl
  refine ⟨h.settled.beginTick, h.builtIn, h.nextPid_eq, ?_, h.dispatches_eq, h.faults_eq,
    congrArg (· + 1) h.ticks_eq⟩
  rw [hcharged]
  exact h.books.table_of_core fun pid => hrule.map_get?_age (fun _ _ _ => rfl) _ _ _ pid

/-- The record of a process after its run is sound. -/
theorem sound_filed (s : Scheduler) (h : p.Sound) (hlive : p.state ≠ .terminated)
    {context : Context} (hle : p.context.retired ≤ context.retired) (exit : Exit) :
    (s.filed (p.afterRun context) exit).Sound := by
  constructor
  · have htime := h.cpuTime_eq
    rw [Scheduler.cpuTime_filed, Scheduler.context_filed]
    simp only [Process.afterRun]
    omega
  · intro hstate
    have hfault := s.fault_filed (p.afterRun context) exit
    cases exit with
    | error e => exact absurd rfl hstate
    | ok outcome => exact hfault.trans (h.fault_eq hlive)

theorem Balanced.dispatched (h : m.Balanced n gone (missed + 1))
    (hd : m.Dispatched outcome m') :
    m'.Balanced n gone (missed + if outcome.isUnavailable then 1 else 0) := by
  have hs := settled_dispatched h.settled hd
  have hticks := h.ticks_eq
  cases hd with
  | idle hchoice =>
      have hcharged : m.idle.charged = m.charged := charged_congr rfl rfl rfl rfl
      refine ⟨hs, h.builtIn, h.nextPid_eq, hcharged ▸ h.books, h.dispatches_eq, h.faults_eq, ?_⟩
      change m.scheduler.stats.ticks = m.scheduler.stats.idleTicks + 1 +
        m.scheduler.stats.dispatches + m.scheduler.stats.kills + missed
      omega
  | discarded hchoice hnot =>
      obtain ⟨p, hp, hready⟩ := h.settled.ready_of_choice? h.builtIn hchoice
      exact absurd hready (hnot p hp)
  | @killed pid p hchoice hp hready hkill =>
      have hlive : p.state ≠ .terminated := by simp [hready]
      have hsound := h.books.sound_of_get? hp
      have hfault := hsound.fault_eq hlive
      refine ⟨hs, h.builtIn, h.nextPid_eq, ?_, h.dispatches_eq, h.faults_eq, ?_⟩
      · refine h.books.insert hp ⟨hsound.cpuTime_eq, fun hstate => absurd rfl hstate⟩ fun c => ?_
        cases c with
        | time | dispatches => rfl
        | faults =>
            simp only [Process.charge, Process.not_failed_of_fault hfault]
            rfl
        | kills =>
            simp only [Process.charge, Process.not_killed_of_fault hfault]
            rfl
      · change m.scheduler.stats.ticks = m.scheduler.stats.idleTicks +
          m.scheduler.stats.dispatches + (m.scheduler.stats.kills + 1) + missed
        omega
  | @putBack pid p hchoice hp hready hkill hpower =>
      have hlive : p.state ≠ .terminated := by simp [hready]
      have hback := h.withScheduler hs h.builtIn rfl h.nextPid_eq
        (h.books.insert_of_live hp hlive rfl rfl rfl rfl)
      exact hback
  | @ran pid p hchoice hp hready hkill hpower =>
      have hlive : p.state ≠ .terminated := by simp [hready]
      have hsound := h.books.sound_of_get? hp
      have hle : p.context.retired ≤ (m.slice p).workspace.context.retired := by
        rw [workspace_slice hpower]
        exact Program.retired_le_resume _ ⟨p.context, m.memory⟩
      obtain ⟨hfailed, hkilled⟩ := (m.scheduler.take pid).charge_filed (m.sliceExit p)
        (p := p.afterRun (m.slice p).workspace.context) (hsound.fault_eq hlive)
      obtain ⟨demotions, hstats⟩ := (m.scheduler.take pid).exists_filedStats
        (p.afterRun (m.slice p).workspace.context) (m.sliceExit p)
      have hfiled := sound_filed (m.scheduler.take pid) hsound hlive hle (m.sliceExit p)
      rw [Scheduler.state_settle, cpu_slice hpower, hstats] at hs ⊢
      refine ⟨hs, h.builtIn, h.nextPid_eq, h.books.insert hp hfiled fun c => ?_, ?_, ?_, ?_⟩
      · cases c with
        | time =>
            simp only [Process.charge, charged, Scheduler.cpuTime_filed, Process.afterRun]
            omega
        | dispatches =>
            simp only [Process.charge, charged, Scheduler.dispatches_filed, Process.afterRun]
            omega
        | faults =>
            simp only [Process.charge, charged, hfailed,
              Process.not_failed_of_fault (hsound.fault_eq hlive)]
            rfl
        | kills =>
            simp only [Process.charge, charged, hkilled,
              Process.not_killed_of_fault (hsound.fault_eq hlive)]
            rfl
      · exact congrArg (· + 1) h.dispatches_eq
      · exact congrArg (· + _) h.faults_eq
      · change m.scheduler.stats.ticks = m.scheduler.stats.idleTicks +
          (m.scheduler.stats.dispatches + 1) + m.scheduler.stats.kills + missed
        omega

/-- A tick keeps the machine balanced, and it is missed if there was no power. -/
theorem Balanced.tick (h : m.Balanced n gone missed) :
    m.tick.state.Balanced n gone (missed + if m.tick.result.isUnavailable then 1 else 0) := by
  have hhonoured := h.honourStop
  rcases ticked_tick m with ⟨-, hresult, hstate⟩ | ⟨-, hd⟩
  · rw [hresult, hstate]
    exact hhonoured
  · exact hhonoured.beginTick.dispatched hd

end Machine

end Timeshare
