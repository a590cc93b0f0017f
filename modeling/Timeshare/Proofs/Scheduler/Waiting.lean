import Timeshare.Proofs.Machine.Settled
import Timeshare.Proofs.Policy.Starved

/-!
# Waiting times

No process became ready in the future (`Scheduler.Timely`), so the waiting time of a
ready process is what it seems to be. Under priority aging a tick leaves no process
below the highest level that has waited for longer than the threshold
(`Machine.waitsWithin_tick`): the starved ones were raised when the tick began, and the
one that was dispatched waits anew.
-/

namespace Timeshare

namespace Scheduler

/-- Every process became ready at some time in the past. -/
def Timely (s : Scheduler) : Prop :=
  ∀ pid p, s.processes.get? pid = some p → p.readySince ≤ s.clock

/-- No ready process below the highest level has waited for longer than the threshold. -/
def WaitsWithin (threshold : Nat) (s : Scheduler) : Prop :=
  ∀ pid p, s.processes.get? pid = some p → p.state = .ready → p.priority ≠ .highest →
    s.clock - p.readySince ≤ threshold

variable {s s' : Scheduler} {pid : ProcessId} {p : Process} {threshold : Nat}

theorem timely_new (policy : Policy) : (new policy).Timely := by
  intro pid p hp
  cases hp

/-- A record whose time is not later than the clock may be written. -/
theorem Timely.insert (h : s.Timely) (hprocesses : s'.processes = s.processes.insert pid p)
    (hclock : s'.clock = s.clock) (hp : p.readySince ≤ s.clock) : s'.Timely := by
  rw [Timely, hprocesses, hclock]
  exact Table.forall_get?_insert h hp

theorem Timely.congr (h : s.Timely) (hprocesses : s'.processes = s.processes)
    (hclock : s'.clock = s.clock) : s'.Timely := by
  rw [Timely, hprocesses, hclock]
  exact h

theorem Timely.start (h : s.Timely) : s.start.state.Timely := by
  rw [state_start]
  exact h

theorem Timely.stop (h : s.Timely) : s.stop.state.Timely := by
  rw [state_stop]
  exact h

theorem Timely.honourStop (h : s.Timely) : s.honourStop.state.Timely := by
  rw [state_honourStop]
  exact h

theorem Timely.wake (h : s.Timely) (pid : ProcessId) : (s.wake pid).state.Timely := by
  obtain ⟨-, hstate⟩ | ⟨p, hp, -, -, hstate⟩ := wake_cases s pid
  · rw [hstate]
    exact h
  · rw [hstate]
    exact h.insert rfl rfl (Nat.le_refl _)

theorem Timely.kill (h : s.Timely) (pid : ProcessId) : (s.kill pid).state.Timely := by
  obtain ⟨-, hstate⟩ | ⟨p, hp, -, -, hstate⟩ | ⟨p, hp, -, -, -, hstate⟩ := kill_cases s pid
  · rw [hstate]
    exact h
  · rw [hstate]
    exact h.insert rfl rfl (Nat.le_refl _)
  · rw [hstate]
    exact h.insert rfl rfl (h pid p hp)

theorem Timely.reap (h : s.Timely) : s.reap.state.Timely :=
  fun pid p hp => h pid p (Table.get?_filter_eq_some_iff.1 hp).1

theorem Timely.beginTick (h : s.Timely) (hpolicy : s.policy.AgesByRule) :
    s.beginTick.state.Timely := by
  have hlater : ∀ pid p, s.processes.get? pid = some p → p.readySince ≤ s.clock + 1 :=
    fun pid p hp => Nat.le_succ_of_le (h pid p hp)
  obtain hidle | ⟨threshold, hstep⟩ := hpolicy
  · simp only [Timely, Scheduler.beginTick, hidle]
    exact hlater
  · simp only [Timely, Scheduler.beginTick, hstep]
    exact Aging.forall_foldl (fun _ _ _ => Nat.le_refl _) hlater

theorem readySince_filed_le (hp : p.readySince ≤ s.clock) (exit : Exit) :
    (s.filed p exit).readySince ≤ s.clock := by
  rcases exit with e | outcome
  · exact hp
  · cases outcome with
    | halted | waiting => exact hp
    | sliceExpired => exact Nat.le_refl _

/-- A process that is ready again after its run waits anew. -/
theorem readySince_filed_of_ready {exit : Exit} (h : (s.filed p exit).state = .ready) :
    (s.filed p exit).readySince = s.clock := by
  rcases exit with e | outcome
  · cases h
  · cases outcome with
    | halted | waiting => cases h
    | sliceExpired => rfl

/-! ## Under priority aging -/

/-- When the policy chooses, the starved processes have been raised. -/
theorem get?_beginTick {params : PolicyParams} (h : s.Settled)
    (hpolicy : s.policy = .priorityAging params) (pid : ProcessId) :
    s.beginTick.state.processes.get? pid =
      (s.processes.get? pid).map (Aging.aged params.agingThreshold (s.clock + 1)) := by
  simp only [beginTick, hpolicy]
  exact Aging.get?_step h.accounts _ _ pid

theorem level_highest_beginTick {params : PolicyParams} (h : s.Settled)
    (hpolicy : s.policy = .priorityAging params) :
    s.queues.level .highest <+: s.beginTick.state.queues.level .highest := by
  simp only [beginTick, hpolicy]
  exact Aging.level_highest_step h.accounts _ _

theorem waitsWithin_beginTick {params : PolicyParams} (h : s.Settled)
    (hpolicy : s.policy = .priorityAging params) :
    s.beginTick.state.WaitsWithin params.agingThreshold := by
  intro pid p' hp' hready hlevel
  rw [get?_beginTick h hpolicy] at hp'
  obtain ⟨p, hp, rfl⟩ := Option.map_eq_some_iff.1 hp'
  change s.clock + 1 - _ ≤ _
  rw [Aging.aged] at hready hlevel ⊢
  split
  · rw [Aging.raised, Nat.sub_self]
    exact Nat.zero_le _
  next hfine =>
    rw [if_neg hfine] at hready hlevel
    exact Nat.le_of_not_lt fun hlong => hfine ⟨hready, hlevel, hlong⟩

end Scheduler

namespace Machine

variable {m m' : Machine} {outcome : TickOutcome} {threshold : Nat}

theorem timely_dispatched (h : m.scheduler.Timely) (hd : m.Dispatched outcome m') :
    m'.scheduler.Timely := by
  cases hd with
  | idle | discarded => exact h.congr rfl rfl
  | @killed pid p hchoice hp | @putBack pid p hchoice hp => exact h.insert rfl rfl (h pid p hp)
  | @ran pid p hchoice hp hready hkill hpower =>
      rw [Scheduler.state_settle]
      have htime : (p.afterRun (m.slice p).workspace.context).readySince ≤ m.scheduler.clock :=
        h pid p hp
      exact h.insert rfl rfl (Scheduler.readySince_filed_le (s := m.scheduler.take pid) htime _)

theorem timely_tick (h : m.scheduler.Timely) (hpolicy : m.scheduler.policy.AgesByRule) :
    m.tick.state.scheduler.Timely := by
  have hhonoured : m.scheduler.honourStop.state.policy.AgesByRule := by
    rw [Scheduler.state_honourStop]
    exact hpolicy
  rcases ticked_tick m with ⟨-, -, hstate⟩ | ⟨-, hd⟩
  · rw [hstate]
    exact h.honourStop
  · exact timely_dispatched (m := m.begun) (h.honourStop.beginTick hhonoured) hd

theorem timely_after (h : m.scheduler.Timely) (hs : m.scheduler.Settled)
    (request : MachineRequest) : (m.after request).scheduler.Timely := by
  cases request with
  | power on | memory request => exact h
  | start => exact h.start
  | stop => exact h.stop
  | requestStop => exact h.congr rfl rfl
  | submit program => exact h.insert rfl rfl (Nat.le_refl _)
  | submitAt program priority => exact h.insert rfl rfl (Nat.le_refl _)
  | wake pid => exact h.wake pid
  | kill pid => exact h.kill pid
  | reap => exact h.reap
  | setPolicy policy => exact h.congr rfl rfl
  | tick => exact timely_tick h hs.agesByRule
  | run maxTicks =>
      exact (run_induction (P := fun m => m.scheduler.Settled ∧ m.scheduler.Timely)
        (fun m hm => ⟨settled_tick m hm.1, timely_tick hm.2 hm.1.agesByRule⟩) ⟨hs, h⟩ maxTicks).2

theorem waitsWithin_dispatched (h : m.scheduler.WaitsWithin threshold)
    (hd : m.Dispatched outcome m') : m'.scheduler.WaitsWithin threshold := by
  cases hd with
  | idle | discarded => exact h
  | @killed pid p hchoice hp =>
      refine Table.forall_get?_insert h fun hready => ?_
      cases hready
  | @putBack pid p hchoice hp hready =>
      exact Table.forall_get?_insert h fun _ => h pid p hp hready
  | @ran pid p hchoice hp =>
      rw [Scheduler.state_settle]
      refine Table.forall_get?_insert h fun hready _ => ?_
      rw [Scheduler.readySince_filed_of_ready hready]
      change m.scheduler.clock - m.scheduler.clock ≤ threshold
      omega

/-- No process below the highest level waits for longer than the threshold. -/
theorem waitsWithin_tick {params : PolicyParams} (h : m.scheduler.Settled)
    (hpolicy : m.scheduler.policy = .priorityAging params) (hticked : m.tick.result ≠ .stopped) :
    m.tick.state.scheduler.WaitsWithin params.agingThreshold := by
  have hhonoured : m.scheduler.honourStop.state.policy = .priorityAging params := by
    rw [Scheduler.state_honourStop]
    exact hpolicy
  rcases ticked_tick m with ⟨-, hresult, -⟩ | ⟨-, hd⟩
  · exact absurd hresult hticked
  · exact waitsWithin_dispatched (m := m.begun)
      (Scheduler.waitsWithin_beginTick h.honourStop hhonoured) hd

end Machine

theorem Scheduler.Reachable.timely {s : Scheduler} (h : s.Reachable) : s.Timely := by
  induction h with
  | new h => exact timely_new _
  | after h cpu memory hr ih => exact Machine.timely_after ih h.settled _

end Timeshare
