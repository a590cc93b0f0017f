import Timeshare.Proofs.Machine.Ticked
import Timeshare.Proofs.Policy.BuiltIn

/-!
# Where a level can change

The standing of a process is its level with the count of its expired slices, and a built-in
policy looks at nothing else when a slice expires. A tick changes a standing at two places:
aging makes `Machine.atDispatch` from the scheduler before the tick, and from there the outcome
of the tick says what the dispatch makes of the standing (`Machine.exists_standing_tick`).
-/

namespace Timeshare

namespace TickOutcome

/-- Whether the tick ran the process and left it in the given state. A process is left
ready exactly if its slice expired. -/
def leaves (pid : ProcessId) (state : ProcessState) : TickOutcome → Bool
  | .ran other _ left => other == pid && left == state
  | _ => false

variable {outcome : TickOutcome} {pid : ProcessId} {state : ProcessState}

theorem chosen?_of_leaves (h : outcome.leaves pid state = true) :
    outcome.chosen? = some pid := by
  cases outcome with
  | ran other retired left =>
      rw [leaves, Bool.and_eq_true, beq_iff_eq] at h
      exact congrArg some h.1
  | stopped | idle | cpuUnavailable => cases h

theorem leaves_eq_false {other : ProcessState} (h : outcome.leaves pid state = true)
    (hne : state ≠ other) : outcome.leaves pid other = false := by
  cases outcome with
  | ran _ retired left =>
      rw [leaves, Bool.and_eq_true, beq_iff_eq, beq_iff_eq] at h
      rw [leaves, h.2, beq_eq_false_iff_ne.2 hne, Bool.and_false]
  | stopped | idle | cpuUnavailable => rfl

end TickOutcome

/-- The level of a process and the slices that it used up since it last waited or changed
its level. -/
def Process.standing (p : Process) : Priority × UInt32 := (p.priority, p.consecutiveExpirations)

/-! ## The end of a slice -/

namespace Policy

variable {policy : Policy} {p q : Process}

/-- One of the three policies under which no process changes its level. -/
def KeepsLevels (policy : Policy) : Prop :=
  ∃ params, policy = roundRobin params ∨ policy = shortestJobFirst params ∨
    policy = realTime params

theorem KeepsLevels.builtIn (h : policy.KeepsLevels) : policy.BuiltIn := by
  obtain ⟨params, rfl | rfl | rfl⟩ := h
  · exact ⟨.roundRobin, params, rfl⟩
  · exact ⟨.shortestJobFirst, params, rfl⟩
  · exact ⟨.realTime, params, rfl⟩

theorem KeepsLevels.age_eq (h : policy.KeepsLevels) : policy.age = Aging.idle := by
  obtain ⟨params, rfl | rfl | rfl⟩ := h <;> rfl

theorem KeepsLevels.levelAfterExpiry_eq (h : policy.KeepsLevels) :
    policy.levelAfterExpiry = Process.priority := by
  obtain ⟨params, rfl | rfl | rfl⟩ := h <;> rfl

theorem BuiltIn.cases (h : policy.BuiltIn) :
    policy.KeepsLevels ∨ ∃ params, policy = priorityAging params := by
  obtain ⟨kind, params, rfl⟩ := h
  cases kind with
  | roundRobin => exact .inl ⟨params, .inl rfl⟩
  | priorityAging => exact .inr ⟨params, rfl⟩
  | shortestJobFirst => exact .inl ⟨params, .inr (.inl rfl)⟩
  | realTime => exact .inl ⟨params, .inr (.inr rfl)⟩

/-- A built-in policy lowers a process by one level, or leaves it where it is. -/
theorem BuiltIn.levelAfterExpiry_cases (h : policy.BuiltIn) (p : Process) :
    policy.levelAfterExpiry p = p.priority ∨
      (policy.levelAfterExpiry p).val = p.priority.val + 1 := by
  obtain hkeeps | ⟨params, rfl⟩ := h.cases
  · exact .inl (congrFun hkeeps.levelAfterExpiry_eq p)
  · simp only [priorityAging]
    split
    · by_cases hlowest : p.priority = .lowest
      · rw [hlowest]
        exact .inl rfl
      · exact .inr (Priority.val_lower_of_ne_lowest hlowest)
    · exact .inl rfl

theorem BuiltIn.levelAfterExpiry_congr (h : policy.BuiltIn) (hsame : p.standing = q.standing) :
    policy.levelAfterExpiry p = policy.levelAfterExpiry q := by
  obtain ⟨hlevel, hcount⟩ := Prod.mk.inj hsame
  obtain hkeeps | ⟨params, rfl⟩ := h.cases
  · rw [hkeeps.levelAfterExpiry_eq]
    exact hlevel
  · simp only [priorityAging, hlevel, hcount]

end Policy

namespace Scheduler

variable {s : Scheduler} {pid : ProcessId} {p q : Process} {exit : Exit}

theorem priority_afterExpiry (s : Scheduler) (p : Process) :
    (s.afterExpiry p).priority =
      s.policy.levelAfterExpiry
        { p with consecutiveExpirations := p.consecutiveExpirations + 1 } := by
  simp only [afterExpiry]
  split
  next h => exact h.symm
  next => rfl

/-- The count of expired slices starts anew if the policy changes the level. -/
theorem consecutiveExpirations_afterExpiry (s : Scheduler) (p : Process) :
    (s.afterExpiry p).consecutiveExpirations =
      if (s.afterExpiry p).priority = p.priority then p.consecutiveExpirations + 1 else 0 := by
  rw [priority_afterExpiry]
  simp only [afterExpiry]
  split <;> rfl

theorem standing_afterExpiry_congr (h : s.policy.BuiltIn) (hsame : p.standing = q.standing) :
    (s.afterExpiry p).standing = (s.afterExpiry q).standing := by
  obtain ⟨hlevel, hcount⟩ := Prod.mk.inj hsame
  have hpriority : (s.afterExpiry p).priority = (s.afterExpiry q).priority := by
    rw [priority_afterExpiry, priority_afterExpiry]
    exact h.levelAfterExpiry_congr (by simp only [Process.standing, hlevel, hcount])
  rw [Process.standing, Process.standing, consecutiveExpirations_afterExpiry,
    consecutiveExpirations_afterExpiry, hpriority, hlevel, hcount]

/-- What a dispatch with the given outcome makes of the standing of a process. -/
def standingAfter (s : Scheduler) (pid : ProcessId) (p : Process) (outcome : TickOutcome) :
    Priority × UInt32 :=
  if outcome.leaves pid .ready then (s.afterExpiry p).standing
  else if outcome.leaves pid .waiting then (p.priority, 0)
  else p.standing

theorem standingAfter_of_passed {outcome : TickOutcome} (s : Scheduler) (p : Process)
    (h : outcome.chosen? ≠ some pid) : s.standingAfter pid p outcome = p.standing := by
  rw [standingAfter, if_neg (mt TickOutcome.chosen?_of_leaves h),
    if_neg (mt TickOutcome.chosen?_of_leaves h)]

theorem standing_filed (h : s.policy.BuiltIn) (pid : ProcessId) (p : Process) (context : Context)
    (retired : Nat) (exit : Exit) :
    (s.filed (p.afterRun context) exit).standing =
      s.standingAfter pid p (.ran pid retired (s.filed (p.afterRun context) exit).state) := by
  rcases exit with e | outcome
  · simp [standingAfter, TickOutcome.leaves, filed, Process.standing, Process.afterRun]
  · cases outcome with
    | halted | waiting =>
        simp [standingAfter, TickOutcome.leaves, filed, Process.standing, Process.afterRun]
    | sliceExpired =>
        simp only [standingAfter, TickOutcome.leaves, filed, beq_self_eq_true, Bool.and_self,
          if_pos]
        exact standing_afterExpiry_congr h rfl

@[simp] theorem basePriority_filed (s : Scheduler) (p : Process) (exit : Exit) :
    (s.filed p exit).basePriority = p.basePriority := by
  obtain ⟨level, expirations, readySince, state, fault, h⟩ := s.exists_filed p exit
  rw [h]

end Scheduler

/-! ## A tick -/

namespace Machine

variable {m m' : Machine} {pid : ProcessId} {p : Process} {outcome : TickOutcome}

/-- The record of a process after a dispatch. -/
theorem Dispatched.exists_standing (h : m.Dispatched outcome m')
    (hpolicy : m.scheduler.policy.BuiltIn) (hp : m.scheduler.processes.get? pid = some p) :
    ∃ q, m'.scheduler.processes.get? pid = some q ∧
      q.standing = m.scheduler.standingAfter pid p outcome := by
  cases h with
  | idle | discarded => exact ⟨p, hp, rfl⟩
  | @killed chosen q hchoice hq hready hkill =>
      by_cases hpid : chosen = pid
      · subst hpid
        rw [hq] at hp
        cases hp
        refine ⟨_, Table.get?_insert_self .., ?_⟩
        simp [Scheduler.standingAfter, TickOutcome.leaves, Process.standing]
      · refine ⟨p, (Table.get?_insert_of_ne _ hpid _).trans hp, ?_⟩
        exact (Scheduler.standingAfter_of_passed _ _ (by simp [TickOutcome.chosen?, hpid])).symm
  | @putBack chosen q hchoice hq hready hkill hpower =>
      by_cases hpid : chosen = pid
      · subst hpid
        rw [hq] at hp
        cases hp
        exact ⟨_, Table.get?_insert_self .., rfl⟩
      · exact ⟨p, (Table.get?_insert_of_ne _ hpid _).trans hp, rfl⟩
  | @ran chosen q hchoice hq hready hkill hpower =>
      rw [Scheduler.state_settle]
      by_cases hpid : chosen = pid
      · subst hpid
        rw [hq] at hp
        cases hp
        have htaken : (m.scheduler.take chosen).policy.BuiltIn := hpolicy
        exact ⟨_, Table.get?_insert_self .., Scheduler.standing_filed htaken ..⟩
      · refine ⟨p, (Table.get?_insert_of_ne _ hpid _).trans hp, ?_⟩
        exact (Scheduler.standingAfter_of_passed _ _ (by simp [TickOutcome.chosen?, hpid])).symm

/-- The scheduler at the next tick after the aging, if there is any, and before the dispatch;
a tick that is stopped does not age. -/
def atDispatch (m : Machine) : Scheduler :=
  if m.scheduler.honourStop.state.started then m.begun.scheduler
  else m.scheduler.honourStop.state

theorem policy_atDispatch (m : Machine) : m.atDispatch.policy = m.scheduler.policy := by
  rw [atDispatch]
  split
  · exact m.policy_begun
  · rw [Scheduler.state_honourStop]

/-- What becomes of the record of a process after the aging. -/
theorem exists_standing_tick (hpolicy : m.scheduler.policy.BuiltIn)
    (hp : m.atDispatch.processes.get? pid = some p) :
    ∃ q, m.tick.state.scheduler.processes.get? pid = some q ∧
      q.standing = m.atDispatch.standingAfter pid p m.tick.result := by
  rw [← policy_atDispatch] at hpolicy
  obtain ⟨hstarted, hresult, hstate⟩ | ⟨hstarted, hd⟩ := ticked_tick m
  · have heq : m.atDispatch = m.scheduler.honourStop.state := if_neg (by simp [hstarted])
    rw [heq] at hp ⊢
    rw [hresult, hstate]
    exact ⟨p, hp, rfl⟩
  · have heq : m.atDispatch = m.begun.scheduler := if_pos hstarted
    rw [heq] at hp hpolicy ⊢
    exact hd.exists_standing hpolicy hp

/-- Under a policy that does not age, a tick begins with the records as they are. -/
theorem processes_atDispatch (hage : m.scheduler.policy.age = Aging.idle) :
    m.atDispatch.processes = m.scheduler.processes := by
  rw [atDispatch]
  split
  · exact (begun_of_idle hage).2
  · exact m.scheduler.processes_honourStop

/-- Aging raises a process that is starved, if the tick is not stopped. -/
theorem get?_atDispatch {threshold : Nat} (h : m.scheduler.Settled)
    (hage : m.scheduler.policy.age = Aging.step threshold)
    (hp : m.scheduler.processes.get? pid = some p) :
    ∃ q, m.atDispatch.processes.get? pid = some q ∧
      (q = p ∨ Aging.Starves threshold (m.scheduler.clock + 1) p ∧
        q = Aging.raised p.priority.raise (m.scheduler.clock + 1) p) := by
  rw [atDispatch, begun, Scheduler.state_honourStop]
  split
  · simp only [Scheduler.beginTick, hage]
    refine ⟨_, (Aging.get?_step h.accounts ..).trans (congrArg _ hp), ?_⟩
    rw [Aging.aged]
    split
    next hstarves => exact .inr ⟨hstarves, rfl⟩
    next => exact .inl rfl
  · exact ⟨p, hp, .inl rfl⟩

end Machine

end Timeshare
