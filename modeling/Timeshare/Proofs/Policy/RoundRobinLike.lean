import Timeshare.Policy.Standard
import Timeshare.Proofs.Scheduler.Operations
import Timeshare.Scheduler.Settling

/-!
# Policies that decide as round robin does

Real time differs from round robin in what it does for the processes of the highest level, and
priority aging in what it does for those that have waited for long or used up many slices. On
the other levels, and up to a tick before which neither can have happened, they decide what
round robin decides (`Policy.LikeRoundRobin`). What follows a decision is the same then: a tick
begins in the same way, chooses the same process, and settles its run in the same way.
-/

namespace Timeshare

/-- For processes at the given levels, and up to the given tick, the policy decides what round
robin decides with the quantum of `params`. -/
structure Policy.LikeRoundRobin (params : PolicyParams) (levels : Priority → Prop) (limit : Nat)
    (policy : Policy) : Prop where
  select_eq : ∀ q t, policy.select q t = q.head?
  timeSlice_eq : ∀ p, levels p.priority → policy.timeSlice p = params.levelSlice p.priority
  requeue_eq : ∀ p, levels p.priority → policy.requeueAtHead p = false
  level_eq : ∀ p, p.consecutiveExpirations.toNat ≤ limit → policy.levelAfterExpiry p = p.priority
  age_eq : ∀ q t now, now ≤ limit → policy.age q t now = Aging.idle q t now

namespace Policy

variable {params params' : PolicyParams}

theorem levelSlice_congr (h : params'.baseQuantum = params.baseQuantum) (level : Priority) :
    params'.levelSlice level = params.levelSlice level := by
  rw [PolicyParams.levelSlice, PolicyParams.levelSlice, h]

theorem likeRoundRobin_roundRobin (params : PolicyParams) (levels : Priority → Prop)
    (limit : Nat) : (roundRobin params).LikeRoundRobin params levels limit where
  select_eq _ _ := rfl
  timeSlice_eq _ _ := rfl
  requeue_eq _ _ := rfl
  level_eq _ _ := rfl
  age_eq _ _ _ _ := rfl

/-- Real time favours the highest level only. -/
theorem likeRoundRobin_realTime (h : params'.baseQuantum = params.baseQuantum) (limit : Nat) :
    (realTime params').LikeRoundRobin params (· ≠ .highest) limit where
  select_eq _ _ := rfl
  timeSlice_eq := by
    intro p hp
    have hband : p.priority.isRealTime = false := beq_eq_false_iff_ne.2 hp
    simp only [realTime, hband]
    exact levelSlice_congr h p.priority
  requeue_eq _ hp := beq_eq_false_iff_ne.2 hp
  level_eq _ _ := rfl
  age_eq _ _ _ _ := rfl

/-- Nobody is starved at a tick that does not exceed the threshold. -/
theorem starved_eq_nil {threshold now : Nat} (h : now ≤ threshold) (q : ReadyQueues)
    (t : ProcessTable) : Aging.starved q t threshold now = [] := by
  rw [Aging.starved, List.filter_eq_nil_iff]
  intro entry _
  have hnot : ∀ p : Process, ¬ threshold < now - p.readySince := fun p => by omega
  simp only [Aging.isStarved, hnot, decide_false]
  cases t.get? entry.2 <;> simp

/-- Priority aging raises and lowers nobody before its thresholds are reached. -/
theorem likeRoundRobin_priorityAging (h : params'.baseQuantum = params.baseQuantum) {limit : Nat}
    (haging : limit ≤ params'.agingThreshold) (hdemotion : limit < params'.demotionThreshold) :
    (priorityAging params').LikeRoundRobin params (fun _ => True) limit where
  select_eq _ _ := rfl
  timeSlice_eq p _ := levelSlice_congr h p.priority
  requeue_eq _ _ := rfl
  level_eq _ hp := if_neg (Nat.not_le.2 (Nat.lt_of_le_of_lt hp hdemotion))
  age_eq q t now hnow := by
    simp only [priorityAging, Aging.step, starved_eq_nil (Nat.le_trans hnow haging),
      List.foldl_nil, Aging.idle]

end Policy

/-! ## The same operations under another policy -/

namespace Scheduler

/-- The scheduler with another policy. -/
def withPolicy (s : Scheduler) (policy : Policy) : Scheduler := { s with policy }

variable {params : PolicyParams} {levels : Priority → Prop} {limit : Nat} {policy : Policy}
  {s : Scheduler} {p : Process}

theorem state_start_withPolicy (s : Scheduler) (policy : Policy) :
    (s.withPolicy policy).start.state = s.start.state.withPolicy policy := by
  rw [state_start, state_start]
  rfl

theorem state_stop_withPolicy (s : Scheduler) (policy : Policy) :
    (s.withPolicy policy).stop.state = s.stop.state.withPolicy policy := by
  rw [state_stop, state_stop]
  rfl

theorem honourStop_withPolicy (s : Scheduler) (policy : Policy) :
    (s.withPolicy policy).honourStop = s.honourStop.lift (·.withPolicy policy) := by
  cases hstop : s.stopRequested <;> cases hstarted : s.started <;>
    simp [honourStop, stop, withPolicy, Reply.lift, hstop, hstarted]

theorem wake_withPolicy (s : Scheduler) (policy : Policy) (pid : ProcessId) :
    (s.withPolicy policy).wake pid = (s.wake pid).lift (·.withPolicy policy) := by
  have hsame : (s.withPolicy policy).processes.get? pid = s.processes.get? pid := rfl
  rw [wake, wake, hsame]
  cases s.processes.get? pid with
  | none => rfl
  | some p =>
      by_cases hwaiting : p.state = .waiting
      · simp only [if_pos hwaiting]
        rfl
      · simp only [if_neg hwaiting]
        rfl

theorem kill_withPolicy (s : Scheduler) (policy : Policy) (pid : ProcessId) :
    (s.withPolicy policy).kill pid = (s.kill pid).lift (·.withPolicy policy) := by
  have hsame : (s.withPolicy policy).processes.get? pid = s.processes.get? pid := rfl
  rw [kill, kill, hsame]
  cases s.processes.get? pid with
  | none => rfl
  | some p => cases hstate : p.state <;> simp only [hstate] <;> rfl

theorem beginTick_withPolicy (hs : s.policy.LikeRoundRobin params levels limit)
    (h : policy.LikeRoundRobin params levels limit) (hclock : s.clock < limit) :
    (s.withPolicy policy).beginTick = s.beginTick.lift (·.withPolicy policy) := by
  simp only [beginTick, withPolicy, h.age_eq _ _ _ hclock, hs.age_eq _ _ _ hclock]
  rfl

theorem choice?_withPolicy (hs : s.policy.LikeRoundRobin params levels limit)
    (h : policy.LikeRoundRobin params levels limit) :
    (s.withPolicy policy).choice? = s.choice? := by
  simp only [choice?, withPolicy, h.select_eq, hs.select_eq]

/-- Under such a policy the end of a slice is counted, and the level is kept. -/
theorem afterExpiry_of_likeRoundRobin (h : s.policy.LikeRoundRobin params levels limit)
    (hcount : (p.consecutiveExpirations + 1).toNat ≤ limit) :
    s.afterExpiry p = { p with consecutiveExpirations := p.consecutiveExpirations + 1 } := by
  have hlevel : s.policy.levelAfterExpiry
      { p with consecutiveExpirations := p.consecutiveExpirations + 1 } = p.priority :=
    h.level_eq _ hcount
  rw [afterExpiry, hlevel, if_pos rfl]

theorem requeue_of_likeRoundRobin (h : s.policy.LikeRoundRobin params levels limit)
    (hlevel : levels p.priority) (pid : ProcessId) :
    s.requeue pid p =
      { s with
        processes := s.processes.insert pid { p with state := .ready, readySince := s.clock }
        running := none
        queues := s.queues.pushBack p.priority pid } := by
  have hrequeue : s.policy.requeueAtHead { p with state := .ready, readySince := s.clock } = false :=
    h.requeue_eq _ hlevel
  simp only [requeue, hrequeue]
  rfl

theorem settle_of_likeRoundRobin (h : s.policy.LikeRoundRobin params levels limit)
    (hlevel : levels p.priority) (hcount : (p.consecutiveExpirations + 1).toNat ≤ limit)
    (pid : ProcessId) :
    s.settle pid p (.ok .sliceExpired) =
      ⟨.ready,
        { s with
          processes := s.processes.insert pid
            { p with
              consecutiveExpirations := p.consecutiveExpirations + 1
              state := .ready
              readySince := s.clock }
          running := none
          queues := s.queues.pushBack p.priority pid
          stats := { s.stats with dispatches := s.stats.dispatches + 1 } },
        #[.processMoved pid p.state .ready]⟩ := by
  let counted : Scheduler :=
    { s with stats := { s.stats with dispatches := s.stats.dispatches + 1 } }
  have hexpiry := afterExpiry_of_likeRoundRobin (s := counted) h hcount
  have hrequeue := requeue_of_likeRoundRobin (s := counted)
    (p := { p with consecutiveExpirations := p.consecutiveExpirations + 1 }) h hlevel pid
  simp only [settle]
  rw [hexpiry, if_pos rfl, hrequeue]

theorem settle_withPolicy (hs : s.policy.LikeRoundRobin params levels limit)
    (h : policy.LikeRoundRobin params levels limit) (hlevel : levels p.priority)
    (hcount : (p.consecutiveExpirations + 1).toNat ≤ limit) (pid : ProcessId) (exit : Exit) :
    (s.withPolicy policy).settle pid p exit =
      (s.settle pid p exit).lift (·.withPolicy policy) := by
  cases exit with
  | error e => rfl
  | ok outcome =>
      cases outcome with
      | halted | waiting => rfl
      | sliceExpired =>
          rw [settle_of_likeRoundRobin hs hlevel hcount,
            settle_of_likeRoundRobin (s := s.withPolicy policy) h hlevel hcount]
          rfl

end Scheduler

end Timeshare
