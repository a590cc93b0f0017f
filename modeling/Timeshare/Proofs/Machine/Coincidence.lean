import Timeshare.Proofs.Machine.Delayed
import Timeshare.Proofs.Policy.RoundRobinLike
import Timeshare.Proofs.Scheduler.Feedback

/-!
# Policies that coincide

A machine under round robin keeps every process at the level of its submission, and counts no
more expired slices of it than there were ticks (`Machine.TakesTurns`). So a policy that decides
as round robin does for such processes has nothing to decide differently, and the machine goes
through the same history under it: each tick, each run and each request has the same answer and
leaves the same machine but for the policy (`Machine.TakesTurns.perform_withPolicy`). Real time
is such a policy as long as nothing is submitted at the highest level, and priority aging as
long as there are no more ticks than its thresholds allow (`Machine.policies_coincide`).
-/

namespace Timeshare

/-- Whether the request leaves the policy as it is. -/
def MachineRequest.keepsPolicy : MachineRequest → Bool
  | .setPolicy _ => false
  | _ => true

namespace Machine

/-- The machine with another policy. -/
def withPolicy (m : Machine) (policy : Policy) : Machine :=
  m.withScheduler (m.scheduler.withPolicy policy)

/-- The machine is under round robin, with all processes at the given levels. -/
structure TakesTurns (params : PolicyParams) (levels : Priority → Prop) (m : Machine) : Prop where
  settled : m.scheduler.Settled
  policy_eq : m.scheduler.policy = .roundRobin params
  levels : ∀ pid p, m.scheduler.processes.get? pid = some p → levels p.priority
  expirations : ∀ pid p, m.scheduler.processes.get? pid = some p →
    p.consecutiveExpirations.toNat ≤ m.scheduler.clock

variable {params : PolicyParams} {levels : Priority → Prop} {limit : Nat} {policy : Policy}
  {m : Machine} {pid : ProcessId} {p : Process} {request : MachineRequest}

/-! ## A dispatch under another policy -/

theorem runSlice_withPolicy (hm : m.scheduler.policy.LikeRoundRobin params levels limit)
    (h : policy.LikeRoundRobin params levels limit) (hlevel : levels p.priority)
    (hcount : (p.consecutiveExpirations + 1).toNat ≤ limit) (pid : ProcessId) :
    (m.withPolicy policy).runSlice pid p = (m.runSlice pid p).lift (·.withPolicy policy) := by
  have hslice : (m.withPolicy policy).scheduler.policy.timeSlice p =
      m.scheduler.policy.timeSlice p :=
    (h.timeSlice_eq p hlevel).trans (hm.timeSlice_eq p hlevel).symm
  have hpower : (m.withPolicy policy).cpu.powered = m.cpu.powered := rfl
  rw [runSlice, runSlice, hslice, hpower]
  cases m.cpu.powered with
  | false => rfl
  | true =>
      let run := m.cpu.run p.program ⟨p.context, m.memory⟩
        (some (m.scheduler.policy.timeSlice p))
      let p' : Process :=
        { p with
          context := run.workspace.context
          cpuTime := p.cpuTime + (run.workspace.context.retired - p.context.retired)
          dispatches := p.dispatches + 1 }
      have hsettle : (m.withPolicy policy).scheduler.settle pid p'
            (run.result.map Execution.outcome) =
          (m.scheduler.settle pid p' (run.result.map Execution.outcome)).lift
            (·.withPolicy policy) :=
        Scheduler.settle_withPolicy (p := p') hm h hlevel hcount pid _
      simp only [Bool.not_true, Bool.false_eq_true, if_false]
      exact congrArg (fun settled : Reply Scheduler ProcessState =>
        (⟨.ran pid (run.workspace.context.retired - p.context.retired) settled.result,
          { scheduler := settled.state, cpu := run.cpu, memory := run.workspace.memory },
          run.events ++ settled.events⟩ : Reply Machine TickOutcome)) hsettle

/-- The processes can be dispatched before the limit. -/
def WithinLimit (levels : Priority → Prop) (limit : Nat) (m : Machine) : Prop :=
  ∀ pid p, m.scheduler.processes.get? pid = some p →
    levels p.priority ∧ (p.consecutiveExpirations + 1).toNat ≤ limit

theorem dispatch_withPolicy (hm : m.scheduler.policy.LikeRoundRobin params levels limit)
    (h : policy.LikeRoundRobin params levels limit) (hwithin : m.WithinLimit levels limit)
    (pid : ProcessId) :
    (m.withPolicy policy).dispatch pid = (m.dispatch pid).lift (·.withPolicy policy) := by
  have hsame : (m.withPolicy policy).scheduler.processes.get? pid =
      m.scheduler.processes.get? pid := rfl
  rw [dispatch, dispatch, hsame]
  cases hp : m.scheduler.processes.get? pid with
  | none => rfl
  | some p =>
      obtain ⟨hlevel, hcount⟩ := hwithin pid p hp
      by_cases hready : p.state ≠ .ready
      · simp only [if_pos hready]
        rfl
      · simp only [if_neg hready]
        by_cases hkill : p.killRequested = true
        · simp only [if_pos hkill]
          rfl
        · simp only [if_neg hkill]
          have hslice := runSlice_withPolicy
            (m := m.withScheduler (m.scheduler.take pid)) (p := { p with state := .running })
            hm h hlevel hcount pid
          exact congrArg (fun reply : Reply Machine TickOutcome =>
            (⟨.ok reply.result, reply.state,
              #[Event.processMoved pid .ready .running] ++ reply.events⟩ :
              Reply Machine (Except SchedulerError TickOutcome))) hslice

theorem dispatchChoice_withPolicy (hm : m.scheduler.policy.LikeRoundRobin params levels limit)
    (h : policy.LikeRoundRobin params levels limit) (hwithin : m.WithinLimit levels limit) :
    (m.withPolicy policy).dispatchChoice = m.dispatchChoice.lift (·.withPolicy policy) := by
  have hchoice : (m.withPolicy policy).scheduler.choice? = m.scheduler.choice? :=
    Scheduler.choice?_withPolicy hm h
  rw [dispatchChoice, dispatchChoice, hchoice]
  cases m.scheduler.choice? with
  | none => rfl
  | some pid =>
      simp only [dispatch_withPolicy hm h hwithin pid, Reply.result_lift]
      cases (m.dispatch pid).result <;> rfl

/-! ## Ticks -/

theorem TakesTurns.likeRoundRobin (hm : m.TakesTurns params levels) (limit : Nat) :
    m.scheduler.policy.LikeRoundRobin params levels limit := by
  rw [hm.policy_eq]
  exact Policy.likeRoundRobin_roundRobin params levels limit

theorem TakesTurns.age_eq (hm : m.TakesTurns params levels) :
    m.scheduler.policy.age = Aging.idle := by
  rw [hm.policy_eq]
  rfl

theorem toNat_succ_le (n : UInt32) : (n + 1).toNat ≤ n.toNat + 1 := by
  rw [UInt32.toNat_add]
  exact Nat.mod_le ..

theorem TakesTurns.withinLimit_begun (hm : m.TakesTurns params levels)
    (hclock : m.scheduler.clock < limit) : m.begun.WithinLimit levels limit := by
  intro pid p hp
  rw [(begun_of_idle hm.age_eq).2] at hp
  have hcount := hm.expirations pid p hp
  have hsucc := toNat_succ_le p.consecutiveExpirations
  exact ⟨hm.levels pid p hp, by omega⟩

theorem TakesTurns.tick_withPolicy (hm : m.TakesTurns params levels)
    (h : policy.LikeRoundRobin params levels limit) (hclock : m.scheduler.clock < limit) :
    (m.withPolicy policy).tick = m.tick.lift (·.withPolicy policy) := by
  have hhonoured : (m.withPolicy policy).scheduler.honourStop =
      m.scheduler.honourStop.lift (·.withPolicy policy) := m.scheduler.honourStop_withPolicy policy
  have hlike : m.scheduler.honourStop.state.policy.LikeRoundRobin params levels limit := by
    rw [Scheduler.state_honourStop]
    exact hm.likeRoundRobin limit
  have htime : m.scheduler.honourStop.state.clock < limit := by
    rw [Scheduler.state_honourStop]
    exact hclock
  have hbegin := Scheduler.beginTick_withPolicy hlike h htime
  have hdispatch : (m.begun.withPolicy policy).dispatchChoice =
      m.begun.dispatchChoice.lift (·.withPolicy policy) :=
    dispatchChoice_withPolicy hlike h (hm.withinLimit_begun hclock)
  have hsame : (m.scheduler.honourStop.state.withPolicy policy).started =
      m.scheduler.honourStop.state.started := rfl
  simp only [tick, hhonoured, Reply.state_lift, hsame]
  by_cases hstarted : (!m.scheduler.honourStop.state.started) = true
  · simp only [if_pos hstarted]
    rfl
  · simp only [if_neg hstarted, hbegin]
    exact congrArg (fun reply : Reply Machine TickOutcome =>
      (⟨reply.result, reply.state, m.scheduler.honourStop.events ++
        m.scheduler.honourStop.state.beginTick.events ++ reply.events⟩ :
        Reply Machine TickOutcome)) hdispatch

/-- A tick is stopped, or the time advances by one. -/
theorem clock_tick (m : Machine) :
    (m.tick.result = .stopped ∧ m.tick.state.scheduler.clock = m.scheduler.clock) ∨
      m.tick.state.scheduler.clock = m.scheduler.clock + 1 := by
  obtain ⟨-, hresult, hstate⟩ | ⟨-, hd⟩ := ticked_tick m
  · rw [hstate, Scheduler.state_honourStop]
    exact .inl ⟨hresult, rfl⟩
  · rw [hd.kept.2.2.2.1, begun, Scheduler.state_honourStop]
    exact .inr rfl

theorem clock_tick_le (m : Machine) :
    m.scheduler.clock ≤ m.tick.state.scheduler.clock ∧
      m.tick.state.scheduler.clock ≤ m.scheduler.clock + 1 := by
  obtain ⟨-, hclock⟩ | hclock := m.clock_tick <;> omega

/-- A process whose slice expired keeps its level, and what is counted of it grows with the
time. -/
theorem TakesTurns.tick (hm : m.TakesTurns params levels) :
    m.tick.state.TakesTurns params levels := by
  have hpolicy : m.tick.state.scheduler.policy = .roundRobin params :=
    m.policy_tick.trans hm.policy_eq
  have hrecord : ∀ pid q, m.tick.state.scheduler.processes.get? pid = some q →
      levels q.priority ∧ q.consecutiveExpirations.toNat ≤ m.tick.state.scheduler.clock := by
    intro pid q hq
    obtain ⟨p, hp, -⟩ := (ticked_get? hm.settled).exists_of_get? hq
    have hbuiltIn : m.scheduler.policy.BuiltIn := ⟨.roundRobin, params, hm.policy_eq⟩
    obtain ⟨q', hq', hstanding⟩ :=
      exists_standing_tick hbuiltIn ((processes_atDispatch hm.age_eq).symm ▸ hp)
    rw [hq] at hq'
    cases hq'
    have hlevel := hm.levels pid p hp
    have hcount := hm.expirations pid p hp
    have hclock := m.clock_tick_le
    rw [Scheduler.standingAfter] at hstanding
    split at hstanding
    next hleaves =>
      have hlike : m.atDispatch.policy.LikeRoundRobin params levels
          (p.consecutiveExpirations + 1).toNat :=
        m.policy_atDispatch ▸ hm.likeRoundRobin _
      rw [Scheduler.afterExpiry_of_likeRoundRobin hlike (Nat.le_refl _)] at hstanding
      obtain ⟨hsame, (hnext : _ = p.consecutiveExpirations + 1)⟩ := Prod.mk.inj hstanding
      have hsucc := toNat_succ_le p.consecutiveExpirations
      obtain ⟨hstopped, -⟩ | hlater := m.clock_tick
      · rw [hstopped] at hleaves
        cases hleaves
      · exact ⟨hsame ▸ hlevel, by rw [hnext]; omega⟩
    next =>
      split at hstanding
      · obtain ⟨hsame, hnone⟩ := Prod.mk.inj hstanding
        exact ⟨hsame ▸ hlevel, hnone ▸ Nat.zero_le _⟩
      · obtain ⟨hsame, hkept⟩ := Prod.mk.inj hstanding
        exact ⟨hsame ▸ hlevel, by rw [hkept]; omega⟩
  exact ⟨settled_tick m hm.settled, hpolicy, fun pid q hq => (hrecord pid q hq).1,
    fun pid q hq => (hrecord pid q hq).2⟩

/-! ## Requests -/

theorem TakesTurns.runAfter_withPolicy (hm : m.TakesTurns params levels)
    (h : policy.LikeRoundRobin params levels limit) (maxTicks : Nat)
    (hlimit : m.scheduler.clock + (m.runOutcomes maxTicks).length ≤ limit)
    (events : Array Event) :
    runAfter events maxTicks (m.withPolicy policy) =
      (runAfter events maxTicks m).lift (·.withPolicy policy) := by
  induction maxTicks generalizing m events with
  | zero => rfl
  | succ maxTicks ih =>
      rw [runOutcomes, List.length_cons] at hlimit
      have htick := hm.tick_withPolicy h (by omega)
      have hresult : (m.withPolicy policy).tick.result = m.tick.result := by
        rw [htick]
        rfl
      cases hexit : m.tick.result.exit? with
      | some exit =>
          rw [runAfter_succ_of_exit hexit, runAfter_succ_of_exit (hresult ▸ hexit), htick]
          rfl
      | none =>
          rw [runAfter_succ_of_ran hexit, runAfter_succ_of_ran (hresult ▸ hexit), htick]
          have hclock := m.clock_tick_le
          rw [hexit] at hlimit
          exact ih hm.tick (by simp only at hlimit; omega) _

/-- The request has the same answer under the other policy and leaves the same machine but for
the policy. -/
theorem TakesTurns.perform_withPolicy (hm : m.TakesTurns params levels)
    (h : policy.LikeRoundRobin params levels limit) (hkeeps : request.keepsPolicy = true)
    (hlimit : m.scheduler.clock + (m.outcomesOf request).length ≤ limit) :
    ((m.withPolicy policy).perform request).result = (m.perform request).result ∧
      (m.withPolicy policy).after request = (m.after request).withPolicy policy := by
  cases request with
  | setPolicy => cases hkeeps
  | power | requestStop | submit | submitAt | reap | memory => exact ⟨rfl, rfl⟩
  | start => exact ⟨rfl, congrArg m.withScheduler (m.scheduler.state_start_withPolicy policy)⟩
  | stop => exact ⟨rfl, congrArg m.withScheduler (m.scheduler.state_stop_withPolicy policy)⟩
  | wake pid =>
      have hwake := m.scheduler.wake_withPolicy policy pid
      have hresult := congrArg Reply.result hwake
      have hstate := congrArg Reply.state hwake
      exact ⟨congrArg MachineAnswer.decided hresult, congrArg m.withScheduler hstate⟩
  | kill pid =>
      have hkill := m.scheduler.kill_withPolicy policy pid
      have hresult := congrArg Reply.result hkill
      have hstate := congrArg Reply.state hkill
      exact ⟨congrArg MachineAnswer.decided hresult, congrArg m.withScheduler hstate⟩
  | tick =>
      have htick := hm.tick_withPolicy h hlimit
      have hresult := congrArg Reply.result htick
      exact ⟨congrArg MachineAnswer.ticked hresult, congrArg Reply.state htick⟩
  | run maxTicks =>
      have hrun := hm.runAfter_withPolicy h maxTicks hlimit #[]
      have hresult := congrArg Reply.result hrun
      exact ⟨congrArg MachineAnswer.ran hresult, congrArg Reply.state hrun⟩

theorem TakesTurns.run (hm : m.TakesTurns params levels) (maxTicks : Nat) :
    (m.run maxTicks).state.TakesTurns params levels ∧
      (m.run maxTicks).state.scheduler.clock ≤
        m.scheduler.clock + (m.runOutcomes maxTicks).length := by
  have hrun := runOutcomes_induction (m := m)
    (P := fun outcomes m' => m'.TakesTurns params levels ∧
      m'.scheduler.clock ≤ m.scheduler.clock + outcomes.length)
    ?_ [] ⟨hm, Nat.le_refl _⟩ maxTicks
  · exact hrun
  · rintro outcomes m' ⟨hm', hclock⟩
    have hnext := m'.clock_tick_le
    refine ⟨hm'.tick, ?_⟩
    rw [List.length_append, List.length_singleton]
    omega

theorem clock_after (hticks : request.ticks = false) :
    (m.after request).scheduler.clock = m.scheduler.clock := by
  cases request with
  | tick | run => cases hticks
  | start => exact m.scheduler.extends_start.clock_eq
  | stop =>
      change m.scheduler.stop.state.clock = m.scheduler.clock
      rw [Scheduler.state_stop]
  | wake pid => exact (m.scheduler.extends_wake pid).clock_eq
  | kill pid => exact (m.scheduler.extends_kill pid).clock_eq
  | _ => rfl

/-- What is requested leaves every process at one of the given levels, if nothing is submitted
at another one. -/
theorem TakesTurns.after (hm : m.TakesTurns params levels) (hkeeps : request.keepsPolicy = true)
    (hlevels : ∀ level, request.submitsAt? = some level → levels level) :
    (m.after request).TakesTurns params levels ∧
      (m.after request).scheduler.clock ≤
        m.scheduler.clock + (m.outcomesOf request).length := by
  cases hticks : request.ticks with
  | true =>
      cases request with
      | tick => exact ⟨hm.tick, m.clock_tick_le.2⟩
      | run maxTicks => exact hm.run maxTicks
      | _ => cases hticks
  | false =>
      have hclock := clock_after (m := m) hticks
      have hstep : request.isStep = true := by
        cases request with
        | setPolicy => cases hkeeps
        | run => cases hticks
        | _ => rfl
      have hpolicy : (m.after request).scheduler.policy = .roundRobin params :=
        (m.policy_after hstep).trans hm.policy_eq
      have hrecord : ∀ pid q, (m.after request).scheduler.processes.get? pid = some q →
          levels q.priority ∧ q.consecutiveExpirations.toNat ≤ m.scheduler.clock := by
        intro pid q hq
        obtain ⟨p, hp, hhandled⟩ | ⟨-, program, level, hlevel, rfl⟩ :=
          hm.settled.record_afterCall ⟨request, m.cpu, m.memory⟩ hticks hq
        · obtain ⟨hlevel, hcount⟩ := Prod.mk.inj hhandled.standing_eq
          rw [hlevel, hcount]
          exact ⟨hm.levels pid p hp, hm.expirations pid p hp⟩
        · exact ⟨hlevels level hlevel, Nat.zero_le _⟩
      refine ⟨⟨settled_after hm.settled (MachineRequest.agesByRule_of_isStep hstep),
        hpolicy, fun pid q hq => (hrecord pid q hq).1,
        fun pid q hq => ?_⟩, Nat.le_trans (Nat.le_of_eq hclock) (Nat.le_add_right ..)⟩
      rw [hclock]
      exact (hrecord pid q hq).2

/-- A history goes on in the same way under the other policy. -/
theorem TakesTurns.afterAll_withPolicy (hm : m.TakesTurns params levels)
    (h : policy.LikeRoundRobin params levels limit) {requests : List MachineRequest}
    (hkeeps : ∀ request ∈ requests, request.keepsPolicy = true)
    (hlevels : ∀ request ∈ requests, ∀ level, request.submitsAt? = some level → levels level)
    (hlimit : m.scheduler.clock + (m.outcomes requests).length ≤ limit) :
    (m.withPolicy policy).answers requests = m.answers requests ∧
      (m.withPolicy policy).afterAll requests = (m.afterAll requests).withPolicy policy := by
  induction requests generalizing m with
  | nil => exact ⟨rfl, rfl⟩
  | cons request rest ih =>
      obtain ⟨hfirst, hrest⟩ := List.forall_mem_cons.1 hkeeps
      obtain ⟨hlevel, hlevels'⟩ := List.forall_mem_cons.1 hlevels
      rw [outcomes, List.length_append] at hlimit
      obtain ⟨hresult, hstate⟩ := hm.perform_withPolicy h hfirst (by omega)
      obtain ⟨hm', hclock⟩ := hm.after hfirst hlevel
      obtain ⟨hanswers, hleft⟩ := ih hm' hrest hlevels' (by omega)
      rw [answers, answers, hresult, afterAll_cons, afterAll_cons, hstate]
      exact ⟨congrArg _ hanswers, hleft⟩

theorem takesTurns_new (params : PolicyParams) (levels : Priority → Prop) (cpu : Cpu)
    (memory : Memory) :
    TakesTurns params levels { scheduler := .new (.roundRobin params), cpu, memory } where
  settled := Scheduler.settled_new (PolicyKind.agesByRule_build .roundRobin params)
  policy_eq := rfl
  levels _ _ hp := by cases hp
  expirations _ _ hp := by cases hp

/-- The policies coincide where they should. From new schedulers with the same base quantum, on
the same processor and memory, any history of requests that keeps the policy has the same
answers under real time as under round robin, and leaves the same queues, records, statistics,
processor and memory, if nothing is submitted at the highest level; and it does so under
priority aging if its ticks are not more than the aging threshold and less than the demotion
threshold. -/
theorem policies_coincide {params params' : PolicyParams}
    (hquantum : params'.baseQuantum = params.baseQuantum) (cpu : Cpu) (memory : Memory)
    {requests : List MachineRequest}
    (hkeeps : ∀ request ∈ requests, request.keepsPolicy = true) :
    let start (policy : Policy) : Machine := { scheduler := .new policy, cpu, memory }
    let inTurns := start (.roundRobin params)
    let realTime := start (.realTime params')
    let aging := start (.priorityAging params')
    ((∀ program, .submitAt program .highest ∉ requests) →
      realTime.answers requests = inTurns.answers requests ∧
        realTime.afterAll requests =
          (inTurns.afterAll requests).withPolicy (.realTime params')) ∧
    ((inTurns.outcomes requests).length ≤ params'.agingThreshold →
      (inTurns.outcomes requests).length < params'.demotionThreshold →
      aging.answers requests = inTurns.answers requests ∧
        aging.afterAll requests =
          (inTurns.afterAll requests).withPolicy (.priorityAging params')) := by
  intro start inTurns realTime aging
  refine ⟨fun hband => ?_, fun haging hdemotion => ?_⟩
  · refine (takesTurns_new params (· ≠ .highest) cpu memory).afterAll_withPolicy
      (Policy.likeRoundRobin_realTime hquantum _) hkeeps ?_ (Nat.le_refl _)
    rintro request hmem level hlevel rfl
    cases request with
    | submit => cases hlevel
    | submitAt program level =>
        cases hlevel
        exact hband program hmem
    | _ => cases hlevel
  · exact (takesTurns_new params (fun _ => True) cpu memory).afterAll_withPolicy
      (Policy.likeRoundRobin_priorityAging hquantum haging hdemotion) hkeeps
      (fun _ _ _ _ => trivial) (Nat.le_of_eq (Nat.zero_add _))

/-- Ten ticks, with the thresholds right beyond them: a process that loops and is killed, one
that waits and halts, and one that faults, with the power off at both ends. -/
theorem policies_coincide_of_ten_ticks :
    let params : PolicyParams := { baseQuantum := 2 }
    let params' : PolicyParams :=
      { baseQuantum := 2, agingThreshold := 10, demotionThreshold := 11 }
    let requests : List MachineRequest :=
      [.submitAt (.ofList [.loadImm 0 7, .jump 0]) 1, .submit (.ofList [.nop, .wait, .halt]),
        .start, .tick, .power true, .run 3, .submitAt (.ofList [.load 0 9 0]) .lowest, .wake 2,
        .run 3, .kill 1, .requestStop, .tick, .power false, .start, .tick, .tick, .reap]
    let start (policy : Policy) : Machine := { scheduler := .new policy }
    let inTurns := start (.roundRobin params)
    let realTime := start (.realTime params')
    let aging := start (.priorityAging params')
    params'.baseQuantum = params.baseQuantum ∧
      (∀ request ∈ requests, request.keepsPolicy = true) ∧
      (∀ program, .submitAt program .highest ∉ requests) ∧
      (inTurns.outcomes requests).length = 10 ∧
      realTime.answers requests = inTurns.answers requests ∧
      realTime.afterAll requests =
        (inTurns.afterAll requests).withPolicy (.realTime params') ∧
      aging.answers requests = inTurns.answers requests ∧
      aging.afterAll requests =
        (inTurns.afterAll requests).withPolicy (.priorityAging params') := by
  intro params params' requests
  have hkeeps : ∀ request ∈ requests, request.keepsPolicy = true := by decide
  have hlevels : ∀ request ∈ requests, request.submitsAt? ≠ some .highest := by decide
  have hband : ∀ program, .submitAt program .highest ∉ requests :=
    fun _ hmem => hlevels _ hmem rfl
  have h := @policies_coincide params params' rfl {} .empty requests hkeeps
  dsimp only at h ⊢
  obtain ⟨hrealTime, haging⟩ := h
  have hticks : (Machine.outcomes { scheduler := .new (.roundRobin params) } requests).length =
      10 := by
    decide +kernel
  obtain ⟨hanswers, hleft⟩ := hrealTime hband
  obtain ⟨hanswers', hleft'⟩ := haging (by rw [hticks]) (by rw [hticks]; decide)
  exact ⟨rfl, hkeeps, hband, hticks, hanswers, hleft, hanswers', hleft'⟩

end Machine

end Timeshare
