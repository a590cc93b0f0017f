import Timeshare.Proofs.Machine.Balanced
import Timeshare.Proofs.Machine.Transparent

/-!
# All counters account for the same work

The ledger of a history keeps what the machine itself forgets: the programs that were
submitted, the records that were reaped, and how the ticks ended (`Machine.ledger`). A
new machine that uses a new processor and built-in policies is balanced with its ledger
after any history (`Machine.balances_afterAll`), so `Machine.counters_balance`: every
instruction, every dispatch and every fault is counted once wherever it is counted.
-/

namespace Timeshare

/-- What happened in a history and is not kept by the machine. -/
structure Ledger where
  submitted : List Program := []
  reaped : List (ProcessId × Process) := []
  outcomes : List TickOutcome := []

/-- The policies that the request hands over are built in. -/
def MachineRequest.BuiltIn : MachineRequest → Prop
  | .setPolicy policy => policy.BuiltIn
  | _ => True

namespace Machine

variable {m m' : Machine} {n missed : Nat} {gone : List (ProcessId × Process)} {l : Ledger}
  {request : MachineRequest} {pid : ProcessId} {retired : Nat} {state : ProcessState}
  {outcome : TickOutcome}

/-! ## The ledger of a history -/

/-- The outcomes of the ticks of a run. -/
def runOutcomes : Nat → Machine → List TickOutcome
  | 0, _ => []
  | maxTicks + 1, m =>
    m.tick.result ::
      match m.tick.result.exit? with
      | some _ => []
      | none => runOutcomes maxTicks m.tick.state

/-- The outcomes of the ticks of a request. -/
def outcomesOf (m : Machine) : MachineRequest → List TickOutcome
  | .tick => [m.tick.result]
  | .run maxTicks => m.runOutcomes maxTicks
  | _ => []

/-- The records that a request removes from the table. -/
def reapedBy (m : Machine) : MachineRequest → List (ProcessId × Process)
  | .reap => (m.scheduler.processes.filter fun _ p => p.isTerminated).entries
  | _ => []

/-- The ledger after a request. -/
def record (m : Machine) (l : Ledger) (request : MachineRequest) : Ledger where
  submitted := l.submitted ++ request.submits?.toList
  reaped := l.reaped ++ m.reapedBy request
  outcomes := l.outcomes ++ m.outcomesOf request

/-- The ledger after a history, in front of which stands what happened before. -/
def ledger (m : Machine) (l : Ledger) : List MachineRequest → Ledger
  | [] => l
  | request :: rest => (m.after request).ledger (m.record l request) rest

/-- The machine is balanced with the ledger. -/
def Balances (m : Machine) (l : Ledger) : Prop :=
  m.Balanced l.submitted.length l.reaped (l.outcomes.countP (·.isUnavailable))

/-- A run is as many ticks as it has outcomes. -/
theorem state_run (m : Machine) (maxTicks : Nat) :
    (m.run maxTicks).state =
      m.afterAll (List.replicate (m.runOutcomes maxTicks).length .tick) := by
  rw [Machine.run]
  generalize #[] = events
  induction maxTicks generalizing m events with
  | zero => rfl
  | succ maxTicks ih =>
      simp only [runAfter, runOutcomes]
      cases m.tick.result.exit? with
      | some exit => rfl
      | none => exact ih m.tick.state _

theorem Balanced.run (h : m.Balanced n gone missed) (maxTicks : Nat) :
    (m.run maxTicks).state.Balanced n gone
      (missed + (m.runOutcomes maxTicks).countP (·.isUnavailable)) := by
  rw [Machine.run]
  generalize #[] = events
  induction maxTicks generalizing m missed events with
  | zero => exact h
  | succ maxTicks ih =>
      have htick := h.tick
      rw [runOutcomes, List.countP_cons, Nat.add_comm (List.countP _ _), ← Nat.add_assoc]
      simp only [runAfter]
      cases m.tick.result.exit? with
      | some exit => exact htick
      | none => exact ih htick _

/-- A request that submits and reaps nothing and does not tick. -/
theorem record_of_quiet (hsubmits : request.submits? = none) (hreaped : m.reapedBy request = [])
    (houtcomes : m.outcomesOf request = []) : m.record l request = l := by
  rw [record, hsubmits, hreaped, houtcomes, Option.toList_none, List.append_nil, List.append_nil,
    List.append_nil]

theorem Balances.after (h : m.Balances l) (hr : request.BuiltIn) :
    (m.after request).Balances (m.record l request) := by
  rw [Balances] at h
  cases request with
  | submit program | submitAt program priority =>
      simp only [Balances, record, reapedBy, outcomesOf, MachineRequest.submits?,
        Option.toList_some, List.length_append, List.length_singleton, List.append_nil]
      exact h.submitAt program _
  | reap =>
      simp only [Balances, record, reapedBy, outcomesOf, MachineRequest.submits?,
        Option.toList_none, List.append_nil]
      exact h.reap
  | tick =>
      simp only [Balances, record, reapedBy, outcomesOf, MachineRequest.submits?,
        Option.toList_none, List.append_nil, List.countP_append, List.countP_singleton]
      exact h.tick
  | run maxTicks =>
      simp only [Balances, record, reapedBy, outcomesOf, MachineRequest.submits?,
        Option.toList_none, List.append_nil, List.countP_append]
      exact h.run maxTicks
  | power on =>
      rw [record_of_quiet rfl rfl rfl]
      exact h.setPower on
  | start =>
      rw [record_of_quiet rfl rfl rfl]
      exact h.start
  | stop =>
      rw [record_of_quiet rfl rfl rfl]
      exact h.stop
  | requestStop =>
      rw [record_of_quiet rfl rfl rfl]
      exact h.requestStop
  | wake pid =>
      rw [record_of_quiet rfl rfl rfl]
      exact h.wake pid
  | kill pid =>
      rw [record_of_quiet rfl rfl rfl]
      exact h.kill pid
  | setPolicy policy =>
      rw [record_of_quiet rfl rfl rfl]
      exact h.setPolicy hr
  | memory request =>
      rw [record_of_quiet rfl rfl rfl]
      exact h.withMemory _

theorem Balances.afterAll {requests : List MachineRequest} (h : m.Balances l)
    (hr : ∀ request ∈ requests, request.BuiltIn) :
    (m.afterAll requests).Balances (m.ledger l requests) := by
  induction requests generalizing m l with
  | nil => exact h
  | cons request rest ih =>
      obtain ⟨hfirst, hrest⟩ := List.forall_mem_cons.1 hr
      exact ih (h.after hfirst) hrest

/-! ## The tick that ran a process -/

theorem dispatched_ran (hd : m.Dispatched (.ran pid retired state) m') :
    ∃ p p', m.scheduler.processes.get? pid = some p ∧
      m'.scheduler.processes.get? pid = some p' ∧
      p'.cpuTime = p.cpuTime + retired ∧ p'.state = state ∧
      ∀ other, other ≠ pid →
        m'.scheduler.processes.get? other = m.scheduler.processes.get? other := by
  cases hd with
  | @killed _ p hchoice hp =>
      exact ⟨p, _, hp, Table.get?_insert_self .., rfl, rfl,
        fun other hne => Table.get?_insert_of_ne _ hne.symm _⟩
  | @ran _ p hchoice hp =>
      rw [Scheduler.state_settle]
      refine ⟨p, _, hp, Table.get?_insert_self .., ?_, rfl,
        fun other hne => Table.get?_insert_of_ne _ hne.symm _⟩
      rw [Scheduler.cpuTime_filed]
      rfl

/-- A tick that ran a process changes what is counted of this process only; the others
may be raised by aging. -/
theorem tick_ran (hrule : m.scheduler.policy.AgesByRule)
    (hticked : m.tick.result = .ran pid retired state) :
    ∃ p p', m.scheduler.processes.get? pid = some p ∧
      m.tick.state.scheduler.processes.get? pid = some p' ∧
      p'.cpuTime = p.cpuTime + retired ∧ p'.state = state ∧
      ∀ other, other ≠ pid → (m.tick.state.scheduler.processes.get? other).map Process.core =
        (m.scheduler.processes.get? other).map Process.core := by
  have hcore : ∀ pid, (m.begun.scheduler.processes.get? pid).map Process.core =
      (m.scheduler.processes.get? pid).map Process.core := by
    intro pid
    rw [begun, Scheduler.state_honourStop]
    exact hrule.map_get?_age (fun _ _ _ => rfl) _ _ _ pid
  rcases ticked_tick m with ⟨-, hresult, -⟩ | ⟨-, hd⟩
  · rw [hresult] at hticked
    cases hticked
  · rw [hticked] at hd
    obtain ⟨q, p', hq, hp', htime, hstate, hothers⟩ := dispatched_ran hd
    have hself := hcore pid
    rw [hq] at hself
    obtain ⟨p, hp, hsame⟩ := Option.map_eq_some_iff.1 hself.symm
    have hbefore : p.cpuTime = q.cpuTime := (congrArg Process.cpuTime hsame :)
    refine ⟨p, p', hp, hp', hbefore ▸ htime, hstate, fun other hne => ?_⟩
    rw [hothers other hne, hcore]

/-! ## The counters -/

/-- After any history of a new machine with a new processor and built-in policies, the
counters of the processor and of the scheduler agree with the records of all processes
that were ever submitted, those that were reaped included. A tick that ran a process
charged it exactly what it retired, and no other process anything. -/
theorem counters_balance (kind : PolicyKind) (params : PolicyParams) (memory : Memory)
    {requests : List MachineRequest} (hr : ∀ request ∈ requests, request.BuiltIn) :
    let start : Machine := { scheduler := .new (kind.build params), memory }
    let m := start.afterAll requests
    let stats := m.scheduler.stats
    let l := start.ledger {} requests
    let records := l.reaped ++ m.scheduler.processes.entries
    (records.map (·.1)).Perm (List.range' 1 l.submitted.length) ∧
    m.cpu.retiredTotal = (records.map (·.2.cpuTime)).sum ∧
    m.cpu.runs = stats.dispatches ∧ m.cpu.runs = (records.map (·.2.dispatches)).sum ∧
    m.cpu.faults = stats.faults ∧
    m.cpu.faults = records.countP (fun e => e.2.isTerminated && e.2.failed) ∧
    stats.kills = records.countP (fun e => e.2.isTerminated && e.2.wasKilled) ∧
    (∀ e ∈ records, e.2.cpuTime = e.2.context.retired ∧
      (e.2.state ≠ .terminated → e.2.fault = none)) ∧
    stats.ticks = stats.idleTicks + stats.dispatches + stats.kills +
      l.outcomes.countP (·.isUnavailable) ∧
    ∀ pid retired state, m.tick.result = .ran pid retired state →
      ∃ p p', m.scheduler.processes.get? pid = some p ∧
        m.tick.state.scheduler.processes.get? pid = some p' ∧
        p'.cpuTime = p.cpuTime + retired ∧ p'.state = state ∧
        ∀ other, other ≠ pid → (m.tick.state.scheduler.processes.get? other).map Process.core =
          (m.scheduler.processes.get? other).map Process.core := by
  intro start m stats l records
  have hstart : start.Balances {} := balanced_new ⟨kind, params, rfl⟩ memory
  have h : m.Balances l := hstart.afterAll hr
  have hbooks : Books m.charged l.submitted.length records := h.books
  refine ⟨hbooks.numbers, (hbooks.sum_eq .time).symm, h.dispatches_eq.symm,
    (hbooks.sum_eq .dispatches).symm, h.faults_eq.symm, ?_, ?_, ?_, h.ticks_eq, ?_⟩
  · rw [hbooks.countP_terminated fun _ => Process.not_failed_of_fault]
    exact (hbooks.sum_eq .faults).symm
  · rw [hbooks.countP_terminated fun _ => Process.not_killed_of_fault]
    exact (hbooks.sum_eq .kills).symm
  · exact fun e he => ⟨(hbooks.sound e he).cpuTime_eq, (hbooks.sound e he).fault_eq⟩
  · exact fun pid retired state => tick_ran h.builtIn.agesByRule

/-- A process that halts, one that fails and one that is killed, a tick without power, and
another policy for a process that is still running when the others were reaped. -/
theorem counters_balance_of_reaped :
    let requests : List MachineRequest :=
      [.submit (.ofList [.loadImm 0 7, .halt]), .submit (.ofList [.load 1 0 0, .halt]),
        .submit (.ofList [.jump 0]), .start, .tick, .power true, .kill 3, .run 8, .reap,
        .setPolicy (.shortestJobFirst { baseQuantum := 2 }), .submit (.ofList [.jump 0]), .run 2]
    let start : Machine := { scheduler := .new (PolicyKind.priorityAging.build {}) }
    let m := start.afterAll requests
    let l := start.ledger {} requests
    let records := l.reaped ++ m.scheduler.processes.entries
    (∀ request ∈ requests, request.BuiltIn) ∧
      l.reaped.map (·.1) = [1, 2, 3] ∧ l.outcomes.countP (·.isUnavailable) = 1 ∧
      m.scheduler.stats.idleTicks = 1 ∧ m.scheduler.stats.ticks = 7 ∧
      m.cpu.retiredTotal = (records.map (·.2.cpuTime)).sum ∧ m.cpu.retiredTotal = 5 ∧
      m.cpu.faults = records.countP (fun e => e.2.isTerminated && e.2.failed) ∧
      m.cpu.faults = 1 := by
  intro requests
  have hr : ∀ request ∈ requests, request.BuiltIn := by
    intro request hrequest
    simp only [requests, List.mem_cons, List.not_mem_nil, or_false] at hrequest
    rcases hrequest with rfl | rfl | rfl | rfl | rfl | rfl | rfl | rfl | rfl | rfl | rfl | rfl <;>
      try trivial
    exact ⟨.shortestJobFirst, { baseQuantum := 2 }, rfl⟩
  have h := counters_balance .priorityAging {} .empty hr
  -- With the names of the machines in the way, the two sides would be computed to be compared.
  dsimp only at h ⊢
  exact ⟨hr, by decide +kernel, by decide +kernel, by decide +kernel, by decide +kernel, h.2.1,
    by decide +kernel, h.2.2.2.2.2.1, by decide +kernel⟩

end Machine

end Timeshare
