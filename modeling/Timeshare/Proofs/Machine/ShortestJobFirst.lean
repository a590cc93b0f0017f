import Mathlib.Data.List.Chain
import Timeshare.Proofs.Cpu.Straight
import Timeshare.Proofs.Machine.RealTime
import Timeshare.Proofs.Policy.LeastRemaining
import Timeshare.Proofs.Scheduler.Calls

/-!
# Shortest job first runs to completion

Under shortest job first a tick dispatches the first of the ready processes, by remaining
estimate and number. If the programs do not jump, a slice only brings that process nearer to
its end, so it is still the first, and the others have not changed. One tick therefore leaves
the list of the ready processes as it is or takes its first entry off (`ProcessTable.WorkedOff`,
`Machine.workedOff_tick`), and a history without arrivals takes the processes off in
the order of the list (`Scheduler.Reachable.shortest_job_first`).
-/

namespace Timeshare

namespace TickOutcome

/-- The process that was dispatched and did not stay ready. -/
def left? : TickOutcome → Option ProcessId
  | .ran pid _ state => if state = .ready then none else some pid
  | _ => none

/-- A process that stays ready is the one that the next tick runs. -/
def ContinuedBy (outcome next : TickOutcome) : Prop :=
  ∀ pid retired, outcome = .ran pid retired .ready → next.runs pid = true

end TickOutcome

/-- What a tick that serves the first of the ready processes makes of their list. -/
inductive ProcessTable.WorkedOff :
    List (ProcessId × Process) → TickOutcome → List (ProcessId × Process) → Prop
  | stopped (jobs : List (ProcessId × Process)) : WorkedOff jobs .stopped jobs
  | idle : WorkedOff [] .idle []
  | expired (pid : ProcessId) (p p' : Process) (rest : List (ProcessId × Process))
      (retired : Nat) : WorkedOff ((pid, p) :: rest) (.ran pid retired .ready) ((pid, p') :: rest)
  | left (pid : ProcessId) (p : Process) (rest : List (ProcessId × Process)) (retired : Nat)
      {state : ProcessState} (hstate : state ≠ .ready) :
      WorkedOff ((pid, p) :: rest) (.ran pid retired state) rest

namespace ProcessTable.WorkedOff

variable {jobs jobs' : List (ProcessId × Process)} {outcome : TickOutcome} {pid : ProcessId}
  {retired : Nat}

/-- The list loses whoever did not stay ready, and nobody else. -/
theorem map_eq (h : WorkedOff jobs outcome jobs') :
    jobs.map (·.1) = [outcome].filterMap TickOutcome.left? ++ jobs'.map (·.1) := by
  cases h with
  | stopped | idle | expired => rfl
  | left pid p rest retired hstate => simp [TickOutcome.left?, hstate]

theorem runs_first (h : WorkedOff jobs outcome jobs') (hstopped : outcome ≠ .stopped)
    (hfirst : jobs.head?.map (·.1) = some pid) : outcome.runs pid = true := by
  cases h with
  | stopped => exact absurd rfl hstopped
  | idle => cases hfirst
  | expired | left => exact beq_iff_eq.2 (Option.some.inj hfirst)

theorem head?_eq (h : WorkedOff jobs (.ran pid retired .ready) jobs') :
    jobs'.head?.map (·.1) = some pid := by
  cases h with
  | expired => rfl
  | left _ _ _ _ hstate => exact absurd rfl hstate

end ProcessTable.WorkedOff

namespace Scheduler

/-- The scheduler dispatches the shortest job, and no ready process has a program that
jumps. -/
structure Straight (s : Scheduler) (params : PolicyParams) : Prop where
  settled : s.Settled
  policy_eq : s.policy = .shortestJobFirst params
  straight : ∀ pid p, s.processes.get? pid = some p → p.state = .ready → p.program.Straight

theorem state_filed_eq_ready_iff (s : Scheduler) (p : Process) (exit : Exit) :
    (s.filed p exit).state = .ready ↔ exit = .ok .sliceExpired := by
  rcases exit with e | outcome
  · simp [filed]
  · cases outcome <;> simp [filed]

theorem remainingEstimate_filed (s : Scheduler) (p : Process) (exit : Exit) :
    (s.filed p exit).remainingEstimate = p.remainingEstimate := by
  simp [Process.remainingEstimate]

end Scheduler

namespace Machine

variable {m m' : Machine} {params : PolicyParams} {outcome : TickOutcome}

/-- A tick that is neither stopped nor idle dispatches the ready process that the policy
chooses. -/
theorem Dispatched.exists_chosen (h : m.Dispatched outcome m') (hidle : outcome ≠ .idle) :
    ∃ pid p, outcome.chosen? = some pid ∧ m.scheduler.choice? = some pid ∧
      m.scheduler.processes.get? pid = some p ∧ p.state = .ready := by
  cases h with
  | idle | discarded => exact absurd rfl hidle
  | killed hchoice hp hready | putBack hchoice hp hready | ran hchoice hp hready =>
      exact ⟨_, _, rfl, hchoice, hp, hready⟩

variable {pid : ProcessId} {p : Process}

/-- The scheduler at the tick has the processes of the one before it, and chooses the first of
them. -/
theorem begun_of_shortestJobFirst (h : m.scheduler.Settled)
    (hpolicy : m.scheduler.policy = .shortestJobFirst params) :
    m.begun.scheduler.policy = .shortestJobFirst params ∧
      m.begun.scheduler.processes = m.scheduler.processes ∧
      m.begun.scheduler.choice? = m.scheduler.processes.shortestFirst.head?.map (·.1) := by
  have hage : m.scheduler.policy.age = Aging.idle := by
    rw [hpolicy]
    rfl
  have hbegun := m.policy_begun.trans hpolicy
  have hprocesses := (begun_of_idle hage).2
  have hsettled : m.begun.scheduler.Settled := h.honourStop.beginTick
  refine ⟨hbegun, hprocesses, ?_⟩
  rw [hsettled.choice?_of_shortestJobFirst hbegun, hprocesses]

/-- Who is chosen at the tick is the first of the ready processes. -/
theorem exists_rest_of_choice? (h : m.scheduler.Settled)
    (hpolicy : m.scheduler.policy = .shortestJobFirst params)
    (hchoice : m.begun.scheduler.choice? = some pid)
    (hp : m.begun.scheduler.processes.get? pid = some p) :
    ∃ rest, m.scheduler.processes.shortestFirst = (pid, p) :: rest := by
  obtain ⟨-, hprocesses, hbegun⟩ := begun_of_shortestJobFirst h hpolicy
  rw [hbegun] at hchoice
  obtain ⟨⟨first, q⟩, hhead, rfl⟩ := Option.map_eq_some_iff.1 hchoice
  obtain ⟨hq, -⟩ := ProcessTable.mem_shortestFirst.1 (List.mem_of_head? hhead)
  rw [hprocesses, hq] at hp
  cases hp
  exact List.head?_eq_some_iff.1 hhead

/-- A process without jumps whose slice expired is nearer to its end by the slice. -/
theorem remainingEstimate_of_expired {exit : Exit} {quantum : Nat}
    (hpower : m.cpu.powered = true) (hstraight : p.program.Straight) (hquantum : 1 ≤ quantum)
    (hslice : m.scheduler.policy.timeSlice { p with state := .running } = quantum)
    (hexit : m.sliceExit p = .ok .sliceExpired) (s : Scheduler) :
    (s.filed (p.afterRun (m.slice p).workspace.context) exit).remainingEstimate + quantum =
      p.remainingEstimate := by
  rw [sliceExit_eq hpower, hslice] at hexit
  rw [Scheduler.remainingEstimate_filed, workspace_slice hpower, hslice]
  exact hstraight.remainingEstimate_resume hquantum hexit

theorem Dispatched.workedOff (hd : m.begun.Dispatched outcome m')
    (h : m.scheduler.Straight params) (hquantum : 1 ≤ params.baseQuantum)
    (hpower : m.cpu.powered = true) :
    ProcessTable.WorkedOff m.scheduler.processes.shortestFirst outcome
        m'.scheduler.processes.shortestFirst ∧
      ∀ pid p, m'.scheduler.processes.get? pid = some p → p.state = .ready →
        p.program.Straight := by
  obtain ⟨hpolicy, hprocesses, hbegun⟩ := begun_of_shortestJobFirst h.settled h.policy_eq
  cases hd with
  | idle hchoice =>
      rw [hbegun, Option.map_eq_none_iff, List.head?_eq_none_iff] at hchoice
      have hkept : m.begun.idle.scheduler.processes = m.scheduler.processes := hprocesses
      rw [hkept, hchoice]
      exact ⟨.idle, h.straight⟩
  | @discarded pid queues hchoice hready hqueues =>
      have hbuiltIn : m.begun.scheduler.policy.BuiltIn := ⟨.shortestJobFirst, params, hpolicy⟩
      have hsettled : m.begun.scheduler.Settled := h.settled.honourStop.beginTick
      obtain ⟨p, hp, hr⟩ := hsettled.ready_of_choice? hbuiltIn hchoice
      exact absurd hr (hready p hp)
  | @killed pid p hchoice hp hready hkill =>
      obtain ⟨rest, hfirst⟩ := exists_rest_of_choice? h.settled h.policy_eq hchoice hp
      have hgone : ({ p with state := .terminated, fault := some .killed } : Process).state ≠
          .ready := nofun
      change ProcessTable.WorkedOff _ _ (ProcessTable.shortestFirst
        (m.begun.scheduler.processes.insert pid _)) ∧ _
      rw [hprocesses, hfirst, ProcessTable.shortestFirst_insert_of_not_ready hfirst hgone]
      refine ⟨.left pid p rest 0 (by simp), ?_⟩
      exact Table.forall_get?_insert (hprocesses ▸ h.straight) fun hready => absurd hready hgone
  | @putBack pid p hchoice hp hready hkill hoff =>
      have hoff : m.cpu.powered = false := hoff
      rw [hpower] at hoff
      cases hoff
  | @ran pid p hchoice hp hready hkill hon =>
      obtain ⟨rest, hfirst⟩ := exists_rest_of_choice? h.settled h.policy_eq hchoice hp
      have hstraight := h.straight pid p (hprocesses ▸ hp) hready
      have hslice : m.begun.scheduler.policy.timeSlice { p with state := .running } =
          params.baseQuantum := by
        rw [hpolicy]
        rfl
      rw [Scheduler.state_settle]
      set filed := (m.begun.scheduler.take pid).filed
        (p.afterRun (m.begun.slice p).workspace.context) (m.begun.sliceExit p)
      have hprogram : filed.program = p.program := Scheduler.program_filed ..
      change ProcessTable.WorkedOff _ _ (ProcessTable.shortestFirst
        (m.begun.scheduler.processes.insert pid filed)) ∧ _
      rw [hprocesses, hfirst]
      refine ⟨?_, Table.forall_get?_insert (hprocesses ▸ h.straight) fun _ =>
        hprogram ▸ hstraight⟩
      by_cases hstate : filed.state = .ready
      · have hexit := (Scheduler.state_filed_eq_ready_iff ..).1 hstate
        have hnearer : filed.remainingEstimate + params.baseQuantum = p.remainingEstimate :=
          remainingEstimate_of_expired hon hstraight hquantum hslice hexit _
        rw [hstate, ProcessTable.shortestFirst_insert_of_le hfirst hstate (by omega)]
        exact .expired ..
      · rw [ProcessTable.shortestFirst_insert_of_not_ready hfirst hstate]
        exact .left _ _ _ _ hstate

theorem workedOff_tick (h : m.scheduler.Straight params) (hquantum : 1 ≤ params.baseQuantum)
    (hpower : m.cpu.powered = true) :
    ProcessTable.WorkedOff m.scheduler.processes.shortestFirst m.tick.result
        m.tick.state.scheduler.processes.shortestFirst ∧
      m.tick.state.scheduler.Straight params ∧ m.tick.state.cpu.powered = true := by
  have hsettled := settled_tick m h.settled
  have hpolicy := m.policy_tick.trans h.policy_eq
  obtain ⟨-, hresult, hstate⟩ | ⟨-, hd⟩ := ticked_tick m
  · have hprocesses : m.tick.state.scheduler.processes = m.scheduler.processes := by
      rw [hstate, Scheduler.processes_honourStop]
    rw [hresult, hprocesses]
    refine ⟨.stopped _, ⟨hsettled, hpolicy, hprocesses ▸ h.straight⟩, ?_⟩
    rw [hstate]
    exact hpower
  · obtain ⟨hworked, hstraight⟩ := hd.workedOff h hquantum hpower
    exact ⟨hworked, ⟨hsettled, hpolicy, hstraight⟩, hd.kept.2.2.2.2.trans hpower⟩

end Machine

/-! ## Histories -/

namespace Scheduler

/-- From the processes in the given order, the ticks with the given outcomes took off the first
ones one after the other, and the scheduler has the rest of them, with one that was not finished
in front. -/
structure WorksOff (params : PolicyParams) (order : List ProcessId) (outcomes : List TickOutcome)
    (s : Scheduler) : Prop where
  straight : s.Straight params
  order_eq : order = outcomes.filterMap TickOutcome.left? ++ s.processes.shortestFirst.map (·.1)
  chain : (outcomes.filter (· ≠ .stopped)).IsChain TickOutcome.ContinuedBy
  unfinished : ∀ pid retired,
    (outcomes.filter (· ≠ .stopped)).getLast? = some (.ran pid retired .ready) →
      s.processes.shortestFirst.head?.map (·.1) = some pid

variable {params : PolicyParams} {order : List ProcessId} {outcomes : List TickOutcome}
  {outcome : TickOutcome} {s s' : Scheduler}

theorem WorksOff.snoc (h : WorksOff params order outcomes s) (hs : s'.Straight params)
    (hw : ProcessTable.WorkedOff s.processes.shortestFirst outcome s'.processes.shortestFirst) :
    WorksOff params order (outcomes ++ [outcome]) s' := by
  have horder : order = (outcomes ++ [outcome]).filterMap TickOutcome.left? ++
      s'.processes.shortestFirst.map (·.1) := by
    rw [h.order_eq, hw.map_eq, List.filterMap_append, List.append_assoc]
  by_cases hstopped : outcome = .stopped
  · subst hstopped
    have hkept : (outcomes ++ [TickOutcome.stopped]).filter (· ≠ .stopped) =
        outcomes.filter (· ≠ .stopped) := by
      simp
    have hsame : s'.processes.shortestFirst = s.processes.shortestFirst := by
      generalize s.processes.shortestFirst = jobs, s'.processes.shortestFirst = jobs' at hw
      cases hw
      rfl
    refine ⟨hs, horder, ?_, ?_⟩
    · rw [hkept]
      exact h.chain
    · rw [hkept, hsame]
      exact h.unfinished
  · have hkept : (outcomes ++ [outcome]).filter (· ≠ .stopped) =
        outcomes.filter (· ≠ .stopped) ++ [outcome] := by
      simp [hstopped]
    refine ⟨hs, horder, ?_, ?_⟩
    · rw [hkept]
      refine h.chain.append (List.isChain_singleton _) fun last hlast next hnext => ?_
      rintro pid retired rfl
      obtain rfl := Option.some.inj hnext
      exact hw.runs_first hstopped (h.unfinished pid retired hlast)
    · intro pid retired hlast
      rw [hkept, List.getLast?_concat] at hlast
      cases hlast
      exact hw.head?_eq

/-- A call without a tick goes by unless it changes which processes are ready. -/
theorem WorksOff.pass {call : Call} (h : WorksOff params order outcomes s)
    (hstep : call.request.isStep = true) (hnone : (s.on call).outcomesOf call.request = [])
    (hready : ∀ pid p, p.state = .ready →
      ((s.afterCall call).processes.get? pid = some p ↔ s.processes.get? pid = some p)) :
    WorksOff params order (outcomes ++ (s.on call).outcomesOf call.request) (s.afterCall call) := by
  have hsame := ProcessTable.shortestFirst_congr hready
  have hsettled := h.straight.settled.afterCall (MachineRequest.agesByRule_of_isStep hstep)
  have hpolicy := ((s.on call).policy_after hstep).trans h.straight.policy_eq
  rw [hnone, List.append_nil]
  refine ⟨⟨hsettled, hpolicy, fun pid p hp hr => ?_⟩, ?_, h.chain, ?_⟩
  · exact h.straight.straight pid p ((hready pid p hr).1 hp) hr
  · rw [hsame]
    exact h.order_eq
  · rw [hsame]
    exact h.unfinished

theorem WorksOff.afterCall {call : Call} (h : WorksOff params order outcomes s)
    (hquantum : 1 ≤ params.baseQuantum) (hpower : call.cpu.powered = true)
    (harrives : call.request.arrives = false)
    (hpolicy : ∀ policy, call.request ≠ .setPolicy policy) :
    WorksOff params order (outcomes ++ (s.on call).outcomesOf call.request) (s.afterCall call) := by
  obtain ⟨request, cpu, memory⟩ := call
  have htick : ∀ outcomes (m : Machine),
      WorksOff params order outcomes m.scheduler ∧ m.cpu.powered = true →
        WorksOff params order (outcomes ++ [m.tick.result]) m.tick.state.scheduler ∧
          m.tick.state.cpu.powered = true := by
    rintro outcomes m ⟨hw, hpower⟩
    obtain ⟨hworked, hstraight, hpower'⟩ :=
      Machine.workedOff_tick hw.straight hquantum hpower
    exact ⟨hw.snoc hstraight hworked, hpower'⟩
  cases request with
  | submit | submitAt | wake | kill => cases harrives
  | setPolicy policy => exact absurd rfl (hpolicy policy)
  | tick => exact (htick outcomes { scheduler := s, cpu, memory } ⟨h, hpower⟩).1
  | run maxTicks =>
      exact (Machine.runOutcomes_induction (P := fun outcomes m =>
        WorksOff params order outcomes m.scheduler ∧ m.cpu.powered = true) htick outcomes
          (m := { scheduler := s, cpu, memory }) ⟨h, hpower⟩ maxTicks).1
  | power | memory | requestStop => exact h.pass rfl rfl fun _ _ _ => Iff.rfl
  | start =>
      exact h.pass rfl rfl fun pid p _ =>
        iff_of_eq (congrArg (·.get? pid = some p) s.processes_start)
  | stop =>
      exact h.pass rfl rfl fun pid p _ =>
        iff_of_eq (congrArg (·.get? pid = some p) s.processes_stop)
  | reap =>
      refine h.pass rfl rfl fun pid p hready => Table.get?_filter_eq_some_iff.trans ?_
      exact and_iff_left (by simp [Process.isTerminated, hready])

theorem WorksOff.afterCalls {calls : List Call} (h : WorksOff params order outcomes s)
    (hquantum : 1 ≤ params.baseQuantum)
    (hcalls : ∀ call ∈ calls, call.cpu.powered = true ∧ call.request.arrives = false ∧
      ∀ policy, call.request ≠ .setPolicy policy) :
    WorksOff params order (outcomes ++ s.outcomes calls) (s.afterCalls calls) := by
  induction calls generalizing s outcomes with
  | nil =>
      rw [Scheduler.outcomes, List.append_nil]
      exact h
  | cons call rest ih =>
      obtain ⟨⟨hpower, harrives, hpolicy⟩, hrest⟩ := List.forall_mem_cons.1 hcalls
      rw [Scheduler.outcomes, ← List.append_assoc]
      exact ih (h.afterCall hquantum hpower harrives hpolicy) hrest

theorem Straight.worksOff (h : s.Straight params) :
    WorksOff params (s.processes.shortestFirst.map (·.1)) [] s where
  straight := h
  order_eq := rfl
  chain := .nil
  unfinished := nofun

/-- Under shortest job first, a tick that is neither stopped nor idle dispatches the ready
process with the least remaining estimate, and the least number among several with this
estimate. If no program of a ready process jumps, the processor is on, and nothing arrives or
changes the policy, then a process that is dispatched runs at every tick until it is no longer
ready, and the processes cease to be ready in the order in which their estimates and numbers
were at first. -/
theorem Reachable.shortest_job_first (h : s.Reachable)
    (hpolicy : s.policy = .shortestJobFirst params) :
    (∀ cpu memory, let outcome := ({ scheduler := s, cpu, memory } : Machine).tick.result
      outcome ≠ .stopped → outcome ≠ .idle →
        ∃ pid p, outcome.chosen? = some pid ∧ s.processes.get? pid = some p ∧ p.state = .ready ∧
          ∀ other q, s.processes.get? other = some q → q.state = .ready →
            p.remainingEstimate < q.remainingEstimate ∨
              p.remainingEstimate = q.remainingEstimate ∧ pid ≤ other) ∧
    (1 ≤ params.baseQuantum →
      (∀ pid p, s.processes.get? pid = some p → p.state = .ready → p.program.Straight) →
      ∀ calls : List Call,
        (∀ call ∈ calls, call.cpu.powered = true ∧ call.request.arrives = false ∧
          ∀ policy, call.request ≠ .setPolicy policy) →
        ((s.outcomes calls).filter (· ≠ .stopped)).IsChain TickOutcome.ContinuedBy ∧
          s.processes.shortestFirst.map (·.1) =
            (s.outcomes calls).filterMap TickOutcome.left? ++
              (s.afterCalls calls).processes.shortestFirst.map (·.1)) := by
  constructor
  · intro cpu memory outcome hstopped hidle
    obtain ⟨-, hresult, -⟩ | ⟨-, hd⟩ :=
      Machine.ticked_tick { scheduler := s, cpu, memory }
    · exact absurd hresult hstopped
    · obtain ⟨pid, p, hchosen, hchoice, hp, hready⟩ := hd.exists_chosen hidle
      obtain ⟨rest, hfirst⟩ := Machine.exists_rest_of_choice? h.settled hpolicy hchoice hp
      have hhead : s.processes.shortestFirst.head? = some (pid, p) := congrArg List.head? hfirst
      obtain ⟨hp, hready⟩ := ProcessTable.mem_shortestFirst.1 (List.mem_of_head? hhead)
      refine ⟨pid, p, hchosen, hp, hready, fun other q hq hr => ?_⟩
      have hother : (other, q) ∈ s.processes.shortestFirst :=
        ProcessTable.mem_shortestFirst.2 ⟨hq, hr⟩
      exact ProcessTable.rank_le_iff.1 (ProcessTable.rank_le_of_head? hhead hother)
  · intro hquantum hstraight calls hcalls
    have hstart : s.Straight params := ⟨h.settled, hpolicy, hstraight⟩
    have hend := hstart.worksOff.afterCalls hquantum hcalls
    exact ⟨hend.chain, hend.order_eq⟩

/-- Four jobs, one of which starts in its middle, another where it has no instruction, and a
third that waits at its end. A slice has two instructions. -/
theorem Reachable.shortest_job_first_of_four_jobs :
    let policy := Policy.shortestJobFirst { baseQuantum := 2 }
    let s := (Scheduler.new policy).afterCalls
      [{ request := .submit (.ofList [.nop, .nop, .nop, .nop, .halt]) },
        { request := .submitAt (.ofList [.nop, .nop, .nop, .wait]) .lowest },
        { request := .submit (.withEntry (.ofList [.nop, .nop, .nop, .nop, .nop, .halt]) 3) },
        { request := .submit (.withEntry (.ofList [.halt]) 7) }, { request := .start }]
    let on : Cpu := { powered := true }
    let calls : List Call := [⟨.tick, on, .empty⟩, ⟨.run 3, on, .empty⟩, ⟨.requestStop, on, .empty⟩,
      ⟨.tick, on, .empty⟩, ⟨.start, on, .empty⟩, ⟨.run 9, on, .empty⟩]
    s.Reachable ∧ s.processes.shortestFirst.map (·.1) = [4, 3, 2, 1] ∧
      (s.outcomes calls).filterMap TickOutcome.left? = [4, 3, 2, 1] ∧
      ((s.outcomes calls).filter (· ≠ .stopped)).IsChain TickOutcome.ContinuedBy := by
  intro policy s on calls
  have hreachable : s.Reachable := by
    refine Reachable.afterCalls (.new (PolicyKind.agesByRule_build .shortestJobFirst _)) ?_
    simp only [List.mem_cons, List.not_mem_nil, or_false]
    rintro call (rfl | rfl | rfl | rfl | rfl) <;> trivial
  have hpolicy : s.policy = .shortestJobFirst { baseQuantum := 2 } := rfl
  have hstraight : ∀ pid p, s.processes.get? pid = some p → p.state = .ready →
      p.program.Straight := by
    have hall : ∀ e ∈ s.processes.entries, e.2.program.Straight := by decide +kernel
    exact fun pid p hp _ => hall (pid, p) (s.processes.mem_entries_iff.2 hp)
  have hcalls : ∀ call ∈ calls, call.cpu.powered = true ∧ call.request.arrives = false ∧
      ∀ policy, call.request ≠ .setPolicy policy := by
    simp only [calls, List.mem_cons, List.not_mem_nil, or_false]
    rintro call (rfl | rfl | rfl | rfl | rfl | rfl) <;> exact ⟨rfl, rfl, nofun⟩
  obtain ⟨hchain, horder⟩ :=
    (shortest_job_first hreachable hpolicy).2 (by decide) hstraight calls hcalls
  have hjobs : s.processes.shortestFirst.map (·.1) = [4, 3, 2, 1] := by decide +kernel
  have hdone : (s.afterCalls calls).processes.shortestFirst = [] := by decide +kernel
  rw [hdone, List.map_nil, List.append_nil] at horder
  exact ⟨hreachable, hjobs, horder.symm.trans hjobs, hchain⟩

end Scheduler

end Timeshare
