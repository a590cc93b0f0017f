import Timeshare.Proofs.Machine.Steps
import Timeshare.Proofs.Scheduler.UpToTime

/-!
# A processor without power delays the schedule

A tick that finds the processor without power puts back the process that it chose: up to the
time nothing happened (`Machine.IgnoresTime.sameUpToTime_tick`). And machines that are the same
up to the time stay the same, whatever is requested of them (`Machine.SameUpToTime.perform`). So
a history goes on in the same way if such ticks are left out of it
(`Machine.SameUpToTime.afterAll`).
-/

namespace Timeshare

/-- Whether the answer is that of a tick that found the processor without power. -/
def MachineAnswer.isUnavailable : MachineAnswer → Bool
  | .ticked outcome => outcome.isUnavailable
  | _ => false

namespace Machine

/-- The answers to a history of requests. -/
def answers (m : Machine) : List MachineRequest → List MachineAnswer
  | [] => []
  | request :: rest => (m.perform request).result :: (m.after request).answers rest

/-- The history without the ticks that found the processor without power. -/
def withoutUnavailable (m : Machine) : List MachineRequest → List MachineRequest
  | [] => []
  | request :: rest =>
    if (m.perform request).result.isUnavailable then (m.after request).withoutUnavailable rest
    else request :: (m.after request).withoutUnavailable rest

/-- The machines differ only in the time. -/
structure SameUpToTime (ordered : Prop) (m m' : Machine) : Prop where
  scheduler : m.scheduler.SameUpToTime ordered m'.scheduler
  cpu_eq : m.cpu = m'.cpu
  memory_eq : m.memory = m'.memory

/-- The machine is between two requests, under a policy that does not look at the time. -/
structure IgnoresTime (ordered : Prop) (m : Machine) : Prop where
  settled : m.scheduler.Settled
  policy : m.scheduler.policy.IgnoresTime ordered

variable {ordered : Prop} {m m' : Machine} {pid : ProcessId} {p : Process}
  {request : MachineRequest} {requests : List MachineRequest}

theorem exists_of_isUnavailable (h : (m.perform request).result.isUnavailable = true) :
    request = .tick ∧ ∃ pid, m.tick.result = .cpuUnavailable pid := by
  cases request with
  | tick =>
      change m.tick.result.isUnavailable = true at h
      cases hresult : m.tick.result with
      | cpuUnavailable pid => exact ⟨rfl, pid, rfl⟩
      | stopped | idle | ran =>
          rw [hresult] at h
          cases h
  | _ => cases h

theorem IgnoresTime.after (h : m.IgnoresTime ordered) (hr : request.isStep = true) :
    (m.after request).IgnoresTime ordered := by
  refine ⟨settled_after h.settled (MachineRequest.agesByRule_of_isStep hr), ?_⟩
  rw [policy_after m hr]
  exact h.policy

namespace SameUpToTime

theorem refl (ordered : Prop) (m : Machine) : m.SameUpToTime ordered m := ⟨.refl _ _, rfl, rfl⟩

theorem symm (h : m.SameUpToTime ordered m') : m'.SameUpToTime ordered m :=
  ⟨h.scheduler.symm, h.cpu_eq.symm, h.memory_eq.symm⟩

theorem trans {m₁ : Machine} (h : m.SameUpToTime ordered m') (h₁ : m'.SameUpToTime ordered m₁) :
    m.SameUpToTime ordered m₁ :=
  ⟨h.scheduler.trans h₁.scheduler, h.cpu_eq.trans h₁.cpu_eq, h.memory_eq.trans h₁.memory_eq⟩

theorem withScheduler (h : m.SameUpToTime ordered m') {s s' : Scheduler}
    (hs : s.SameUpToTime ordered s') :
    (m.withScheduler s).SameUpToTime ordered (m'.withScheduler s') :=
  ⟨hs, h.cpu_eq, h.memory_eq⟩

/-! ## Dispatches -/

theorem choice?_eq (h : m.SameUpToTime ordered m') (hm : m.IgnoresTime ordered)
    (hm' : m'.IgnoresTime ordered) : m.scheduler.choice? = m'.scheduler.choice? := by
  rw [Scheduler.choice?, Scheduler.choice?, ← h.scheduler.policy_eq]
  exact hm.policy.select_eq hm.settled.accounts hm'.settled.accounts h.scheduler.processes
    h.scheduler.queues_eq

theorem slice_eq (h : m.SameUpToTime ordered m') (hm : m.IgnoresTime ordered) (p : Process)
    (since : Nat) : m.slice p = m'.slice { p with readySince := since } := by
  have htimeSlice : m.scheduler.policy.timeSlice { p with state := .running } =
      m'.scheduler.policy.timeSlice { p with state := .running, readySince := since } := by
    rw [← h.scheduler.policy_eq]
    exact hm.policy.timeSlice_congr rfl
  simp only [slice, h.cpu_eq, h.memory_eq, htimeSlice]

theorem dispatch (h : m.SameUpToTime ordered m') (hm : m.IgnoresTime ordered)
    (hp : m.scheduler.processes.get? pid = some p) (hready : p.state = .ready) :
    ∃ outcome, (m.dispatch pid).result = .ok outcome ∧ (m'.dispatch pid).result = .ok outcome ∧
      (m.dispatch pid).state.SameUpToTime ordered (m'.dispatch pid).state := by
  obtain ⟨p', hp', hsame⟩ := h.scheduler.processes.get? hp
  obtain ⟨since, rfl⟩ := Process.exists_of_timeless_eq hsame
  have htaken := h.scheduler.take pid
  cases hkill : p.killRequested with
  | true =>
      obtain ⟨hresult, hstate⟩ := dispatch_of_marked hp hready hkill
      obtain ⟨hresult', hstate'⟩ := dispatch_of_marked hp' hready hkill
      rw [hstate, hstate']
      exact ⟨_, hresult, hresult', htaken.terminateMarked pid { p with state := .running } since,
        h.cpu_eq, h.memory_eq⟩
  | false =>
      cases hpower : m.cpu.powered with
      | false =>
          obtain ⟨hresult, hstate⟩ := dispatch_of_unpowered hp hready hkill hpower
          obtain ⟨hresult', hstate'⟩ :=
            dispatch_of_unpowered hp' hready hkill (h.cpu_eq ▸ hpower)
          rw [hstate, hstate']
          exact ⟨_, hresult, hresult', htaken.putBack pid { p with state := .running } since,
            h.cpu_eq, h.memory_eq⟩
      | true =>
          obtain ⟨hresult, hstate⟩ := dispatch_of_powered hp hready hkill hpower
          obtain ⟨hresult', hstate'⟩ :=
            dispatch_of_powered hp' hready hkill (h.cpu_eq ▸ hpower)
          have hslice := h.slice_eq hm p since
          have hexit : m.sliceExit p = m'.sliceExit { p with readySince := since } := by
            rw [sliceExit, sliceExit, hslice]
          rw [← hslice, ← hexit] at hresult' hstate'
          have hfiled := htaken.timeless_filed hm.policy
            (p.afterRun (m.slice p).workspace.context) since (m.sliceExit p)
          rw [hstate, hstate']
          refine ⟨_, hresult, hresult'.trans ?_, htaken.settle hm.policy pid
            (p.afterRun (m.slice p).workspace.context) since (m.sliceExit p), rfl, rfl⟩
          exact congrArg (fun state => Except.ok (TickOutcome.ran pid _ state))
            (congrArg Process.state hfiled.symm :)

theorem dispatchChoice (h : m.SameUpToTime ordered m') (hm : m.IgnoresTime ordered)
    (hm' : m'.IgnoresTime ordered) :
    m.dispatchChoice.result = m'.dispatchChoice.result ∧
      m.dispatchChoice.state.SameUpToTime ordered m'.dispatchChoice.state := by
  have hsame := h.choice?_eq hm hm'
  cases hchoice : m.scheduler.choice? with
  | none =>
      rw [hchoice] at hsame
      simp only [Machine.dispatchChoice, hchoice, ← hsame]
      exact ⟨trivial, { h.scheduler with
        stats_eq := congrArg (fun stats => { stats with idleTicks := stats.idleTicks + 1 })
          h.scheduler.stats_eq }, h.cpu_eq, h.memory_eq⟩
  | some pid =>
      rw [hchoice] at hsame
      obtain ⟨level, hmem⟩ := hm.policy.mem_level hchoice
      obtain ⟨p, hp, hready, -⟩ := hm.settled.accounts.mem_level_iff.1 hmem
      obtain ⟨outcome, hresult, hresult', hstate⟩ := h.dispatch hm hp hready
      obtain ⟨hticked, hleft⟩ := dispatchChoice_of_ok hchoice hresult
      obtain ⟨hticked', hleft'⟩ := dispatchChoice_of_ok hsame.symm hresult'
      rw [hticked, hticked', hleft, hleft']
      exact ⟨rfl, hstate⟩

end SameUpToTime

/-! ## Ticks -/

/-- A tick that is not stopped begins and dispatches. -/
theorem tick_of_started (h : m.scheduler.honourStop.state.started = true) :
    m.tick.result = m.begun.dispatchChoice.result ∧
      m.tick.state = m.begun.dispatchChoice.state := by
  simp only [tick, h]
  exact ⟨rfl, rfl⟩

namespace IgnoresTime

theorem honourStop (h : m.IgnoresTime ordered) :
    (m.withScheduler m.scheduler.honourStop.state).IgnoresTime ordered := by
  refine ⟨h.settled.honourStop, ?_⟩
  change m.scheduler.honourStop.state.policy.IgnoresTime ordered
  rw [Scheduler.state_honourStop]
  exact h.policy

theorem begun (h : m.IgnoresTime ordered) : m.begun.IgnoresTime ordered :=
  ⟨h.honourStop.settled.beginTick, h.honourStop.policy⟩

/-- A tick that finds the processor without power does nothing but pass the time. -/
theorem sameUpToTime_tick (h : m.IgnoresTime ordered)
    (hresult : m.tick.result = .cpuUnavailable pid) : m.SameUpToTime ordered m.tick.state := by
  obtain ⟨-, hstopped, -⟩ | ⟨hstarted, hd⟩ := ticked_tick m
  · rw [hstopped] at hresult
    cases hresult
  · have hhonoured : m.scheduler.honourStop.state = m.scheduler := by
      rw [Scheduler.state_honourStop] at hstarted
      have hstop : m.scheduler.stopRequested = false := by
        simpa using (Bool.and_eq_true_iff.1 hstarted).2
      simp [Scheduler.honourStop, hstop]
    have hbegun : m.scheduler.SameUpToTime ordered m.begun.scheduler := by
      rw [Machine.begun, hhonoured]
      exact Scheduler.sameUpToTime_beginTick h.policy.age_eq
    rw [hresult] at hd
    generalize m.tick.state = m₁ at hd ⊢
    cases hd with
    | putBack hchoice hp hready =>
        exact ⟨hbegun.trans (h.begun.settled.sameUpToTime_putBack h.begun.policy hchoice hp hready),
          rfl, rfl⟩

end IgnoresTime

namespace SameUpToTime

theorem tick (h : m.SameUpToTime ordered m') (hm : m.IgnoresTime ordered)
    (hm' : m'.IgnoresTime ordered) :
    m.tick.result = m'.tick.result ∧ m.tick.state.SameUpToTime ordered m'.tick.state := by
  have hhonoured := h.scheduler.honourStop
  cases hstarted : m.scheduler.honourStop.state.started with
  | false =>
      have hstarted' := hhonoured.started_eq.symm.trans hstarted
      simp only [Machine.tick, hstarted, hstarted']
      exact ⟨rfl, hhonoured, h.cpu_eq, h.memory_eq⟩
  | true =>
      have hbegun : m.begun.SameUpToTime ordered m'.begun :=
        ⟨(Scheduler.sameUpToTime_beginTick hm.honourStop.policy.age_eq).symm.trans
          (hhonoured.trans (Scheduler.sameUpToTime_beginTick hm'.honourStop.policy.age_eq)),
          h.cpu_eq, h.memory_eq⟩
      obtain ⟨hresult, hstate⟩ := tick_of_started hstarted
      obtain ⟨hresult', hstate'⟩ := tick_of_started (hhonoured.started_eq.symm.trans hstarted)
      rw [hresult, hresult', hstate, hstate']
      exact hbegun.dispatchChoice hm.begun hm'.begun

/-! ## Requests -/

/-- What is requested of two machines that differ only in the time has the same answer and
leaves them with no other difference. -/
theorem perform (h : m.SameUpToTime ordered m') (hm : m.IgnoresTime ordered)
    (hm' : m'.IgnoresTime ordered) (hr : request.isStep = true) :
    (m.perform request).result = (m'.perform request).result ∧
      (m.after request).SameUpToTime ordered (m'.after request) := by
  cases request with
  | setPolicy | run => cases hr
  | power on =>
      exact ⟨rfl, h.scheduler, congrArg (fun cpu : Cpu => (cpu.setPower on).state) h.cpu_eq,
        h.memory_eq⟩
  | start => exact ⟨rfl, h.withScheduler h.scheduler.start⟩
  | stop => exact ⟨rfl, h.withScheduler h.scheduler.stop⟩
  | requestStop => exact ⟨rfl, h.withScheduler h.scheduler.requestStop⟩
  | submit program =>
      obtain ⟨hresult, hstate⟩ := h.scheduler.submitAt program .normal
      exact ⟨congrArg MachineAnswer.submitted hresult, h.withScheduler hstate⟩
  | submitAt program priority =>
      obtain ⟨hresult, hstate⟩ := h.scheduler.submitAt program priority
      exact ⟨congrArg MachineAnswer.submitted hresult, h.withScheduler hstate⟩
  | wake pid =>
      obtain ⟨hresult, hstate⟩ := h.scheduler.wake pid
      exact ⟨congrArg MachineAnswer.decided hresult, h.withScheduler hstate⟩
  | kill pid =>
      obtain ⟨hresult, hstate⟩ := h.scheduler.kill pid
      exact ⟨congrArg MachineAnswer.decided hresult, h.withScheduler hstate⟩
  | reap =>
      obtain ⟨hresult, hstate⟩ := h.scheduler.reap
      exact ⟨congrArg MachineAnswer.reaped hresult, h.withScheduler hstate⟩
  | tick =>
      obtain ⟨hresult, hstate⟩ := h.tick hm hm'
      exact ⟨congrArg MachineAnswer.ticked hresult, hstate⟩
  | memory request =>
      have hresult : (m.memory.perform request).result = (m'.memory.perform request).result := by
        rw [h.memory_eq]
      have hstate : (m.memory.perform request).state = (m'.memory.perform request).state := by
        rw [h.memory_eq]
      exact ⟨congrArg MachineAnswer.memory hresult, h.scheduler, h.cpu_eq, hstate⟩

/-- A history goes on in the same way without the ticks that found the processor without
power. -/
theorem afterAll (h : m.SameUpToTime ordered m') (hm : m.IgnoresTime ordered)
    (hm' : m'.IgnoresTime ordered) (hr : ∀ request ∈ requests, request.isStep = true) :
    m'.answers (m.withoutUnavailable requests) =
        (m.answers requests).filter (fun answer => !answer.isUnavailable) ∧
      (m.afterAll requests).SameUpToTime ordered
        (m'.afterAll (m.withoutUnavailable requests)) := by
  induction requests generalizing m m' with
  | nil => exact ⟨rfl, h⟩
  | cons request rest ih =>
      obtain ⟨hfirst, hrest⟩ := List.forall_mem_cons.1 hr
      rw [withoutUnavailable, answers, afterAll_cons]
      cases hanswer : (m.perform request).result.isUnavailable with
      | true =>
          obtain ⟨rfl, pid, hresult⟩ := exists_of_isUnavailable hanswer
          -- The other machine stays where it is.
          have hsame := (hm.sameUpToTime_tick hresult).symm.trans h
          rw [List.filter_cons_of_neg (by simp [hanswer])]
          exact ih hsame (hm.after hfirst) hm' hrest
      | false =>
          obtain ⟨hresult, hstate⟩ := h.perform hm hm' hfirst
          obtain ⟨hanswers, hleft⟩ := ih hstate (hm.after hfirst) (hm'.after hfirst) hrest
          rw [List.filter_cons_of_pos (by simp [hanswer])]
          simp only [Bool.false_eq_true, if_false, answers, ← hresult, hanswers, afterAll_cons,
            true_and]
          exact hleft

end SameUpToTime

/-- Under a policy that does not age, the ticks that found the processor without power only
delay the others: without them every other request has the same answer, and in the end the
processes, the processor, the memory and the counters are the same but for the time. -/
theorem unavailable_ticks_only_delay {kind : PolicyKind} {params : PolicyParams}
    (hkind : kind ≠ .priorityAging) (h : m.scheduler.Reachable)
    (hpolicy : m.scheduler.policy = kind.build params)
    (hr : ∀ request ∈ requests, request.isStep = true) :
    let late := m.afterAll requests
    let prompt := m.afterAll (m.withoutUnavailable requests)
    m.answers (m.withoutUnavailable requests) =
        (m.answers requests).filter (fun answer => !answer.isUnavailable) ∧
      late.scheduler.processes.map Process.timeless =
        prompt.scheduler.processes.map Process.timeless ∧
      late.cpu = prompt.cpu ∧ late.memory = prompt.memory ∧
      late.scheduler.stats.timeless = prompt.scheduler.stats.timeless := by
  intro late prompt
  obtain ⟨ordered, hignores⟩ := PolicyKind.exists_ignoresTime_build hkind params
  have hm : m.IgnoresTime ordered := ⟨h.settled, hpolicy ▸ hignores⟩
  obtain ⟨hanswers, hleft⟩ := (SameUpToTime.refl ordered m).afterAll hm hm hr
  exact ⟨hanswers, hleft.scheduler.processes, hleft.cpu_eq, hleft.memory_eq,
    hleft.scheduler.stats_eq⟩

/-- Shortest job first takes a process from behind another one and puts it back before it, so
that the queues are not the same in the end. -/
theorem unavailable_ticks_only_delay_of_reordered_queue :
    let m : Machine := { scheduler := .new (PolicyKind.shortestJobFirst.build {}) }
    let requests : List MachineRequest :=
      [.submit (.ofList [.nop, .wait, .halt]), .submit (.ofList [.halt]), .start, .tick,
        .power true, .tick, .submit (.ofList [.store 1 0 0, .halt]), .power false, .tick, .tick]
    let late := m.afterAll requests
    let prompt := m.afterAll (m.withoutUnavailable requests)
    (m.answers requests).countP (·.isUnavailable) = 3 ∧
      late.scheduler.queues ≠ prompt.scheduler.queues ∧ late.scheduler.clock = 4 ∧
      prompt.scheduler.clock = 1 ∧ late.cpu = prompt.cpu ∧
      (m.answers (m.withoutUnavailable requests)).length = 7 := by
  intro m requests late prompt
  have hr : ∀ request ∈ requests, request.isStep = true := by decide
  have hkind : PolicyKind.shortestJobFirst ≠ .priorityAging := by decide
  obtain ⟨hanswers, -, hcpu, -⟩ := unavailable_ticks_only_delay (m := m) hkind
    (.new (PolicyKind.agesByRule_build .shortestJobFirst {})) rfl hr
  refine ⟨by decide +kernel, by decide +kernel, by decide +kernel, by decide +kernel, hcpu, ?_⟩
  rw [hanswers]
  decide +kernel

end Machine

end Timeshare
