import Timeshare.Proofs.Machine.Jobs
import Timeshare.Proofs.Machine.Paced

/-!
# Workloads that finish

A workload is a list of jobs that are submitted to a machine, whose programs name no
page. `Machine.Working` says that the machine works on the first of them: it ticks under
a built-in policy, and every process is on the course of its job.

The slices that the jobs still need are a measure of all four policies: each tick of a
working machine dispatches a process and takes one of them at least, or it is idle, and
then there is no ready process left (`Machine.Advance`, `Machine.Working.tick`). What the processor has
retired and what is left to retire always come to the same sum. So a run that is given
more ticks than there are slices ends idle with all jobs done (`Machine.Working.run`,
`Machine.workload_finishes`).
-/

namespace Timeshare

namespace ProcessTable

/-- A quantity of a process and its job, where the processes are numbered from one in the
order of the jobs. -/
def ofJob (g : Job → Process → Nat) (jobs : List Job) (pid : ProcessId) (p : Process) : Nat :=
  (jobs[pid - 1]?).elim 0 (g · p)

/-- The sum of such a quantity over the processes. -/
def sumOver (g : Job → Process → Nat) (jobs : List Job) (t : ProcessTable) : Nat :=
  t.total (ofJob g jobs)

variable {g : Job → Process → Nat} {jobs : List Job} {job : Job} {t u : ProcessTable} {i : Nat}
  {p : Process}

theorem ofJob_succ (g : Job → Process → Nat) (hjob : jobs[i]? = some job) (p : Process) :
    ofJob g jobs (i + 1) p = g job p := by
  rw [ofJob, Nat.add_sub_cancel, hjob, Option.elim_some]

theorem sumOver_insert (hjob : jobs[i]? = some job) (hp : t.get? (i + 1) = some p)
    (p' : Process) :
    sumOver g jobs (t.insert (i + 1) p') + g job p = sumOver g jobs t + g job p' := by
  rw [← ofJob_succ g hjob p, ← ofJob_succ g hjob p']
  exact Table.total_insert_of_get? hp p'

theorem sumOver_insert_of_absent (hjob : jobs[i]? = some job) (habsent : t.get? (i + 1) = none)
    (p : Process) :
    sumOver g jobs (t.insert (i + 1) p) = sumOver g jobs t + g job p := by
  rw [← ofJob_succ g hjob p]
  exact Table.total_insert_of_absent habsent p

/-- A quantity that does not depend on the places in the queues is not changed by aging. -/
theorem sumOver_of_core (hg : ∀ job p, g job p.core = g job p)
    (hcore : ∀ pid, (u.get? pid).map Process.core = (t.get? pid).map Process.core) :
    sumOver g jobs u = sumOver g jobs t := by
  have htables : u.map Process.core = t.map Process.core := Table.map_eq_map hcore
  have hsum : ∀ t : ProcessTable, sumOver g jobs (t.map Process.core) = sumOver g jobs t := by
    intro t
    rw [sumOver, Table.total_map]
    simp only [ofJob, hg]
    rfl
  rw [← hsum u, htables, hsum]

end ProcessTable

namespace Machine

/-- The machine works on the first `n` jobs. -/
structure Working (params : PolicyParams) (memory : Memory) (jobs : List Job) (n : Nat)
    (m : Machine) : Prop where
  settled : m.scheduler.Settled
  policy_eq : ∃ kind, m.scheduler.policy = PolicyKind.build kind params
  started : m.scheduler.started = true
  unstopped : m.scheduler.stopRequested = false
  powered : m.cpu.powered = true
  memory_eq : m.memory = memory
  nextPid_eq : m.scheduler.nextPid = n + 1
  onCourse : ∀ pid p, m.scheduler.processes.get? pid = some p →
    ∃ i job, pid = i + 1 ∧ jobs[i]? = some job ∧ p.OnCourse memory job
  present : ∀ i, i < n → ∃ p, m.scheduler.processes.get? (i + 1) = some p

/-- What is left of the jobs, measured for each process by `g`. -/
def remaining (g : Job → Process → Nat) (jobs : List Job) (m : Machine) : Nat :=
  m.scheduler.processes.sumOver g jobs

/-- What was retired and what is left to retire. -/
def work (jobs : List Job) (m : Machine) : Nat := m.cpu.retiredTotal + m.remaining Job.left jobs

variable {params : PolicyParams} {memory : Memory} {jobs : List Job} {job : Job} {n : Nat}
  {m m' : Machine}

theorem Working.builtIn (h : m.Working params memory jobs n) : m.scheduler.policy.BuiltIn := by
  obtain ⟨kind, heq⟩ := h.policy_eq
  exact ⟨kind, params, heq⟩

/-! ## Submitting the jobs -/

theorem Working.submit (h : m.Working params memory jobs n) (hjob : jobs[n]? = some job)
    (hhalts : job.program.HaltsAt ⟨{}, memory⟩ job.length) :
    (m.after (.submitAt job.program job.priority)).Working params memory jobs (n + 1) ∧
      ∀ g, (m.after (.submitAt job.program job.priority)).remaining g jobs =
        m.remaining g jobs + g job (.submitted job.program job.priority m.scheduler.clock) := by
  have habsent : m.scheduler.processes.get? (n + 1) = none := by
    cases hp : m.scheduler.processes.get? (n + 1) with
    | none => rfl
    | some p =>
        have hlt := (h.settled.tame _ p hp).2
        rw [h.nextPid_eq] at hlt
        exact absurd hlt (Nat.lt_irrefl _)
  have hprocesses : (m.after (.submitAt job.program job.priority)).scheduler.processes =
      m.scheduler.processes.insert (n + 1)
        (.submitted job.program job.priority m.scheduler.clock) := by
    rw [← h.nextPid_eq]
    rfl
  refine ⟨⟨h.settled.submitAt job.program job.priority, h.policy_eq, h.started, h.unstopped,
    h.powered, h.memory_eq, congrArg (· + 1) h.nextPid_eq, ?_, ?_⟩, fun g => ?_⟩
  · rw [hprocesses]
    exact Table.forall_get?_insert h.onCourse ⟨n, job, rfl, hjob, .submitted hhalts _⟩
  · rw [hprocesses]
    intro i hi
    refine Table.exists_get?_insert ?_ _
    obtain hlt | heq := Nat.lt_succ_iff_lt_or_eq.1 hi
    · exact .inr (h.present i hlt)
    · exact .inl (congrArg (· + 1) heq.symm)
  · rw [remaining, hprocesses]
    exact ProcessTable.sumOver_insert_of_absent hjob habsent _

/-! ## Ticks -/

/-- The beginning of a tick changes no more than the places in the queues. -/
theorem Working.beginTick (h : m.Working params memory jobs n) :
    (m.withScheduler m.scheduler.beginTick.state).Working params memory jobs n ∧
      ∀ g : Job → Process → Nat, (∀ job p, g job p.core = g job p) →
        (m.withScheduler m.scheduler.beginTick.state).remaining g jobs = m.remaining g jobs := by
  have hcore : ∀ pid, (m.scheduler.beginTick.state.processes.get? pid).map Process.core =
      (m.scheduler.processes.get? pid).map Process.core :=
    fun pid => h.builtIn.agesByRule.map_get?_age (fun _ _ _ => rfl) _ _ _ pid
  refine ⟨⟨h.settled.beginTick, h.policy_eq, h.started, h.unstopped, h.powered, h.memory_eq,
    h.nextPid_eq, ?_, ?_⟩, fun g hg => ProcessTable.sumOver_of_core hg hcore⟩
  · intro pid p hp
    have hpid := hcore pid
    have hp' : m.scheduler.beginTick.state.processes.get? pid = some p := hp
    rw [hp'] at hpid
    obtain ⟨p₀, hp₀, hsame⟩ := Option.map_eq_some_iff.1 hpid.symm
    obtain ⟨i, job, rfl, hjob, hcourse⟩ := h.onCourse pid p₀ hp₀
    exact ⟨i, job, rfl, hjob, hcourse.of_core hsame.symm⟩
  · intro i hi
    obtain ⟨p, hp⟩ := h.present i hi
    have hpid := hcore (i + 1)
    rw [hp] at hpid
    obtain ⟨p', hp', -⟩ := Option.map_eq_some_iff.1 hpid
    exact ⟨p', hp'⟩

theorem Working.le_timeSlice (h : m.Working params memory jobs n) (p : Process) :
    params.baseQuantum ≤ m.scheduler.policy.timeSlice p := by
  obtain ⟨kind, heq⟩ := h.policy_eq
  rw [heq]
  exact kind.le_timeSlice params p

/-- A slice of a ready process leaves the memory alone, and it comes to the end of a job or
leaves the rest of it. -/
theorem Working.sliced (h : m.Working params memory jobs n)
    (hpages : ∀ job ∈ jobs, job.program.pages = []) {pid : ProcessId} {p : Process}
    (hp : m.scheduler.processes.get? pid = some p) (hready : p.state = .ready) :
    (m.slice p).workspace.memory = memory ∧
      ∃ i job, pid = i + 1 ∧ jobs[i]? = some job ∧ p.OnCourse memory job ∧
        Process.OnCourse.Sliced memory job p
          (m.scheduler.policy.timeSlice { p with state := .running }) (m.slice p).workspace
          (m.sliceExit p) := by
  obtain ⟨i, job, rfl, hjob, hcourse⟩ := h.onCourse pid p hp
  have hjobPages := hpages job (List.mem_of_getElem? hjob)
  have hprogram : p.program.pages = [] := hcourse.program_eq ▸ hjobPages
  rw [sliceExit_eq h.powered, workspace_slice h.powered, h.memory_eq]
  exact ⟨Program.memory_resume_of_pages_eq_nil hprogram _ _, i, job, rfl, hjob, hcourse,
    hcourse.sliced hready hjobPages _⟩

/-- A slice takes one of the slices that the jobs still need, and what it retires is no
longer left. -/
theorem Working.ran (h : m.Working params memory jobs n)
    (hpages : ∀ job ∈ jobs, job.program.pages = []) (hquantum : 0 < params.baseQuantum)
    {pid : ProcessId} {p : Process} (hp : m.scheduler.processes.get? pid = some p)
    (hready : p.state = .ready)
    (hm' : m' =
      { scheduler := ((m.scheduler.take pid).settle pid
          (p.afterRun (m.slice p).workspace.context) (m.sliceExit p)).state
        cpu := (m.slice p).cpu
        memory := (m.slice p).workspace.memory })
    (hs : m'.scheduler.Settled) :
    m'.Working params memory jobs n ∧ m'.work jobs = m.work jobs ∧
      m'.remaining (Job.slices params.baseQuantum) jobs + 1 ≤
        m.remaining (Job.slices params.baseQuantum) jobs ∧
      m'.scheduler.stats.idleTicks = m.scheduler.stats.idleTicks ∧
      m'.scheduler.stats.ticks = m.scheduler.stats.ticks := by
  obtain ⟨hmemory, i, job, rfl, hjob, hcourse, hsliced⟩ := h.sliced hpages hp hready
  have hfiled := hcourse.filed (m.scheduler.take (i + 1)) hready hsliced
  have hleft := hcourse.left_filed (m.scheduler.take (i + 1)) hready hsliced
  have hslices := hcourse.slices_filed (m.scheduler.take (i + 1)) hready hsliced hquantum
    (h.le_timeSlice _)
  have hsum : ∀ g : Job → Process → Nat, ProcessTable.sumOver g jobs
      (m.scheduler.processes.insert (i + 1) ((m.scheduler.take (i + 1)).filed
        (p.afterRun (m.slice p).workspace.context) (m.sliceExit p))) + g job p =
      m.remaining g jobs + g job ((m.scheduler.take (i + 1)).filed
        (p.afterRun (m.slice p).workspace.context) (m.sliceExit p)) :=
    fun g => ProcessTable.sumOver_insert hjob hp _
  obtain ⟨demotions, hstats⟩ := (m.scheduler.take (i + 1)).exists_filedStats
    (p.afterRun (m.slice p).workspace.context) (m.sliceExit p)
  -- All ways of settling file one record, and the run has not touched the memory.
  subst hm'
  rw [Scheduler.state_settle, hstats, cpu_slice h.powered] at hs ⊢
  refine ⟨⟨hs, h.policy_eq, h.started, h.unstopped, h.powered, hmemory, h.nextPid_eq, ?_,
    fun j hj => Table.exists_get?_insert (.inr (h.present j hj)) _⟩, ?_, ?_, rfl, rfl⟩
  · exact Table.forall_get?_insert h.onCourse ⟨i, job, rfl, hjob, hfiled⟩
  · have hwork := hsum Job.left
    simp only [work, remaining] at hwork ⊢
    change _ + ProcessTable.sumOver Job.left jobs (m.scheduler.processes.insert (i + 1) _) = _
    omega
  · have hmeasure := hsum (Job.slices params.baseQuantum)
    change ProcessTable.sumOver _ jobs (m.scheduler.processes.insert (i + 1) _) + 1 ≤ _
    omega

/-- What a tick of a working machine comes to: all processes have terminated, or a process
took one at least of the slices that the jobs still needed. -/
inductive Advance (quantum : Nat) (jobs : List Job) (m m' : Machine) : TickOutcome → Prop
  | idle
      (hdone : ∀ pid p, m'.scheduler.processes.get? pid = some p → p.state = .terminated)
      (hcount : m'.scheduler.stats.idleTicks = m.scheduler.stats.idleTicks + 1) :
      Advance quantum jobs m m' .idle
  | ran {pid : ProcessId} {retired : Nat} {state : ProcessState}
      (hless : m'.remaining (Job.slices quantum) jobs + 1 ≤ m.remaining (Job.slices quantum) jobs)
      (hcount : m'.scheduler.stats.idleTicks = m.scheduler.stats.idleTicks) :
      Advance quantum jobs m m' (.ran pid retired state)

/-- An idle tick finds that all processes have terminated, because the policy would have
chosen one that is ready. -/
theorem Working.terminated_of_idle (h : m.Working params memory jobs n)
    (hchoice : m.scheduler.choice? = none) {pid : ProcessId} {p : Process}
    (hp : m.scheduler.processes.get? pid = some p) : p.state = .terminated := by
  obtain ⟨i, job, -, -, hcourse⟩ := h.onCourse pid p hp
  obtain ⟨hready, -⟩ | ⟨hterminated, -⟩ := hcourse.course
  · obtain ⟨other, hother⟩ := h.settled.exists_choice? h.builtIn hp hready
    rw [hchoice] at hother
    cases hother
  · exact hterminated

/-- A tick of a working machine runs a process for a slice, or no process is ready any
more. -/
theorem Working.tick (h : m.Working params memory jobs n)
    (hpages : ∀ job ∈ jobs, job.program.pages = []) (hquantum : 0 < params.baseQuantum) :
    m.tick.state.Working params memory jobs n ∧ m.tick.state.work jobs = m.work jobs ∧
      m.tick.state.scheduler.stats.ticks = m.scheduler.stats.ticks + 1 ∧
      Advance params.baseQuantum jobs m m.tick.state m.tick.result := by
  obtain ⟨hbegun, hsame⟩ := h.beginTick
  have hd := dispatched_tick h.started h.unstopped
  have hs := settled_dispatched hbegun.settled hd
  have hwork : (m.withScheduler m.scheduler.beginTick.state).work jobs = m.work jobs :=
    congrArg (m.cpu.retiredTotal + ·) (hsame Job.left fun _ _ => rfl)
  have hslices := hsame (Job.slices params.baseQuantum) fun _ _ => rfl
  generalize hm : m.withScheduler m.scheduler.beginTick.state = b at hbegun hd hwork hslices
  have hticks : b.scheduler.stats.ticks = m.scheduler.stats.ticks + 1 := by
    rw [← hm]
    rfl
  have hidle : b.scheduler.stats.idleTicks = m.scheduler.stats.idleTicks := by
    rw [← hm]
    rfl
  generalize m.tick.result = outcome at hd ⊢
  generalize m.tick.state = m' at hd hs ⊢
  cases hd with
  | idle hchoice =>
      exact ⟨⟨hs, hbegun.policy_eq, hbegun.started, hbegun.unstopped, hbegun.powered,
        hbegun.memory_eq, hbegun.nextPid_eq, hbegun.onCourse, hbegun.present⟩, hwork, hticks,
        .idle (fun _ _ hp => hbegun.terminated_of_idle hchoice hp) (congrArg (· + 1) hidle)⟩
  | discarded hchoice hnot hqueues =>
      obtain ⟨p, hp, hready⟩ := hbegun.settled.ready_of_choice? hbegun.builtIn hchoice
      exact absurd hready (hnot p hp)
  | killed hchoice hp hready hkill =>
      obtain ⟨i, job, -, -, hcourse⟩ := hbegun.onCourse _ _ hp
      rw [hcourse.unmarked] at hkill
      cases hkill
  | putBack hchoice hp hready hkill hpower =>
      rw [hbegun.powered] at hpower
      cases hpower
  | ran hchoice hp hready hkill hpower =>
      obtain ⟨hworking, hwork', hless, hidle', hticks'⟩ :=
        hbegun.ran hpages hquantum hp hready rfl hs
      exact ⟨hworking, hwork'.trans hwork, hticks'.trans hticks,
        .ran (hslices ▸ hless) (hidle'.trans hidle)⟩

/-- A run that is given more ticks than there are slices to come ends idle. -/
theorem Working.run (h : m.Working params memory jobs n)
    (hpages : ∀ job ∈ jobs, job.program.pages = []) (hquantum : 0 < params.baseQuantum)
    {ticks : Nat} (hlt : m.remaining (Job.slices params.baseQuantum) jobs < ticks) :
    (m.run ticks).result = .idle ∧ (m.run ticks).state.Working params memory jobs n ∧
      (m.run ticks).state.work jobs = m.work jobs ∧
      (∀ pid p, (m.run ticks).state.scheduler.processes.get? pid = some p →
        p.state = .terminated) ∧
      (m.run ticks).state.scheduler.stats.idleTicks = m.scheduler.stats.idleTicks + 1 ∧
      (m.run ticks).state.scheduler.stats.ticks ≤ m.scheduler.stats.ticks +
        m.remaining (Job.slices params.baseQuantum) jobs + 1 := by
  rw [Machine.run]
  generalize #[] = events
  induction ticks generalizing m events with
  | zero => exact absurd hlt (Nat.not_lt_zero _)
  | succ ticks ih =>
      obtain ⟨hworking, hwork, hticks, hadvance⟩ := h.tick hpages hquantum
      generalize hresult : m.tick.result = outcome at hadvance
      cases hadvance with
      | idle hdone hcount =>
          have hexit : m.tick.result.exit? = some .idle := by
            rw [hresult]
            rfl
          rw [runAfter_succ_of_exit hexit]
          exact ⟨rfl, hworking, hwork, hdone, hcount, by simp only; omega⟩
      | ran hless hcount =>
          have hexit : m.tick.result.exit? = none := by
            rw [hresult]
            rfl
          rw [runAfter_succ_of_ran hexit]
          obtain ⟨hend, hworking', hwork', hdone, hcount', hticks'⟩ :=
            ih hworking (by omega) (events ++ m.tick.events)
          exact ⟨hend, hworking', hwork'.trans hwork, hdone, hcount ▸ hcount', by omega⟩

/-! ## The whole workload -/

/-- The requests that submit the jobs in their order. -/
def submissions (jobs : List Job) : List MachineRequest :=
  jobs.map fun job => .submitAt job.program job.priority

theorem Working.submitAll {first rest : List Job} (hjobs : jobs = first ++ rest)
    (h : m.Working params memory jobs first.length)
    (hhalts : ∀ job ∈ rest, job.program.HaltsAt ⟨{}, memory⟩ job.length) :
    (m.afterAll (submissions rest)).Working params memory jobs jobs.length ∧
      (m.afterAll (submissions rest)).work jobs = m.work jobs + (rest.map Job.length).sum ∧
      (∀ quantum, (m.afterAll (submissions rest)).remaining (Job.slices quantum) jobs =
        m.remaining (Job.slices quantum) jobs +
          (rest.map fun job => job.length / quantum + 1).sum) ∧
      (m.afterAll (submissions rest)).scheduler.stats = m.scheduler.stats := by
  induction rest generalizing m first with
  | nil =>
      rw [List.append_nil] at hjobs
      subst hjobs
      exact ⟨h, rfl, fun _ => rfl, rfl⟩
  | cons job rest ih =>
      obtain ⟨hfirst, hrest⟩ := List.forall_mem_cons.1 hhalts
      have hjob : jobs[first.length]? = some job := by
        rw [hjobs, List.getElem?_append_right (Nat.le_refl _), Nat.sub_self]
        rfl
      obtain ⟨hworking, hadded⟩ := h.submit hjob hfirst
      have hjobs' : jobs = (first ++ [job]) ++ rest := by
        rw [hjobs, List.append_assoc, List.singleton_append]
      have hlength : (first ++ [job]).length = first.length + 1 := List.length_append
      obtain ⟨hall, hwork, hslices, hstats⟩ := ih hjobs' (hlength ▸ hworking) hrest
      have hleft := hadded Job.left
      refine ⟨hall, hwork.trans ?_, fun quantum => (hslices quantum).trans ?_, hstats⟩
      · rw [work, work, hleft, List.map_cons, List.sum_cons]
        change m.cpu.retiredTotal + (m.remaining Job.left jobs + job.length) + _ = _
        omega
      · rw [hadded, List.map_cons, List.sum_cons, Nat.add_assoc]
        rfl

/-- When all processes have terminated, each of them has come to the end of its job. -/
theorem Working.finished (h : m.Working params memory jobs jobs.length)
    (hdone : ∀ pid p, m.scheduler.processes.get? pid = some p → p.state = .terminated) :
    (∀ i job, jobs[i]? = some job →
      ∃ p, m.scheduler.processes.get? (i + 1) = some p ∧ p.program = job.program ∧
        p.state = .terminated ∧ p.fault = none ∧ p.cpuTime = job.length) ∧
      m.cpu.retiredTotal = m.work jobs := by
  have hretired : ∀ pid p, m.scheduler.processes.get? pid = some p →
      ∃ i job, pid = i + 1 ∧ jobs[i]? = some job ∧ p.OnCourse memory job ∧
        p.context.retired = job.length := by
    intro pid p hp
    obtain ⟨i, job, hpid, hjob, hcourse⟩ := h.onCourse pid p hp
    refine ⟨i, job, hpid, hjob, hcourse, ?_⟩
    obtain ⟨hready, -⟩ | ⟨-, hretired⟩ := hcourse.course
    · rw [hdone pid p hp] at hready
      cases hready
    · exact hretired
  refine ⟨fun i job hjob => ?_, ?_⟩
  · obtain ⟨hi, -⟩ := List.getElem?_eq_some_iff.1 hjob
    obtain ⟨p, hp⟩ := h.present i hi
    obtain ⟨j, job', hij, hjob', hcourse, heq⟩ := hretired _ p hp
    obtain rfl : i = j := Nat.succ.inj hij
    rw [hjob] at hjob'
    cases hjob'
    exact ⟨p, hp, hcourse.program_eq, hdone _ p hp, hcourse.fault_eq,
      hcourse.cpuTime_eq.trans heq⟩
  · have hnothing : m.remaining Job.left jobs = 0 := by
      refine Table.total_eq_zero fun pid p hp => ?_
      obtain ⟨i, job, rfl, hjob, -, heq⟩ := hretired pid p hp
      rw [ProcessTable.ofJob_succ _ hjob, Job.left, heq, Nat.sub_self]
    rw [work, hnothing, Nat.add_zero]

/-- A machine that was started has nothing to work on. -/
theorem working_start (config : Config) {cpu : Cpu} (hpower : cpu.powered = true)
    (memory : Memory) (jobs : List Job) :
    (({ scheduler := .ofConfig config, cpu, memory } : Machine).after .start).Working
      config.toPolicyParams memory jobs 0 where
  settled := (Scheduler.settled_new (config.policy.agesByRule_build _)).start
  policy_eq := ⟨config.policy, rfl⟩
  started := rfl
  unstopped := rfl
  powered := hpower
  memory_eq := rfl
  nextPid_eq := rfl
  onCourse := nofun
  present := nofun

/-- Every workload that can finish does finish, under every policy. Jobs that name no page
and halt alone are submitted to a machine that was started with a valid configuration and
a powered processor. A run with more ticks than the jobs need slices of the base quantum
ends idle, after one idle tick; every process has terminated at the end of its job and
without a fault, and the processor has retired the jobs and nothing else. -/
theorem workload_finishes (config : Config) (hconfig : config.validate = .ok ()) (cpu : Cpu)
    (hpower : cpu.powered = true) (memory : Memory) (jobs : List Job)
    (hjobs : ∀ job ∈ jobs, job.program.pages = [] ∧ job.program.HaltsAlone job.length)
    (ticks : Nat)
    (hticks : (jobs.map fun job => job.length / config.baseQuantum + 1).sum < ticks) :
    let start : Machine := { scheduler := .ofConfig config, cpu, memory }
    let m := start.afterAll (.start :: submissions jobs)
    let reply := m.run ticks
    reply.result = .idle ∧
    (∀ i job, jobs[i]? = some job →
      ∃ p, reply.state.scheduler.processes.get? (i + 1) = some p ∧ p.program = job.program ∧
        p.state = .terminated ∧ p.fault = none ∧ p.cpuTime = job.length) ∧
    (∀ pid p, reply.state.scheduler.processes.get? pid = some p →
      ∃ i, i < jobs.length ∧ pid = i + 1) ∧
    reply.state.cpu.retiredTotal = cpu.retiredTotal + (jobs.map Job.length).sum ∧
    reply.state.scheduler.stats.idleTicks = 1 ∧
    reply.state.scheduler.stats.ticks ≤
      (jobs.map fun job => job.length / config.baseQuantum + 1).sum + 1 := by
  intro start m reply
  have hquantum : 0 < config.baseQuantum :=
    Nat.pos_of_ne_zero (config.validate_eq_ok_iff.1 hconfig).2.2.1
  have hpages : ∀ job ∈ jobs, job.program.pages = [] := fun job hjob => (hjobs job hjob).1
  have hhalts : ∀ job ∈ jobs, job.program.HaltsAt ⟨{}, memory⟩ job.length :=
    fun job hjob => (hjobs job hjob).2.haltsAt (hpages job hjob) memory
  have hstart : (start.after .start).Working config.toPolicyParams memory jobs
      ([] : List Job).length := working_start config hpower memory jobs
  obtain ⟨hworking, hwork, hslices, hstats⟩ :=
    hstart.submitAll (List.nil_append jobs).symm hhalts
  have hneeded : m.remaining (Job.slices config.baseQuantum) jobs =
      (jobs.map fun job => job.length / config.baseQuantum + 1).sum :=
    (hslices config.baseQuantum).trans (Nat.zero_add _)
  obtain ⟨hresult, hend, hwork', hdone, hidle, hbound⟩ :=
    hworking.run hpages hquantum (hneeded ▸ hticks)
  obtain ⟨hprocesses, hretired⟩ := hend.finished hdone
  refine ⟨hresult, hprocesses, ?_, hretired.trans (hwork'.trans hwork), ?_, ?_⟩
  · intro pid p hp
    obtain ⟨i, job, hpid, hjob, -⟩ := hend.onCourse pid p hp
    obtain ⟨hi, -⟩ := List.getElem?_eq_some_iff.1 hjob
    exact ⟨i, hi, hpid⟩
  · exact hidle.trans (congrArg (·.idleTicks + 1) hstats)
  · have hzero : m.scheduler.stats.ticks = 0 := congrArg SchedulerStats.ticks hstats
    change reply.state.scheduler.stats.ticks ≤
      m.scheduler.stats.ticks + m.remaining (Job.slices config.baseQuantum) jobs + 1 at hbound
    rwa [hzero, hneeded, Nat.zero_add] at hbound

/-- A loop, a program that is a halt and nothing else, and one of which a slice ends right
before the halt. -/
theorem workload_finishes_of_three_jobs :
    let config : Config := { baseQuantum := 2, policy := .priorityAging }
    let cpu : Cpu := { powered := true, retiredTotal := 5 }
    let jobs : List Job :=
      [⟨.ofList [.loadImm 0 3, .loadImm 1 1, .alu .sub 0 0 1, .branchNonZero 0 2, .halt], 0, 8⟩,
        ⟨.ofList [.halt], 3, 0⟩, ⟨.ofList [.nop, .nop, .halt], 0, 2⟩]
    let start : Machine := { scheduler := .ofConfig config, cpu }
    let reply := (start.afterAll (.start :: submissions jobs)).run 9
    config.validate = .ok () ∧ cpu.powered = true ∧
      (∀ job ∈ jobs, job.program.pages = [] ∧ job.program.HaltsAlone job.length) ∧
      (jobs.map fun job => job.length / config.baseQuantum + 1).sum = 8 ∧
      reply.result = .idle ∧
      reply.state.cpu.retiredTotal = cpu.retiredTotal + (jobs.map Job.length).sum ∧
      (jobs.map Job.length).sum = 10 ∧ reply.state.scheduler.stats.idleTicks = 1 := by
  intro config cpu jobs start reply
  have halts : ∀ {p : Program} {total : Nat},
      (p.resume 9 ⟨{}, .empty⟩).1 = .ok .halted →
        (p.resume 9 ⟨{}, .empty⟩).2.context.retired = total → p.HaltsAlone total :=
    fun hexit hretired => Program.haltsAlone_of_resume hexit hretired
  have hjobs : ∀ job ∈ jobs, job.program.pages = [] ∧ job.program.HaltsAlone job.length := by
    intro job hjob
    simp only [jobs, List.mem_cons, List.not_mem_nil, or_false] at hjob
    rcases hjob with rfl | rfl | rfl
    · exact ⟨rfl, halts rfl rfl⟩
    · exact ⟨rfl, halts rfl rfl⟩
    · exact ⟨rfl, halts rfl rfl⟩
  obtain ⟨hresult, -, -, hretired, hidle, -⟩ :=
    workload_finishes config rfl cpu rfl .empty jobs hjobs 9 (by decide)
  dsimp only [reply, start]
  refine ⟨rfl, rfl, hjobs, ?_, ?_, ?_, ?_, ?_⟩
  · decide
  · exact hresult
  · exact hretired
  · decide
  · exact hidle

end Machine

end Timeshare
