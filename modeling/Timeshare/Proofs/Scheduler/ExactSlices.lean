import Timeshare.Proofs.Machine.Jobs
import Timeshare.Proofs.Machine.Levels
import Timeshare.Proofs.Scheduler.Killed

/-!
# How many slices a job takes

Under a policy that changes no levels every slice of a process has the same length. So a job
is cut into as many of them as fit into it and a last one, in which the rest is retired and the
halt is reached. The last slice is needed even if nothing is left to retire, because a slice
that is used up ends right before the halt.

`Process.OnPace` says that the slices of a process so far are the first ones of such a cut, and
that they are all of it if the process has terminated. A tick keeps the pace
(`Scheduler.exists_onPace_tick`), and so does every call but one that kills the process, as long
as the process lives (`Scheduler.exists_onPace_afterCalls`). What other processes do and where
the memory comes from makes no difference to a job that names no page.
-/

namespace Timeshare

/-! ## What the ticks retire of a process -/

namespace TickOutcome

variable {outcome : TickOutcome} {pid : ProcessId}

/-- The instructions that the tick retired of the process, if it dispatched it. -/
def retired? (pid : ProcessId) : TickOutcome → Option Nat
  | .ran other retired _ => if other = pid then some retired else none
  | _ => none

theorem retired?_of_not_chosen (h : outcome.chosen? ≠ some pid) : outcome.retired? pid = none := by
  cases outcome with
  | ran other retired state => exact if_neg fun heq => h (congrArg some heq)
  | _ => rfl

end TickOutcome

/-- The instructions that each of the slices of the process retired. -/
def retiredOf (pid : ProcessId) (outcomes : List TickOutcome) : List Nat :=
  outcomes.filterMap (·.retired? pid)

theorem retiredOf_append (pid : ProcessId) (first second : List TickOutcome) :
    retiredOf pid (first ++ second) = retiredOf pid first ++ retiredOf pid second :=
  List.filterMap_append

theorem retiredOf_of_not_chosen {pid : ProcessId} {outcomes : List TickOutcome}
    (h : ∀ outcome ∈ outcomes, outcome.chosen? ≠ some pid) : retiredOf pid outcomes = [] :=
  List.filterMap_eq_nil_iff.2 fun outcome hmem =>
    TickOutcome.retired?_of_not_chosen (h outcome hmem)

/-! ## The length of a slice -/

namespace PolicyKind

/-- The slice of a process at the given level. -/
def sliceAt (kind : PolicyKind) (quantum : Nat) (level : Priority) : Nat :=
  match kind with
  | shortestJobFirst => quantum
  | realTime => if level = .highest then 5 * quantum else quantum * (level.val + 1)
  | roundRobin | priorityAging => quantum * (level.val + 1)

theorem timeSlice_build (kind : PolicyKind) (params : PolicyParams) (p : Process) :
    (kind.build params).timeSlice p = kind.sliceAt params.baseQuantum p.priority := by
  cases kind with
  | roundRobin | priorityAging | shortestJobFirst => rfl
  | realTime =>
      have hband : p.priority.isRealTime = true ↔ p.priority = .highest := beq_iff_eq
      have hlongest : params.realTimeSlice = 5 * params.baseQuantum := Nat.mul_comm ..
      simp only [build, Policy.realTime, sliceAt, hband, hlongest]
      rfl

theorem keepsLevels_build {kind : PolicyKind} (h : kind ≠ priorityAging) (params : PolicyParams) :
    (kind.build params).KeepsLevels := by
  cases kind with
  | roundRobin => exact ⟨params, .inl rfl⟩
  | priorityAging => exact absurd rfl h
  | shortestJobFirst => exact ⟨params, .inr (.inl rfl)⟩
  | realTime => exact ⟨params, .inr (.inr rfl)⟩

end PolicyKind

/-- The policy keeps the levels and cuts the job into slices of the given length. -/
structure Policy.Cuts (job : Job) (slice : Nat) (policy : Policy) : Prop where
  keepsLevels : policy.KeepsLevels
  timeSlice_eq : ∀ p : Process, p.priority = job.priority → policy.timeSlice p = slice

theorem PolicyKind.cuts_build {kind : PolicyKind} (h : kind ≠ priorityAging)
    (params : PolicyParams) (job : Job) :
    (kind.build params).Cuts job (kind.sliceAt params.baseQuantum job.priority) where
  keepsLevels := keepsLevels_build h params
  timeSlice_eq p hp := hp ▸ kind.timeSlice_build params p

/-! ## The pace of a job -/

namespace Process

variable {job : Job} {slice : Nat} {p : Process} {amounts : List Nat} {memory : Memory}
  {w : Workspace} {exit : Exit}

/-- The slices of the process, which retired the given amounts, cut the job evenly. -/
structure OnPace (job : Job) (slice : Nat) (p : Process) (amounts : List Nat) : Prop where
  course : ∀ memory, p.OnCourse memory job
  priority_eq : p.priority = job.priority
  pace :
    p.state = .ready ∧ p.context.retired = p.dispatches * slice ∧
        amounts = List.replicate p.dispatches slice ∨
      p.state = .terminated ∧ p.dispatches = job.length / slice + 1 ∧
        amounts = List.replicate (job.length / slice) slice ++ [job.length % slice]

theorem onPace_submitted (hpages : job.program.pages = [])
    (hhalts : job.program.HaltsAlone job.length) (slice now : Nat) :
    (Process.submitted job.program job.priority now).OnPace job slice [] where
  course memory := .submitted (hhalts.haltsAt hpages memory) now
  priority_eq := rfl
  pace := .inl ⟨rfl, (Nat.zero_mul slice).symm, rfl⟩

theorem OnPace.filed (s : Scheduler) (h : p.OnPace job slice amounts) (hready : p.state = .ready)
    (hpages : job.program.pages = []) (hkeeps : s.policy.KeepsLevels)
    (hs : OnCourse.Sliced memory job p slice w exit) :
    (s.filed (p.afterRun w.context) exit).OnPace job slice
      (amounts ++ [w.context.retired - p.context.retired]) := by
  have hfiled := (h.course memory).filed s hready hs
  have hcourse := hfiled.withMemory hpages
  obtain ⟨-, hretired, rfl⟩ | ⟨hterminated, -⟩ := h.pace
  · have hbound := ((h.course memory).haltsAt hready).retired_le
    cases hs with
    | halted hlt hend =>
        refine ⟨hcourse, h.priority_eq, .inr ⟨rfl, ?_⟩⟩
        rw [Job.left, hretired] at hlt
        rw [hretired] at hbound
        have hslice : 0 < slice := by omega
        obtain ⟨hdiv, hmod⟩ : job.length / slice = p.dispatches ∧
            job.length % slice = job.length - p.dispatches * slice := by
          refine (Nat.div_mod_unique hslice).2 ⟨?_, hlt⟩
          rw [Nat.mul_comm slice]
          exact Nat.sub_add_cancel hbound
        rw [hdiv, hmod, hend, hretired]
        exact ⟨rfl, rfl⟩
    | expired hle hnext hrest =>
        have hlevel : (s.filed (p.afterRun w.context) (.ok .sliceExpired)).priority =
            p.priority := by
          rw [Scheduler.filed, Scheduler.priority_afterExpiry, hkeeps.levelAfterExpiry_eq]
          rfl
        refine ⟨hcourse, hlevel.trans h.priority_eq, .inl ⟨rfl, ?_⟩⟩
        rw [Scheduler.context_filed, Scheduler.dispatches_filed]
        have hadvance : w.context.retired = (p.dispatches + 1) * slice := by
          rw [hnext, hretired, Nat.succ_mul]
        have hamount : w.context.retired - p.context.retired = slice := by omega
        rw [hamount]
        exact ⟨hadvance, List.replicate_succ'.symm⟩
  · rw [hready] at hterminated
    cases hterminated

/-- The cut is complete when the process has terminated. -/
theorem OnPace.complete (h : p.OnPace job slice amounts) (hp : p.state = .terminated) :
    p.cpuTime = job.length ∧ p.dispatches = job.length / slice + 1 ∧
      amounts = List.replicate (job.length / slice) slice ++ [job.length % slice] := by
  have hcourse := h.course .empty
  have hretired : p.context.retired = job.length := by
    obtain ⟨hready, -⟩ | ⟨-, hretired⟩ := hcourse.course
    · rw [hp] at hready
      cases hready
    · exact hretired
  obtain ⟨hready, -⟩ | ⟨-, hdispatches, hamounts⟩ := h.pace
  · rw [hp] at hready
    cases hready
  · exact ⟨hcourse.cpuTime_eq.trans hretired, hdispatches, hamounts⟩

end Process

/-! ## Ticks -/

namespace Machine

variable {m m' : Machine} {pid : ProcessId} {p : Process} {outcome : TickOutcome} {job : Job}
  {slice : Nat} {amounts : List Nat}

/-- A dispatch leaves a process that is not marked as it is, or it gives it a slice. -/
theorem Dispatched.get?_of_unmarked (h : m.Dispatched outcome m')
    (hp : m.scheduler.processes.get? pid = some p) (hunmarked : p.killRequested = false) :
    (outcome.retired? pid = none ∧ m'.scheduler.processes.get? pid = some p) ∨
    (p.state = .ready ∧ m.cpu.powered = true ∧
      outcome.retired? pid =
        some ((m.slice p).workspace.context.retired - p.context.retired) ∧
      m'.scheduler.processes.get? pid =
        some ((m.scheduler.take pid).filed (p.afterRun (m.slice p).workspace.context)
          (m.sliceExit p))) := by
  obtain ⟨hpassed, hsame⟩ | ⟨p', q, hp', hq, hd⟩ := h.get? pid
  · exact .inl ⟨TickOutcome.retired?_of_not_chosen hpassed, hsame.trans hp⟩
  · obtain rfl : p = p' := Option.some.inj (hp.symm.trans hp')
    cases hd with
    | killed hready hkill =>
        rw [hunmarked] at hkill
        cases hkill
    | putBack => exact .inl ⟨rfl, hq⟩
    | ran hready =>
        cases h with
        | killed hchoice hget hready hkill =>
            rw [hp] at hget
            cases hget
            rw [hunmarked] at hkill
            cases hkill
        | ran hchoice hget hready hkill hpower =>
            rw [hp] at hget
            cases hget
            refine .inr ⟨hready, hpower, if_pos rfl, ?_⟩
            rw [Scheduler.state_settle]
            exact Table.get?_insert_self ..

/-- A tick keeps a process on its pace. -/
theorem exists_onPace_tick (hcuts : m.scheduler.policy.Cuts job slice)
    (hpages : job.program.pages = []) (hp : m.scheduler.processes.get? pid = some p)
    (h : p.OnPace job slice amounts) :
    ∃ q, m.tick.state.scheduler.processes.get? pid = some q ∧
      q.OnPace job slice (amounts ++ retiredOf pid [m.tick.result]) := by
  obtain ⟨-, hresult, hstate⟩ | ⟨-, hd⟩ := ticked_tick m
  · rw [hresult, hstate, Scheduler.state_honourStop]
    exact ⟨p, hp, (List.append_nil amounts).symm ▸ h⟩
  · have hbegun : m.begun.scheduler.processes.get? pid = some p :=
      (begun_of_idle hcuts.keepsLevels.age_eq).2.symm ▸ hp
    have hcourse := h.course m.begun.memory
    obtain ⟨hnone, hsame⟩ | ⟨hready, hpower, hretired, hq⟩ :=
      hd.get?_of_unmarked hbegun hcourse.unmarked
    · rw [retiredOf, List.filterMap_cons_none hnone, List.filterMap_nil, List.append_nil]
      exact ⟨p, hsame, h⟩
    · have hkeeps : m.begun.scheduler.policy.KeepsLevels := m.policy_begun ▸ hcuts.keepsLevels
      have hslice : m.begun.scheduler.policy.timeSlice { p with state := .running } = slice :=
        m.policy_begun ▸ hcuts.timeSlice_eq _ h.priority_eq
      have hsliced := hcourse.sliced hready hpages
        (m.begun.scheduler.policy.timeSlice { p with state := .running })
      rw [← sliceExit_eq hpower, ← workspace_slice hpower, hslice] at hsliced
      rw [retiredOf, List.filterMap_cons_some hretired, List.filterMap_nil]
      exact ⟨_, hq, h.filed (m.begun.scheduler.take pid) hready hpages hkeeps hsliced⟩

/-- A run of ticks keeps a process on its pace. -/
theorem exists_onPace_run (hcuts : m.scheduler.policy.Cuts job slice)
    (hpages : job.program.pages = []) (hp : m.scheduler.processes.get? pid = some p)
    (h : p.OnPace job slice amounts) (maxTicks : Nat) :
    ∃ q, (m.run maxTicks).state.scheduler.processes.get? pid = some q ∧
      q.OnPace job slice (amounts ++ retiredOf pid (m.runOutcomes maxTicks)) := by
  have hrun := runOutcomes_induction (m := m)
    (P := fun outcomes m' => m'.scheduler.policy.Cuts job slice ∧
      ∃ q, m'.scheduler.processes.get? pid = some q ∧
        q.OnPace job slice (amounts ++ retiredOf pid outcomes))
    ?_ [] ⟨hcuts, p, hp, (List.append_nil amounts).symm ▸ h⟩ maxTicks
  · exact hrun.2
  · rintro outcomes m' ⟨hcuts', q, hq, hpace⟩
    rw [retiredOf_append, ← List.append_assoc]
    exact ⟨m'.policy_tick.symm ▸ hcuts', exists_onPace_tick hcuts' hpages hq hpace⟩

end Machine

/-! ## Histories -/

namespace Scheduler

variable {s : Scheduler} {call : Call} {calls : List Call} {pid : ProcessId} {p q : Process}
  {job : Job} {slice : Nat} {amounts : List Nat}

/-- The last record of the process in a history of calls, which is in the table then or was
reaped. -/
def LastRecord (s : Scheduler) (calls : List Call) (pid : ProcessId) (q : Process) : Prop :=
  (s.afterCalls calls).processes.get? pid = some q ∨
    (s.afterCalls calls).processes.get? pid = none ∧ q.state = .terminated ∧
      q.snapshot pid ∈ s.reaped calls

theorem LastRecord.cons (h : (s.afterCall call).LastRecord calls pid q) :
    s.LastRecord (call :: calls) pid q := by
  obtain hp | ⟨hgone, hstate, hmem⟩ := h
  · exact .inl hp
  · exact .inr ⟨hgone, hstate, List.mem_append_right (s.answer call).snapshots hmem⟩

/-- A call that does not tick leaves a ready process as it is, unless the process is killed. -/
theorem get?_afterCall_of_ready (h : s.Settled) (hticks : call.request.ticks = false)
    (hkill : call.request ≠ .kill pid) (hp : s.processes.get? pid = some p)
    (hready : p.state = .ready) : (s.afterCall call).processes.get? pid = some p := by
  obtain ⟨request, cpu, memory⟩ := call
  cases request with
  | submit program | submitAt program priority =>
      have hne : s.nextPid ≠ pid := by
        rintro rfl
        rw [h.get?_nextPid] at hp
        cases hp
      exact (Table.get?_insert_of_ne _ hne _).trans hp
  | reap =>
      obtain hkept | ⟨-, hterminated, -⟩ := reap_cases hp
      · exact hkept
      · rw [hready] at hterminated
        cases hterminated
  | wake other =>
      change (s.wake other).state.processes.get? pid = some p
      obtain ⟨-, hstate⟩ | ⟨p', hp', hwaiting, -, hstate⟩ := wake_cases s other
      · rwa [hstate]
      · have hne : other ≠ pid := by
          rintro rfl
          rw [hp] at hp'
          cases hp'
          rw [hready] at hwaiting
          cases hwaiting
        rw [hstate]
        exact (Table.get?_insert_of_ne _ hne _).trans hp
  | kill other =>
      have hne : other ≠ pid := fun heq => hkill (congrArg MachineRequest.kill heq)
      change (s.kill other).state.processes.get? pid = some p
      obtain ⟨-, hstate⟩ | ⟨p', -, -, -, hstate⟩ | ⟨p', -, -, -, -, hstate⟩ := kill_cases s other
      · rwa [hstate]
      · rw [hstate]
        exact (Table.get?_insert_of_ne _ hne _).trans hp
      · rw [hstate]
        exact (Table.get?_insert_of_ne _ hne _).trans hp
  | start => exact s.processes_start ▸ hp
  | stop => exact s.processes_stop ▸ hp
  | power on | memory request | requestStop | setPolicy policy => exact hp
  | tick | run => cases hticks

/-- A process keeps its pace under a call, as long as the call does not kill it. -/
theorem exists_onPace_afterCall (hs : s.Settled) (hcuts : s.policy.Cuts job slice)
    (hpages : job.program.pages = []) (hkill : call.request ≠ .kill pid)
    (hp : s.processes.get? pid = some p) (hready : p.state = .ready)
    (h : p.OnPace job slice amounts) :
    ∃ q, (s.afterCall call).processes.get? pid = some q ∧
      q.OnPace job slice (amounts ++ retiredOf pid ((s.on call).outcomesOf call.request)) := by
  cases hticks : call.request.ticks with
  | true =>
      obtain ⟨request, cpu, memory⟩ := call
      cases request with
      | tick => exact Machine.exists_onPace_tick (m := s.on ⟨.tick, cpu, memory⟩) hcuts hpages hp h
      | run maxTicks =>
          exact Machine.exists_onPace_run (m := s.on ⟨.run maxTicks, cpu, memory⟩) hcuts hpages hp
            h maxTicks
      | _ => cases hticks
  | false =>
      have hnone : (s.on call).outcomesOf call.request = [] := by
        cases hrequest : call.request with
        | tick | run => rw [hrequest] at hticks; cases hticks
        | _ => rfl
      rw [hnone]
      exact ⟨p, get?_afterCall_of_ready hs hticks hkill hp hready,
        (List.append_nil amounts).symm ▸ h⟩

/-- In any history of calls a process keeps its pace until it has terminated, unless it is
killed in it. -/
theorem exists_onPace_afterCalls (hs : s.Settled) (hcuts : s.policy.Cuts job slice)
    (hpages : job.program.pages = []) (hcalls : ∀ call ∈ calls, call.Within (·.Cuts job slice))
    (hp : s.processes.get? pid = some p) (h : p.OnPace job slice amounts) :
    ∃ q, s.LastRecord calls pid q ∧
      (q.OnPace job slice (amounts ++ retiredOf pid (s.outcomes calls)) ∨
        (q.Marked ∨ q.Ended) ∧ ∃ call ∈ calls, call.request = .kill pid) := by
  have hages : ∀ call ∈ calls, call.AgesByRule := fun call hmem =>
    (hcalls call hmem).agesByRule fun _ hpolicy => hpolicy.keepsLevels.builtIn.agesByRule
  induction calls generalizing s p amounts with
  | nil => exact ⟨p, .inl hp, .inl ((List.append_nil amounts).symm ▸ h)⟩
  | cons call rest ih =>
      -- The induction goes on as long as the process is ready and not killed; what becomes of it
      -- after that is known for all the calls that are left.
      obtain ⟨hready, -⟩ | ⟨hterminated, -⟩ := h.pace
      · obtain ⟨hfirst, hrest⟩ := List.forall_mem_cons.1 hcalls
        obtain ⟨hage, hages'⟩ := List.forall_mem_cons.1 hages
        by_cases hkill : call.request = .kill pid
        · have hlive : p.state ≠ .terminated := by simp [hready]
          obtain ⟨-, -, q, hq, hmarked, -⟩ := kill_of_live hs hp hlive
          have hq' : (s.afterCall call).processes.get? pid = some q := by
            rw [afterCall, hkill]
            exact hq
          obtain ⟨r, hlived, hr⟩ := (hs.afterCall hage).exists_lived hages' hq'
          have hends : r.Marked ∨ r.Ended := (hlived.killed hmarked).imp (·.2.1) (·.2.1)
          exact ⟨r, LastRecord.cons hr, .inr ⟨hends, call, List.mem_cons_self .., hkill⟩⟩
        · obtain ⟨q, hq, hpace⟩ := exists_onPace_afterCall hs hcuts hpages hkill hp hready h
          obtain ⟨r, hr, hlast⟩ := ih (hs.afterCall hage) (policy_afterCall hcuts hfirst) hrest hq
            hpace hages'
          have houtcomes : s.outcomes (call :: rest) =
              (s.on call).outcomesOf call.request ++ (s.afterCall call).outcomes rest := rfl
          rw [houtcomes, retiredOf_append, ← List.append_assoc]
          refine ⟨r, hr.cons, hlast.imp_right ?_⟩
          rintro ⟨hends, killing, hmem, hkilling⟩
          exact ⟨hends, killing, List.mem_cons_of_mem _ hmem, hkilling⟩
      · obtain ⟨q, hlived, hq⟩ := hs.exists_lived hages hp
        obtain ⟨rfl, hpassed⟩ := hlived.eq_of_terminated hterminated
        rw [retiredOf_of_not_chosen hpassed, List.append_nil]
        exact ⟨q, hq, .inl h⟩

/-- A program takes exactly the slices that it needs. Under round robin, shortest job first or
real time, a process whose program neither loads nor stores and retires `length` instructions
alone before it halts is still live after any history of calls, or it was killed, or it has
retired `length` instructions: as many full slices as fit into them, and then the rest and the
halt in a last one, which retires nothing if the slices divide the length. -/
theorem exact_slices_taken {kind : PolicyKind} {params : PolicyParams}
    (hkind : kind ≠ .priorityAging) {before after : List Call}
    (hbefore : ∀ call ∈ before, call.Within (· = kind.build params))
    (hafter : ∀ call ∈ after, call.Within (· = kind.build params)) {program : Program}
    {length : Nat} (hpages : program.pages = []) (hhalts : program.HaltsAlone length)
    (level : Priority) :
    let s := (Scheduler.new (kind.build params)).afterCalls before
    let submitted := (s.submitAt program level).state
    let pid := (s.submitAt program level).result
    let slice := kind.sliceAt params.baseQuantum level
    let amounts := retiredOf pid (submitted.outcomes after)
    ∃ q, submitted.LastRecord after pid q ∧
      (q.fault = some .killed → ∃ call ∈ after, call.request = .kill pid) ∧
      (q.state = .terminated → q.fault ≠ some .killed →
        q.fault = none ∧ q.cpuTime = length ∧ q.dispatches = length / slice + 1 ∧
          amounts = List.replicate (length / slice) slice ++ [length % slice] ∧
          (slice ∣ length → amounts.getLast? = some 0)) := by
  intro s submitted pid slice amounts
  let job : Job := ⟨program, level, length⟩
  have hcuts : (kind.build params).Cuts job slice := PolicyKind.cuts_build hkind params job
  have hcalls : ∀ call ∈ after, call.Within (·.Cuts job slice) := fun call hmem =>
    (hafter call hmem).mono fun policy (hpolicy : policy = _) => hpolicy ▸ hcuts
  have hages : ∀ call ∈ before, call.AgesByRule := fun call hmem =>
    (hbefore call hmem).agesByRule fun policy (hpolicy : policy = _) =>
      hpolicy ▸ kind.agesByRule_build params
  have hs : s.Settled := (settled_new (kind.agesByRule_build params)).afterCalls hages
  have hpolicy : s.policy = kind.build params :=
    policy_afterCalls (P := (· = kind.build params)) rfl hbefore
  have hfresh : submitted.processes.get? pid =
      some (.submitted job.program job.priority s.clock) := Table.get?_insert_self ..
  obtain ⟨q, hq, hends⟩ := exists_onPace_afterCalls (hs.submitAt program level)
    (hpolicy.symm ▸ hcuts : submitted.policy.Cuts job slice) hpages hcalls hfresh
    (Process.onPace_submitted hpages hhalts slice s.clock)
  refine ⟨q, hq, ?_⟩
  obtain hpace | ⟨hkilled, hkill⟩ := hends
  · have hfault := (hpace.course .empty).fault_eq
    refine ⟨fun hkilled => ?_, fun hterminated _ => ?_⟩
    · rw [hfault] at hkilled
      cases hkilled
    · obtain ⟨htime, hdispatches, hamounts⟩ := hpace.complete hterminated
      refine ⟨hfault, htime, hdispatches, hamounts, fun hdivides => ?_⟩
      change (([] : List Nat) ++ amounts).getLast? = some 0
      rw [hamounts, List.getLast?_concat, Nat.mod_eq_zero_of_dvd hdivides]
  · refine ⟨fun _ => hkill, fun hterminated hfault => ?_⟩
    obtain hmarked | hended := hkilled
    · have hready := hmarked.ready
      rw [hterminated] at hready
      cases hready
    · exact absurd hended.killed hfault

/-- A loop of ten instructions in slices of five, at the highest level under real time, with a
tick without power and another process that is killed in between: the third slice retires
nothing. -/
theorem exact_slices_taken_of_even_cut :
    let policy : Policy := PolicyKind.realTime.build { baseQuantum := 1 }
    let program : Program :=
      .ofList [.loadImm 0 4, .loadImm 1 1, .alu .sub 0 0 1, .branchNonZero 0 2, .halt]
    let cpu : Cpu := { powered := true }
    let before : List Call :=
      [{ request := .submitAt (.ofList [.jump 0]) 1 }, { request := .start },
        { request := .tick, cpu }]
    let after : List Call :=
      [{ request := .tick, cpu }, { request := .kill 1 }, { request := .tick },
        { request := .setPolicy policy }, { request := .run 4, cpu }, { request := .reap }]
    let s := (Scheduler.new policy).afterCalls before
    let submitted := (s.submitAt program .highest).state
    PolicyKind.realTime ≠ .priorityAging ∧ (∀ call ∈ before, call.Within (· = policy)) ∧
      (∀ call ∈ after, call.Within (· = policy)) ∧ program.pages = [] ∧
      program.HaltsAlone 10 ∧ PolicyKind.realTime.sliceAt 1 .highest = 5 ∧
      submitted.outcomes after =
        [.ran 2 5 .ready, .cpuUnavailable 2, .ran 2 5 .ready, .ran 2 0 .terminated,
          .ran 1 0 .terminated, .idle] ∧
      retiredOf 2 (submitted.outcomes after) = [5, 5, 0] ∧
      ∃ q : Process, q.snapshot 2 ∈ submitted.reaped after ∧ q.fault = none ∧ q.cpuTime = 10 ∧
        q.dispatches = 3 := by
  intro policy program cpu before after
  have hkind : PolicyKind.realTime ≠ .priorityAging := by decide
  have hbefore : ∀ call ∈ before, call.Within (· = policy) := by
    intro call hcall
    simp only [before, List.mem_cons, List.not_mem_nil, or_false] at hcall
    rcases hcall with rfl | rfl | rfl <;> trivial
  have hafter : ∀ call ∈ after, call.Within (· = policy) := by
    intro call hcall
    simp only [after, List.mem_cons, List.not_mem_nil, or_false] at hcall
    rcases hcall with rfl | rfl | rfl | rfl | rfl | rfl <;> trivial
  have hunkilled : ∀ call ∈ after, call.request ≠ .kill 2 := by
    intro call hcall hrequest
    simp only [after, List.mem_cons, List.not_mem_nil, or_false] at hcall
    rcases hcall with rfl | rfl | rfl | rfl | rfl | rfl <;> cases hrequest
  have hend : (program.resume 11 ⟨{}, .empty⟩).1 = .ok .halted ∧
      (program.resume 11 ⟨{}, .empty⟩).2.context.retired = 10 := by decide +kernel
  have hhalts : program.HaltsAlone 10 := Program.haltsAlone_of_resume hend.1 hend.2
  have h := exact_slices_taken hkind hbefore hafter rfl hhalts .highest
  -- With the names of the schedulers in the way, they would be computed to be compared.
  dsimp only at h ⊢
  obtain ⟨q, hq, hkilled, hended⟩ := h
  have hfault : q.fault ≠ some .killed := by
    intro hfault
    obtain ⟨call, hmem, hrequest⟩ := hkilled hfault
    exact hunkilled call hmem hrequest
  obtain hp | ⟨-, hterminated, hreaped⟩ := hq
  · have hgone : ((((new policy).afterCalls before).submitAt program .highest).state.afterCalls
        after).processes.get? 2 = none := by decide +kernel
    cases hgone.symm.trans hp
  · obtain ⟨hnone, htime, hdispatches, hamounts, -⟩ := hended hterminated hfault
    exact ⟨hkind, hbefore, hafter, rfl, hhalts, rfl, by decide +kernel, hamounts, q, hreaped,
      hnone, htime, hdispatches⟩

end Scheduler

end Timeshare
