import Timeshare.Proofs.Cpu.Confined
import Timeshare.Proofs.Kernel.Lifecycle
import Timeshare.Proofs.Program.Bytes
import Timeshare.Proofs.Scheduler.Calls

/-!
# Processes that were launched

The scheduler and the processor of a kernel can be reached past the kernel, so a history
of a kernel consists of requests, of calls to its scheduler and of changes of its processor
(`KernelStep`). For the scheduler each of these comes to a history of calls
(`Kernel.leadsTo_afterSteps`), and what holds along the life of a process holds in a
kernel as well.

A program that is read from bytes ends with a halt, and the scheduler resumes its context
against the same program each time. So a process that was launched stays inside its program
(`Process.Inside.lived`) and does not terminate by running off its end.
-/

namespace Timeshare

/-! ## Processes inside of their programs -/

namespace Process

variable {pid : ProcessId} {p q : Process} {program : Program} {outcome : TickOutcome}
  {outcomes : List TickOutcome}

/-- The process stands at an instruction of the program and was not terminated outside of
it. -/
structure Inside (program : Program) (p : Process) : Prop where
  program_eq : p.program = program
  ip_lt : p.context.ip < program.size
  fault_ne : ∀ ip length, p.fault ≠ some (.cpu (.outOfProgram ip length))

theorem inside_submitted (h : 0 < program.size) (priority : Priority) (now : Nat) :
    (Process.submitted program priority now).Inside program :=
  ⟨rfl, h, nofun⟩

theorem Inside.raised (h : p.Inside program) (hr : p.Raised q) : q.Inside program := by
  cases hr with
  | kept => exact h
  | raised => exact ⟨h.program_eq, h.ip_lt, h.fault_ne⟩

theorem Inside.handled (h : p.Inside program) (hh : p.Handled q) : q.Inside program := by
  cases hh with
  | kept => exact h
  | readied | marked => exact ⟨h.program_eq, h.ip_lt, h.fault_ne⟩

theorem Inside.dispatched (h : p.Inside program) (hp : program.Confined program.size)
    (hd : p.Dispatched pid outcome q) : q.Inside program := by
  cases hd with
  | killed => exact ⟨h.program_eq, h.ip_lt, by simp⟩
  | putBack => exact h
  | ran hready hkill s memory slice retired state =>
      have hprogram := h.program_eq
      subst hprogram
      refine ⟨s.program_filed _ _, ?_, fun ip length => ?_⟩
      · rw [Scheduler.context_filed]
        exact hp.resume (w := ⟨p.context, memory⟩) h.ip_lt slice
      · have hne := hp.ne_outOfProgram (w := ⟨p.context, memory⟩) h.ip_lt slice ip length
        rw [Scheduler.fault_filed]
        cases hexit : (p.program.resume slice ⟨p.context, memory⟩).1 with
        | ok outcome => exact h.fault_ne ip length
        | error e =>
            rintro ⟨⟩
            exact hne hexit

/-- A process whose program does not lead out of itself stays inside as long as it lives. -/
theorem Inside.lived (h : p.Inside program) (hp : program.Confined program.size)
    (hl : p.Lived pid outcomes q) : q.Inside program := by
  induction hl with
  | refl => exact h
  | handled _ hh ih => exact ih.handled hh
  | ticked _ ht ih =>
      cases ht with
      | passed hraised => exact ih.raised hraised
      | chosen hraised hd => exact (ih.raised hraised).dispatched hp hd

end Process

/-! ## Histories of a kernel -/

/-- What can happen to a kernel. -/
inductive KernelStep
  | request (request : KernelRequest)
  /-- The scheduler is called directly, with any processor and any memory. -/
  | scheduler (call : Scheduler.Call)
  /-- The processor is used or switched directly, which leaves it like this. -/
  | processor (cpu : Cpu)

/-- The policies that the step hands over age by the rule. -/
def KernelStep.AgesByRule : KernelStep → Prop
  | scheduler call => call.AgesByRule
  | _ => True

theorem Config.agesByRule_buildPolicy (config : Config) : config.buildPolicy.AgesByRule :=
  PolicyKind.agesByRule_build ..

namespace Kernel

variable {k : Kernel} {step : KernelStep} {steps : List KernelStep} {pid : ProcessId}
  {p : Process} {bytes : List UInt8} {priority : Priority}

/-- The kernel after a step. -/
def afterStep (k : Kernel) : KernelStep → Kernel
  | .request request => k.after request
  | .scheduler call => k.withScheduler (k.machine.scheduler.afterCall call)
  | .processor cpu => k.withMachine (k.machine.withCpu cpu)

/-- The kernel after a history of steps. -/
def afterSteps (k : Kernel) (steps : List KernelStep) : Kernel := steps.foldl afterStep k

/-- A request comes to one call of the scheduler, or it does not reach it. -/
theorem leadsTo_after (k : Kernel) (request : KernelRequest) :
    k.machine.scheduler.LeadsTo (k.after request).machine.scheduler := by
  cases request with
  | boot =>
      change k.machine.scheduler.LeadsTo k.boot.state.machine.scheduler
      obtain ⟨-, -, hstate⟩ | ⟨-, -, hstate⟩ | ⟨-, -, -, hstate⟩ := k.boot_cases
      · rw [hstate]
        exact .refl _
      · rw [hstate]
        exact .refl _
      · rw [hstate]
        exact .afterCall { request := .start } trivial
  | shutdown =>
      change k.machine.scheduler.LeadsTo k.shutdown.state.machine.scheduler
      obtain ⟨-, hstate⟩ | ⟨-, hstate⟩ := k.shutdown_cases
      · rw [hstate]
        exact .refl _
      · rw [hstate]
        exact .afterCall { request := .stop } trivial
  | reconfigure config =>
      change k.machine.scheduler.LeadsTo (k.reconfigure config).state.machine.scheduler
      obtain ⟨-, hstate⟩ | ⟨-, hstate⟩ := k.reconfigure_cases config
      · rw [hstate]
        exact .refl _
      · rw [hstate]
        exact .afterCall { request := .setPolicy config.buildPolicy }
          config.agesByRule_buildPolicy
  | launch bytes priority =>
      change k.machine.scheduler.LeadsTo (k.launch bytes priority).state.machine.scheduler
      rw [launch]
      split
      · exact .refl _
      · split
        · exact .refl _
        · exact .afterCall { request := .submitAt _ priority } trivial
  | submit program =>
      exact .afterCall { request := .submit program } trivial
  | tick =>
      exact .afterCall
        { request := .tick, cpu := k.machine.cpu, memory := k.machine.memory } trivial
  | run maxTicks =>
      exact .afterCall
        { request := .run maxTicks, cpu := k.machine.cpu, memory := k.machine.memory } trivial
  | wake pid => exact .afterCall { request := .wake pid } trivial
  | kill pid => exact .afterCall { request := .kill pid } trivial
  | requestStop => exact .afterCall { request := .requestStop } trivial
  | memory request => exact .refl _

theorem leadsTo_afterStep (k : Kernel) (h : step.AgesByRule) :
    k.machine.scheduler.LeadsTo (k.afterStep step).machine.scheduler := by
  cases step with
  | request request => exact k.leadsTo_after request
  | scheduler call => exact .afterCall call h
  | processor cpu => exact .refl _

/-- For its scheduler, the history of a kernel is a history of calls. -/
theorem leadsTo_afterSteps (k : Kernel) (h : ∀ step ∈ steps, step.AgesByRule) :
    k.machine.scheduler.LeadsTo (k.afterSteps steps).machine.scheduler := by
  induction steps generalizing k with
  | nil => exact .refl _
  | cons step rest ih =>
      obtain ⟨hfirst, hrest⟩ := List.forall_mem_cons.1 h
      exact (k.leadsTo_afterStep hfirst).trans (ih (k.afterStep step) hrest)

theorem settled_afterSteps (config : Config) (h : ∀ step ∈ steps, step.AgesByRule) :
    ((new config).afterSteps steps).machine.scheduler.Settled :=
  ((new config).leadsTo_afterSteps h).settled
    (Scheduler.settled_new config.agesByRule_buildPolicy)

/-! ## Launches -/

/-- A launch that succeeds submits the program that the bytes stand for. -/
theorem launch_of_ok (h : (k.launch bytes priority).result = .ok pid) :
    ∃ program, Program.ofBytes bytes = .ok program ∧ pid = k.machine.scheduler.nextPid ∧
      (k.launch bytes priority).state.machine.scheduler =
        (k.machine.scheduler.submitAt program priority).state := by
  rw [launch] at h ⊢
  split at h
  · cases h
  next hbooted =>
    rw [if_neg hbooted]
    split at h
    · cases h
    next program hprogram =>
      rw [hprogram]
      cases h
      exact ⟨program, rfl, rfl, rfl⟩

/-- A process that was launched stays inside of the program that its bytes stand for. -/
theorem inside_of_launched {config : Config} {before after : List KernelStep}
    (hbefore : ∀ step ∈ before, step.AgesByRule) (hafter : ∀ step ∈ after, step.AgesByRule)
    (hlaunch : (((new config).afterSteps before).launch bytes priority).result = .ok pid)
    (hp : ((((new config).afterSteps before).launch bytes priority).state.afterSteps
      after).machine.scheduler.processes.get? pid = some p) :
    ∃ program, Program.ofBytes bytes = .ok program ∧ p.Inside program := by
  have hsettled := settled_afterSteps config hbefore
  obtain ⟨program, hprogram, rfl, hstate⟩ := launch_of_ok hlaunch
  obtain ⟨calls, hcalls, hscheduler⟩ := leadsTo_afterSteps
    (((new config).afterSteps before).launch bytes priority).state hafter
  rw [← hscheduler, hstate] at hp
  have hconfined := Program.confined_of_ofBytes hprogram
  obtain ⟨q, hlived, hq⟩ := (hsettled.submitAt program priority).exists_lived hcalls
    (Table.get?_insert_self ..)
  have hinside := (Process.inside_submitted hconfined.pos priority _).lived hconfined hlived
  obtain hq | ⟨hnone, -⟩ := hq
  · cases hq.symm.trans hp
    exact ⟨program, hprogram, hinside⟩
  · rw [hnone] at hp
    cases hp

/-- A program that is read from bytes does not run off its end. However often it is resumed,
and whatever processor, memory and budget it finds each time, it stands at one of its
instructions and does not fail for want of one, and an invalid jump is that of a jump or a
taken branch that it executes, with a target outside. So no process that a kernel launched is
ever terminated for want of an instruction. A program in general comes as far as its end and
fails there, if at all. -/
theorem read_programs_stay_inside :
    (∀ bytes p, Program.ofBytes bytes = .ok p → ∀ turns : List Turn,
      let c := p.contextAfter {} turns
      c.ip < p.size ∧ ∀ t : Turn,
        (∀ ip length, (p.turn c t).result ≠ .error (.outOfProgram ip length)) ∧
        ∀ target length, (p.turn c t).result = .error (.invalidJump target length) →
          let last := (p.turn c t).workspace
          last.context.started = true ∧ length = p.size ∧ length ≤ target ∧
            ∃ i jump, p.get? last.context.ip = some i ∧ i.target? last.context = some jump ∧
              jump.toNat = target ∧
              i.execute p.size last = .stop (.error (.invalidJump target length)) last) ∧
    (∀ (config : Config) (before after : List KernelStep),
      (∀ step ∈ before, step.AgesByRule) → (∀ step ∈ after, step.AgesByRule) →
      ∀ bytes priority pid,
        let launch := ((new config).afterSteps before).launch bytes priority
        launch.result = .ok pid →
          ∀ p, (launch.state.afterSteps after).machine.scheduler.processes.get? pid = some p →
            Program.ofBytes bytes = .ok p.program ∧ p.context.ip < p.program.size ∧
              ∀ ip length, p.fault ≠ some (.cpu (.outOfProgram ip length))) ∧
    ∀ (p : Program) (turns : List Turn),
      let c := p.contextAfter {} turns
      c.ip ≤ p.size ∧ ∀ (t : Turn) (ip length : Nat),
        (p.turn c t).result = .error (.outOfProgram ip length) →
          ip = p.size ∧ length = p.size := by
  refine ⟨fun bytes p => Program.inside_of_ofBytes, ?_, Program.outOfProgram_at_end⟩
  intro config before after hbefore hafter bytes priority pid launch hlaunch p hp
  obtain ⟨program, hprogram, hinside⟩ := inside_of_launched hbefore hafter hlaunch hp
  rw [hinside.program_eq]
  exact ⟨hprogram, hinside.ip_lt, hinside.fault_ne⟩

/-- A program waits and then jumps out of itself; another one, which does not end with a halt,
goes as far as its end. -/
theorem read_programs_stay_inside_of_wild_jump :
    let p := Program.ofList [.wait, .jump 9, .halt]
    let t : Turn := { cpu := { powered := true }, memory := .empty, budget := some 4 }
    let c := p.contextAfter {} [t]
    let q := Program.ofList [.nop, .nop]
    Program.ofBytes (Instruction.encodeAll [.wait, .jump 9]) = .ok p ∧
      c.ip = 1 ∧ c.ip < p.size ∧ (p.turn c t).result = .error (.invalidJump 9 3) ∧
      (∃ i jump, p.get? (p.turn c t).workspace.context.ip = some i ∧
        i.target? (p.turn c t).workspace.context = some jump ∧ jump.toNat = 9) ∧
      (q.turn {} t).result = .error (.outOfProgram 2 2) ∧ (2 = q.size ∧ 2 = q.size) := by
  intro p t c q
  have hbytes : Program.ofBytes (Instruction.encodeAll [.wait, .jump 9]) = .ok p := by
    rw [Program.ofBytes, Instruction.decodeAll_encodeAll]
    rfl
  have hjump : (p.turn c t).result = .error (.invalidJump 9 3) := rfl
  have hend : (q.turn {} t).result = .error (.outOfProgram 2 2) := rfl
  obtain ⟨hread, -, hany⟩ := read_programs_stay_inside
  obtain ⟨hip, hturn⟩ := hread _ p hbytes [t]
  obtain ⟨-, -, -, i, jump, hi, htarget, hnine, -⟩ := (hturn t).2 9 3 hjump
  exact ⟨hbytes, rfl, hip, hjump, ⟨i, jump, hi, htarget, hnine⟩, hend, (hany q []).2 t 2 2 hend⟩

end Kernel

end Timeshare
