import Timeshare.Kernel.Request
import Timeshare.Proofs.Cpu.Accesses
import Timeshare.Proofs.Machine.Paced
import Timeshare.Proofs.Memory.Performed

/-!
# The lifecycle of the kernel

Whether the kernel is booted is written down in five places: the flag of the kernel, its
phase, the power of the processor, the start of the scheduler and the set-up of the
memory. `Kernel.Coherent` says how they belong together. Boots, shutdowns and
reconfigurations move them in one step (`Kernel.boot_cases`, `Kernel.shutdown_cases`,
`Kernel.reconfigure_cases`), and every other request leaves a machine that goes on as the
one before (`Machine.GoesOn`), so the places agree after every history of requests
(`Kernel.lifecycle`).
-/

namespace Timeshare

/-! ## Memories that stay set up -/

namespace Memory

theorem initialized_after {m : Memory} (h : m.initialized = true) (request : MemoryRequest) :
    (m.after request).initialized = true := by
  have hstep := performed_perform m request
  generalize (m.perform request).result = result at hstep
  generalize m.after request = m' at hstep ⊢
  cases hstep with
  | reset hbytes hframes => rfl
  | _ => exact h

theorem initialized_afterAll {m : Memory} (h : m.initialized = true)
    (requests : List MemoryRequest) : (m.afterAll requests).initialized = true := by
  induction requests generalizing m with
  | nil => exact h
  | cons request rest ih => exact ih (initialized_after h request)

/-- A reset with the numbers of a valid configuration succeeds. -/
theorem reset_of_validate {config : Config} (h : config.validate = .ok ()) (m : Memory) :
    (m.reset config.memorySize config.residentPages).result = .ok () ∧
      (m.reset config.memorySize config.residentPages).state.initialized = true := by
  obtain ⟨hsize, hframes, -⟩ := config.validate_eq_ok_iff.1 h
  rw [reset, if_neg hsize, if_neg hframes]
  exact ⟨rfl, rfl⟩

end Memory

/-! ## Machines that go on -/

namespace Machine

/-- The later machine has the policy and the power of the earlier one, and in between the
scheduler was not started and the memory not taken down. -/
structure GoesOn (m m' : Machine) : Prop where
  policy_eq : m'.scheduler.policy = m.scheduler.policy
  powered_eq : m'.cpu.powered = m.cpu.powered
  started : m'.scheduler.started = true → m.scheduler.started = true
  initialized : m.memory.initialized = true → m'.memory.initialized = true

variable {m m' m₁ : Machine}

theorem GoesOn.refl (m : Machine) : m.GoesOn m := ⟨rfl, rfl, id, id⟩

theorem GoesOn.trans (h : m.GoesOn m') (h₁ : m'.GoesOn m₁) : m.GoesOn m₁ where
  policy_eq := h₁.policy_eq.trans h.policy_eq
  powered_eq := h₁.powered_eq.trans h.powered_eq
  started := h.started ∘ h₁.started
  initialized := h₁.initialized ∘ h.initialized

theorem goesOn_withScheduler {s : Scheduler} (hpolicy : s.policy = m.scheduler.policy)
    (hstarted : s.started = true → m.scheduler.started = true) :
    m.GoesOn (m.withScheduler s) :=
  ⟨hpolicy, rfl, hstarted, id⟩

theorem goesOn_wake (m : Machine) (pid : ProcessId) :
    m.GoesOn (m.withScheduler (m.scheduler.wake pid).state) := by
  obtain ⟨-, hstate⟩ | ⟨p, -, -, -, hstate⟩ := m.scheduler.wake_cases pid
  · rw [hstate]
    exact .refl m
  · rw [hstate]
    exact goesOn_withScheduler rfl id

theorem goesOn_kill (m : Machine) (pid : ProcessId) :
    m.GoesOn (m.withScheduler (m.scheduler.kill pid).state) := by
  obtain ⟨-, hstate⟩ | ⟨p, -, -, -, hstate⟩ | ⟨p, -, -, -, -, hstate⟩ :=
    m.scheduler.kill_cases pid
  · rw [hstate]
    exact .refl m
  · rw [hstate]
    exact goesOn_withScheduler rfl id
  · rw [hstate]
    exact goesOn_withScheduler rfl id

theorem goesOn_honourStop (m : Machine) :
    m.GoesOn (m.withScheduler m.scheduler.honourStop.state) := by
  rw [Scheduler.state_honourStop]
  exact goesOn_withScheduler rfl fun h => (Bool.and_eq_true_iff.1 h).1

theorem Dispatched.goesOn {outcome : TickOutcome} (h : m.Dispatched outcome m') :
    m.GoesOn m' := by
  obtain ⟨hpolicy, hstarted, -, -, hpower⟩ := h.kept
  refine ⟨hpolicy, hpower, fun hs => hstarted.symm.trans hs, fun hi => ?_⟩
  cases h with
  | @ran pid p hchoice hp hready hkill hpower =>
      rw [slice, Cpu.memory_run]
      exact Memory.initialized_afterAll hi _
  | _ => exact hi

theorem goesOn_tick (m : Machine) : m.GoesOn m.tick.state := by
  obtain ⟨-, -, hstate⟩ | ⟨-, hd⟩ := ticked_tick m
  · rw [hstate]
    exact m.goesOn_honourStop
  · have hbegun : m.GoesOn m.begun := m.goesOn_honourStop.trans (goesOn_withScheduler rfl id)
    exact hbegun.trans hd.goesOn

theorem goesOn_run (m : Machine) (maxTicks : Nat) : m.GoesOn (m.run maxTicks).state :=
  run_induction (P := m.GoesOn) (fun m' h => h.trans m'.goesOn_tick) (.refl m) maxTicks

/-! ## Machines that are not started -/

theorem tick_of_not_started (h : m.scheduler.started = false) :
    m.tick.result = .stopped ∧ m.tick.state.cpu = m.cpu ∧ m.tick.state.memory = m.memory := by
  obtain ⟨-, hresult, hstate⟩ | ⟨hstarted, -⟩ := ticked_tick m
  · rw [hstate]
    exact ⟨hresult, rfl, rfl⟩
  · rw [Scheduler.state_honourStop, h] at hstarted
    cases hstarted

theorem run_of_not_started (h : m.scheduler.started = false) (maxTicks : Nat) :
    (1 ≤ maxTicks → (m.run maxTicks).result = .stopped) ∧
      (m.run maxTicks).state.cpu = m.cpu ∧ (m.run maxTicks).state.memory = m.memory := by
  obtain ⟨hresult, hcpu, hmemory⟩ := tick_of_not_started h
  cases maxTicks with
  | zero => exact ⟨nofun, rfl, rfl⟩
  | succ n =>
      have hexit : m.tick.result.exit? = some .stopped := by
        rw [hresult]
        rfl
      rw [run, runAfter_succ_of_exit hexit]
      exact ⟨fun _ => rfl, hcpu, hmemory⟩

end Machine

/-! ## Requests and answers -/

namespace KernelRequest

/-- Whether the request starts, runs, wakes or ends processes. -/
def schedules : KernelRequest → Bool
  | .launch _ _ | .submit _ | .tick | .run _ | .wake _ | .kill _ => true
  | _ => false

/-- Whether the request brings the machine up or down, or configures it. -/
def isSwitch : KernelRequest → Bool
  | .boot | .shutdown | .reconfigure _ => true
  | _ => false

end KernelRequest

/-- Whether the answer is that of a boot that brought the machine up. -/
def KernelAnswer.isBooted : KernelAnswer → Bool
  | .boot (.ok .booted) => true
  | _ => false

namespace Kernel

/-- The answers to a history of requests. -/
def answers (k : Kernel) : List KernelRequest → List KernelAnswer
  | [] => []
  | request :: rest => (k.perform request).result :: (k.after request).answers rest

/-- The flag, the phase, the power, the scheduler and the memory agree about whether the
kernel is booted, and the policy is the one that the configuration asks for. -/
structure Coherent (k : Kernel) : Prop where
  booted_iff_running : k.booted = true ↔ k.phase = .running
  powered_eq : k.machine.cpu.powered = k.booted
  booted_of_started : k.machine.scheduler.started = true → k.booted = true
  resting : k.booted = false → k.phase = .notStarted ∨ k.phase = .halted
  ready : k.booted = true → k.machine.memory.initialized = true ∧ k.config.validate = .ok ()
  policy_eq : k.machine.scheduler.policy = k.config.buildPolicy

variable {k : Kernel}

/-! ## Switching -/

/-- A boot finds the kernel booted, fails, or brings the machine up. It fails exactly if
the configuration is not valid. -/
theorem boot_cases (k : Kernel) :
    (k.booted = true ∧ k.boot.result = .ok .alreadyBooted ∧ k.boot.state = k) ∨
    (k.booted = false ∧ (∃ e, k.boot.result = .error e) ∧
      k.boot.state =
        { k with
          phase := .notStarted
          machine := { k.machine with cpu := k.machine.cpu.powerOff.state } }) ∨
    (k.booted = false ∧ k.config.validate = .ok () ∧ k.boot.result = .ok .booted ∧
      k.boot.state =
        { k with
          phase := .running
          booted := true
          boots := k.boots + 1
          machine :=
            { scheduler := k.machine.scheduler.start.state
              cpu := k.machine.cpu.powerOn.state
              memory :=
                (k.machine.memory.reset k.config.memorySize k.config.residentPages).state } }) := by
  cases hbooted : k.booted with
  | true => exact .inl ⟨rfl, by simp [boot, hbooted], by simp [boot, hbooted]⟩
  | false =>
      cases hvalid : k.config.validate with
      | error e =>
          have hup : k.bringUp =
              ⟨.error (.config e), { k with phase := .config }, #[.phaseEntered .config]⟩ := by
            rw [bringUp, hvalid]
          refine .inr (.inl ⟨rfl, ?_, ?_⟩)
          · simp [boot, hbooted, hup]
          · simp [boot, hbooted, hup]
      | ok _ =>
          obtain ⟨hreset, -⟩ := k.machine.memory.reset_of_validate hvalid
          refine .inr (.inr ⟨rfl, rfl, ?_, ?_⟩)
          · simp [boot, bringUp, hbooted, hvalid, hreset]
          · simp [boot, bringUp, hbooted, hvalid, hreset]

/-- A shutdown finds the kernel not booted or takes the machine down. -/
theorem shutdown_cases (k : Kernel) :
    (k.booted = false ∧ k.shutdown.state = k) ∨
    (k.booted = true ∧
      k.shutdown.state =
        { k with
          booted := false
          phase := .halted
          machine :=
            { k.machine with
              scheduler := k.machine.scheduler.stop.state
              cpu := k.machine.cpu.powerOff.state } }) := by
  cases hbooted : k.booted with
  | false => exact .inl ⟨rfl, by simp [shutdown, hbooted]⟩
  | true => exact .inr ⟨rfl, by simp [shutdown, hbooted]⟩

/-- A reconfiguration finds the kernel booted or replaces the configuration and the
policy. -/
theorem reconfigure_cases (k : Kernel) (config : Config) :
    (k.booted = true ∧ (k.reconfigure config).state = k) ∨
    (k.booted = false ∧
      (k.reconfigure config).state =
        { k with
          config
          machine := k.machine.withScheduler
            (k.machine.scheduler.setPolicy config.buildPolicy).state }) := by
  cases hbooted : k.booted with
  | true => exact .inl ⟨rfl, by simp [reconfigure, hbooted]⟩
  | false => exact .inr ⟨rfl, by simp [reconfigure, hbooted, Machine.withScheduler]⟩

/-- No switch touches the processes, their queues or the numbers to be given away. -/
theorem processes_after_of_isSwitch {request : KernelRequest} (h : request.isSwitch = true) :
    (k.after request).machine.scheduler.processes = k.machine.scheduler.processes ∧
      (k.after request).machine.scheduler.queues = k.machine.scheduler.queues ∧
      (k.after request).machine.scheduler.nextPid = k.machine.scheduler.nextPid := by
  cases request with
  | boot =>
      obtain ⟨-, -, hstate⟩ | ⟨-, -, hstate⟩ | ⟨-, -, -, hstate⟩ := k.boot_cases
      · simp [after, perform, hstate]
      · simp [after, perform, hstate]
      · simp [after, perform, hstate, Scheduler.state_start]
  | shutdown =>
      obtain ⟨-, hstate⟩ | ⟨-, hstate⟩ := k.shutdown_cases
      · simp [after, perform, hstate]
      · simp [after, perform, hstate, Scheduler.state_stop]
  | reconfigure config =>
      obtain ⟨-, hstate⟩ | ⟨-, hstate⟩ := k.reconfigure_cases config
      · simp [after, perform, hstate]
      · simp [after, perform, hstate, Machine.withScheduler, Scheduler.setPolicy]
  | launch | submit | tick | run | wake | kill | requestStop | memory => cases h

/-! ## Agreement -/

theorem coherent_new (config : Config) : (new config).Coherent where
  booted_iff_running := by simp [new]
  powered_eq := rfl
  booted_of_started := nofun
  resting _ := .inl rfl
  ready := nofun
  policy_eq := rfl

/-- The agreement is not affected by what the machine does as it goes on. -/
theorem Coherent.withMachine (h : k.Coherent) {m : Machine} (hm : k.machine.GoesOn m) :
    (k.withMachine m).Coherent where
  booted_iff_running := h.booted_iff_running
  powered_eq := hm.powered_eq.trans h.powered_eq
  booted_of_started := h.booted_of_started ∘ hm.started
  resting := h.resting
  ready hbooted := ⟨hm.initialized (h.ready hbooted).1, (h.ready hbooted).2⟩
  policy_eq := hm.policy_eq.trans h.policy_eq

theorem Coherent.boot (h : k.Coherent) : k.boot.state.Coherent := by
  obtain ⟨-, -, hstate⟩ | ⟨hbooted, -, hstate⟩ | ⟨hbooted, hvalid, -, hstate⟩ := k.boot_cases
  · rw [hstate]
    exact h
  · rw [hstate, Cpu.powerOff, Cpu.state_setPower]
    refine ⟨?_, hbooted.symm, h.booted_of_started, fun _ => .inl rfl, h.ready, h.policy_eq⟩
    simp [hbooted]
  · rw [hstate, Cpu.powerOn, Cpu.state_setPower, Scheduler.state_start]
    obtain ⟨-, hinitialized⟩ := k.machine.memory.reset_of_validate hvalid
    exact ⟨by simp, rfl, fun _ => rfl, nofun, fun _ => ⟨hinitialized, hvalid⟩, h.policy_eq⟩

theorem Coherent.shutdown (h : k.Coherent) : k.shutdown.state.Coherent := by
  obtain ⟨-, hstate⟩ | ⟨-, hstate⟩ := k.shutdown_cases
  · rw [hstate]
    exact h
  · rw [hstate, Cpu.powerOff, Cpu.state_setPower, Scheduler.state_stop]
    exact ⟨by simp, rfl, nofun, fun _ => .inr rfl, nofun, h.policy_eq⟩

theorem Coherent.reconfigure (h : k.Coherent) (config : Config) :
    (k.reconfigure config).state.Coherent := by
  obtain ⟨-, hstate⟩ | ⟨hbooted, hstate⟩ := k.reconfigure_cases config
  · rw [hstate]
    exact h
  · rw [hstate]
    refine ⟨h.booted_iff_running, h.powered_eq, h.booted_of_started, h.resting, ?_, rfl⟩
    intro hb
    rw [hbooted] at hb
    cases hb

/-- A launch is refused or submits a program. -/
theorem Coherent.launch (h : k.Coherent) (bytes : List UInt8) (priority : Priority) :
    (k.launch bytes priority).state.Coherent := by
  rw [Kernel.launch]
  split
  · exact h
  · split
    · exact h
    · exact h.withMachine (Machine.goesOn_withScheduler rfl id)

/-- Every request keeps the agreement. -/
theorem Coherent.after (h : k.Coherent) (request : KernelRequest) :
    (k.after request).Coherent := by
  cases request with
  | boot => exact h.boot
  | shutdown => exact h.shutdown
  | reconfigure config => exact h.reconfigure config
  | launch bytes priority => exact h.launch bytes priority
  | submit program => exact h.withMachine (Machine.goesOn_withScheduler rfl id)
  | tick => exact h.withMachine k.machine.goesOn_tick
  | run maxTicks => exact h.withMachine (k.machine.goesOn_run maxTicks)
  | wake pid => exact h.withMachine (k.machine.goesOn_wake pid)
  | kill pid => exact h.withMachine (k.machine.goesOn_kill pid)
  | requestStop => exact h.withMachine (Machine.goesOn_withScheduler rfl id)
  | memory request =>
      exact h.withMachine ⟨rfl, rfl, id, fun hi => Memory.initialized_after hi request⟩

theorem Coherent.afterAll (h : k.Coherent) (requests : List KernelRequest) :
    (k.afterAll requests).Coherent := by
  induction requests generalizing k with
  | nil => exact h
  | cons request rest ih => exact ih (h.after request)

/-! ## Kernels that are not booted -/

theorem Coherent.not_started (h : k.Coherent) (hbooted : k.booted = false) :
    k.machine.scheduler.started = false := by
  cases hs : k.machine.scheduler.started with
  | false => rfl
  | true =>
      rw [h.booted_of_started hs] at hbooted
      cases hbooted

/-- What is asked of the processes of a kernel that is not booted reaches neither the
processor nor the memory. -/
theorem Coherent.after_of_schedules (h : k.Coherent) (hbooted : k.booted = false)
    {request : KernelRequest} (hr : request.schedules = true) :
    (k.after request).machine.cpu = k.machine.cpu ∧
      (k.after request).machine.memory = k.machine.memory := by
  have hstarted := h.not_started hbooted
  cases request with
  | launch bytes priority => simp [Kernel.after, perform, Kernel.launch, hbooted]
  | tick => exact (Machine.tick_of_not_started hstarted).2
  | run maxTicks => exact (Machine.run_of_not_started hstarted maxTicks).2
  | submit | wake | kill => exact ⟨rfl, rfl⟩
  | boot | shutdown | reconfigure | requestStop | memory => cases hr

/-! ## Boots -/

/-- The kernel counts a request exactly if it is answered as a boot. -/
theorem boots_after (k : Kernel) (request : KernelRequest) :
    (k.after request).boots = k.boots + (k.perform request).result.isBooted.toNat := by
  cases request with
  | boot =>
      obtain ⟨-, hresult, hstate⟩ | ⟨-, ⟨e, hresult⟩, hstate⟩ | ⟨-, -, hresult, hstate⟩ :=
        k.boot_cases
      · simp [after, perform, hresult, hstate, KernelAnswer.isBooted]
      · simp [after, perform, hresult, hstate, KernelAnswer.isBooted]
      · simp [after, perform, hresult, hstate, KernelAnswer.isBooted]
  | shutdown =>
      obtain ⟨-, hstate⟩ | ⟨-, hstate⟩ := k.shutdown_cases
      · simp [after, perform, hstate, KernelAnswer.isBooted]
      · simp [after, perform, hstate, KernelAnswer.isBooted]
  | reconfigure config =>
      obtain ⟨-, hstate⟩ | ⟨-, hstate⟩ := k.reconfigure_cases config
      · simp [after, perform, hstate, KernelAnswer.isBooted]
      · simp [after, perform, hstate, KernelAnswer.isBooted]
  | launch bytes priority =>
      change (k.launch bytes priority).state.boots = k.boots
      rw [launch]
      split
      · rfl
      · split <;> rfl
  | submit | tick | run | wake | kill | requestStop | memory => rfl

theorem boots_afterAll (k : Kernel) (requests : List KernelRequest) :
    (k.afterAll requests).boots = k.boots + (k.answers requests).countP (·.isBooted) := by
  induction requests generalizing k with
  | nil => rfl
  | cons request rest ih =>
      rw [afterAll_cons, ih, boots_after, answers, List.countP_cons]
      cases (k.perform request).result.isBooted with
      | false => rfl
      | true => exact Nat.add_right_comm ..

/-- After any history of requests to a new kernel, the kernel is booted exactly if its
phase is that of a running kernel and exactly if the processor is powered; the scheduler is
started only then, the memory is set up and the configuration is valid. If it is not
booted, its phase says so, ticks are stopped, and nothing that is asked of its processes
reaches the processor or the memory. The policy is the configured one, the boots that
brought the machine up are counted, and no switch touches a process. -/
theorem lifecycle (config : Config) (requests : List KernelRequest) :
    let k := (new config).afterAll requests
    (k.booted = true ↔ k.phase = .running) ∧
    (k.booted = true ↔ k.machine.cpu.powered = true) ∧
    (k.machine.scheduler.started = true → k.booted = true) ∧
    (k.booted = false →
      (k.phase = .notStarted ∨ k.phase = .halted) ∧
      k.tick.result = .stopped ∧ (∀ maxTicks, 1 ≤ maxTicks → (k.run maxTicks).result = .stopped) ∧
      ∀ request : KernelRequest, request.schedules = true →
        (k.after request).machine.cpu = k.machine.cpu ∧
          (k.after request).machine.memory = k.machine.memory) ∧
    (k.booted = true → k.machine.memory.initialized = true ∧ k.config.validate = .ok ()) ∧
    k.machine.scheduler.policy.kind = k.config.policy ∧
    k.boots = ((new config).answers requests).countP (·.isBooted) ∧
    ∀ request : KernelRequest, request.isSwitch = true →
      (k.after request).machine.scheduler.processes = k.machine.scheduler.processes ∧
        (k.after request).machine.scheduler.queues = k.machine.scheduler.queues ∧
        (k.after request).machine.scheduler.nextPid = k.machine.scheduler.nextPid := by
  intro k
  have h : k.Coherent := (coherent_new config).afterAll requests
  refine ⟨h.booted_iff_running, ?_, h.booted_of_started, ?_, h.ready, ?_, ?_, ?_⟩
  · rw [h.powered_eq]
  · intro hbooted
    have hstarted := h.not_started hbooted
    exact ⟨h.resting hbooted, (Machine.tick_of_not_started hstarted).1,
      fun maxTicks => (Machine.run_of_not_started hstarted maxTicks).1,
      fun request hr => h.after_of_schedules hbooted hr⟩
  · rw [h.policy_eq]
    exact PolicyKind.kind_build ..
  · rw [boots_afterAll]
    exact Nat.zero_add _
  · exact fun request hr => processes_after_of_isSwitch hr

/-- A boot that fails, one that succeeds after a reconfiguration, one too many, a stop that
is requested before a run, and a shutdown. -/
theorem lifecycle_of_retried_boot :
    let requests : List KernelRequest :=
      [.submit (.ofList [.loadImm 0 7, .halt]), .boot,
        .reconfigure { baseQuantum := 1, policy := .priorityAging }, .boot, .boot, .tick,
        .requestStop, .run 3, .shutdown]
    let k := (new { baseQuantum := 0 }).afterAll requests
    k.booted = false ∧ (k.phase = .notStarted ∨ k.phase = .halted) ∧
      (k.run 2).result = .stopped ∧
      (k.after (.run 2)).machine.cpu.retiredTotal = 1 ∧
      k.machine.scheduler.policy.kind = .priorityAging ∧
      k.boots = ((new { baseQuantum := 0 }).answers requests).countP (·.isBooted) ∧
      k.boots = 1 := by
  intro requests k
  have hbooted : k.booted = false := by decide
  obtain ⟨-, -, -, hresting, -, hkind, hboots, -⟩ := lifecycle { baseQuantum := 0 } requests
  obtain ⟨hphase, -, hrun, hfrozen⟩ := hresting hbooted
  have hcpu := congrArg Cpu.retiredTotal (hfrozen (.run 2) rfl).1
  exact ⟨hbooted, hphase, hrun 2 (by decide), hcpu.trans (by decide), hkind.trans rfl, hboots,
    by decide⟩

end Kernel

end Timeshare
