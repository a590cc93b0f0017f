import Mathlib.Algebra.Order.Floor.Div
import Timeshare.Proofs.Kernel.Lifecycle

/-!
# Boots

A boot validates the configuration before it touches anything, and a memory can be set up with
any configuration that is valid. So a boot either fails at once and leaves the machine as it was
(`Kernel.Coherent.state_boot_of_error`), or goes through to the end (`Kernel.state_boot_of_ok`).
Until it is reconfigured, a kernel whose configuration is not valid fails every boot in the same
way (`Kernel.result_boot_afterAll_of_error`).
-/

namespace Timeshare

theorem pagesFor_eq_ceilDiv (bytes : Nat) : pagesFor bytes = bytes ⌈/⌉ pageSize :=
  (Nat.ceilDiv_eq_add_pred_div bytes pageSize).symm

/-- With the numbers of a valid configuration the memory is set up anew and empty. -/
theorem Memory.state_reset_of_validate {config : Config} (h : config.validate = .ok ())
    (m : Memory) :
    let pages := config.memorySize ⌈/⌉ pageSize
    (m.reset config.memorySize config.residentPages).state =
      { initialized := true
        totalPages := pages
        capacity := config.residentPages.elim pages (min · pages) } := by
  obtain ⟨hsize, hframes, -⟩ := config.validate_eq_ok_iff.1 h
  rw [reset, if_neg hsize, if_neg hframes, ← pagesFor_eq_ceilDiv]

namespace Kernel

variable {k : Kernel} {e : ConfigError}

/-! ## One boot -/

theorem result_boot_of_error (hbooted : k.booted = false) (he : k.config.validate = .error e) :
    k.boot.result = .error (.boot .config (.config e)) := by
  simp [boot, bringUp, hbooted, he]

/-- The processor of a kernel that is not booted is off, so there is nothing to undo. -/
theorem Coherent.state_boot_of_error (h : k.Coherent) (hbooted : k.booted = false)
    (he : k.config.validate = .error e) : k.boot.state = { k with phase := .notStarted } := by
  obtain ⟨hb, -⟩ | ⟨-, -, hstate⟩ | ⟨-, hvalid, -⟩ := k.boot_cases
  · rw [hbooted] at hb
    cases hb
  · have hpower : k.machine.cpu.powerOff.state = k.machine.cpu := by
      rw [Cpu.powerOff, Cpu.state_setPower, ← hbooted, ← h.powered_eq]
    rw [hstate, hpower]
  · rw [he] at hvalid
    cases hvalid

theorem state_boot_of_ok (hbooted : k.booted = false) (hvalid : k.config.validate = .ok ()) :
    k.boot.result = .ok .booted ∧
      k.boot.state =
        { k with
          phase := .running
          booted := true
          boots := k.boots + 1
          machine :=
            { scheduler := k.machine.scheduler.start.state
              cpu := k.machine.cpu.powerOn.state
              memory :=
                (k.machine.memory.reset k.config.memorySize k.config.residentPages).state } } := by
  obtain ⟨hb, -⟩ | ⟨-, ⟨e, he⟩, -⟩ | ⟨-, -, hresult, hstate⟩ := k.boot_cases
  · rw [hbooted] at hb
    cases hb
  · obtain ⟨hreset, -⟩ := k.machine.memory.reset_of_validate hvalid
    simp [boot, bringUp, hbooted, hvalid, hreset] at he
  · exact ⟨hresult, hstate⟩

theorem result_boot_eq_booted_iff (hbooted : k.booted = false) :
    k.boot.result = .ok .booted ↔ k.config.validate = .ok () := by
  refine ⟨fun hresult => ?_, fun hvalid => (state_boot_of_ok hbooted hvalid).1⟩
  cases hvalid : k.config.validate with
  | error e =>
      rw [result_boot_of_error hbooted hvalid] at hresult
      cases hresult
  | ok _ => rfl

/-! ## Boots that are tried again -/

/-- A kernel with a configuration that is not valid stays down until it is reconfigured. -/
theorem after_of_error (hbooted : k.booted = false) (he : k.config.validate = .error e)
    {request : KernelRequest} (hrequest : ∀ config, request ≠ .reconfigure config) :
    (k.after request).booted = false ∧ (k.after request).config = k.config := by
  cases request with
  | boot =>
      obtain ⟨-, -, hstate⟩ | ⟨-, -, hstate⟩ | ⟨-, hvalid, -⟩ := k.boot_cases
      · simp [after, perform, hstate, hbooted]
      · simp [after, perform, hstate, hbooted]
      · rw [he] at hvalid
        cases hvalid
  | shutdown =>
      obtain ⟨-, hstate⟩ | ⟨hb, -⟩ := k.shutdown_cases
      · simp [after, perform, hstate, hbooted]
      · rw [hbooted] at hb
        cases hb
  | reconfigure config => exact absurd rfl (hrequest config)
  | launch bytes priority =>
      simp [after, perform, launch, hbooted]
  | submit | tick | run | wake | kill | requestStop | memory => exact ⟨hbooted, rfl⟩

theorem result_boot_afterAll_of_error (hbooted : k.booted = false)
    (he : k.config.validate = .error e) {requests : List KernelRequest}
    (hrequests : ∀ config, .reconfigure config ∉ requests) :
    (k.afterAll requests).boot.result = .error (.boot .config (.config e)) := by
  induction requests generalizing k with
  | nil => exact result_boot_of_error hbooted he
  | cons request rest ih =>
      have hfirst : ∀ config, request ≠ .reconfigure config := by
        rintro config rfl
        exact hrequests config List.mem_cons_self
      obtain ⟨hdown, hconfig⟩ := after_of_error hbooted he hfirst
      refine ih hdown ?_ fun config hmem => hrequests config (List.mem_cons_of_mem _ hmem)
      rw [hconfig, he]

/-- Once it is reconfigured with a valid configuration, a kernel boots. -/
theorem boot_reconfigure_of_ok (hbooted : k.booted = false) {config : Config}
    (hvalid : config.validate = .ok ()) :
    (k.reconfigure config).result = .ok () ∧
      (k.reconfigure config).state.boot.result = .ok .booted := by
  refine ⟨by simp [reconfigure, hbooted], ?_⟩
  obtain ⟨hb, -⟩ | ⟨-, hstate⟩ := k.reconfigure_cases config
  · rw [hbooted] at hb
    cases hb
  · refine (result_boot_eq_booted_iff ?_).2 ?_
    · rw [hstate]
      exact hbooted
    · rw [hstate]
      exact hvalid

/-- After any history of requests to a new kernel, a boot is all or nothing. On a booted kernel
it changes nothing. On any other it succeeds exactly if the configuration is valid: then the
memory is set up anew and empty, a pending stop is forgotten, and the processes, queues and
statistics are those of before. Otherwise it fails as the validation does, never at the memory,
and leaves everything as it was and the machine down. Without a reconfiguration every later boot
fails in the same way, and with one to a valid configuration it succeeds. -/
theorem boot_is_all_or_nothing (config : Config) (requests : List KernelRequest) :
    let k := (new config).afterAll requests
    (k.booted = true → k.boot.result = .ok .alreadyBooted ∧ k.boot.state = k) ∧
    (k.booted = false →
      (k.boot.result = .ok .booted ↔ k.config.validate = .ok ()) ∧
      (∀ cause, k.boot.result ≠ .error (.boot .memoryInit cause)) ∧
      (k.config.validate = .ok () →
        let pages := k.config.memorySize ⌈/⌉ 4096
        k.boot.state =
          { k with
            phase := .running
            booted := true
            boots := k.boots + 1
            machine :=
              { scheduler := { k.machine.scheduler with started := true, stopRequested := false }
                cpu := { k.machine.cpu with powered := true }
                memory :=
                  { initialized := true
                    totalPages := pages
                    capacity := k.config.residentPages.elim pages (min · pages)
                    pages := {}
                    clock := 0, evictions := 0, writebacks := 0, faults := 0 } } }) ∧
      ∀ e, k.config.validate = .error e →
        let failed := k.boot.state
        k.boot.result = .error (.boot .config (.config e)) ∧
        failed = { k with phase := .notStarted } ∧
        failed.machine.cpu.powered = false ∧ failed.machine.scheduler.started = false ∧
        (∀ later : List KernelRequest, (∀ config, .reconfigure config ∉ later) →
          (failed.afterAll later).boot.result = .error (.boot .config (.config e))) ∧
        ∀ config : Config, config.validate = .ok () →
          (failed.reconfigure config).result = .ok () ∧
            (failed.reconfigure config).state.boot.result = .ok .booted) := by
  intro k
  have h : k.Coherent := (coherent_new config).afterAll requests
  refine ⟨fun hbooted => ?_, fun hbooted => ⟨result_boot_eq_booted_iff hbooted, ?_, ?_, ?_⟩⟩
  · obtain ⟨-, hresult, hstate⟩ | ⟨hb, -⟩ | ⟨hb, -⟩ := k.boot_cases
    · exact ⟨hresult, hstate⟩
    all_goals
      rw [hbooted] at hb
      cases hb
  · intro cause hresult
    cases hvalid : k.config.validate with
    | error e =>
        rw [result_boot_of_error hbooted hvalid] at hresult
        cases hresult
    | ok _ =>
        rw [(state_boot_of_ok hbooted hvalid).1] at hresult
        cases hresult
  · intro hvalid pages
    rw [(state_boot_of_ok hbooted hvalid).2, Scheduler.state_start, Cpu.powerOn,
      Cpu.state_setPower, Memory.state_reset_of_validate hvalid]
    rfl
  · intro e he failed
    have hfailed : failed = { k with phase := .notStarted } := h.state_boot_of_error hbooted he
    have hdown : failed.booted = false := by rw [hfailed, hbooted]
    have hinvalid : failed.config.validate = .error e := by rw [hfailed, he]
    have hcoherent : failed.Coherent := h.boot
    exact ⟨result_boot_of_error hbooted he, hfailed, hcoherent.powered_eq.trans hdown,
      hcoherent.not_started hdown, fun later => result_boot_afterAll_of_error hdown hinvalid,
      fun config => boot_reconfigure_of_ok hdown⟩

/-- A process is submitted and a stop requested while the kernel is up; it is taken down and
configured without a resident page. The boot fails, so does the next one, and after one more
reconfiguration the kernel boots with the process it had. -/
theorem boot_is_all_or_nothing_of_lost_frames :
    let requests : List KernelRequest :=
      [.boot, .memory (.allocate 3 16), .launch [] .normal, .tick, .requestStop, .shutdown,
        .reconfigure { residentPages := some 0 }]
    let k := (new {}).afterAll requests
    let again := (k.boot.state.afterAll [.submit (.ofList [.halt]), .boot]).boot
    let config : Config := { memorySize := 4097, residentPages := some 7 }
    let retried := (k.boot.state.reconfigure config).state.boot
    k.boot.result = .error (.boot .config (.config .zeroResidentPages)) ∧
      k.boot.state.machine.memory.clock = 1 ∧
      again.result = .error (.boot .config (.config .zeroResidentPages)) ∧
      retried.result = .ok .booted ∧ retried.state.machine.memory.capacity = 2 ∧
      retried.state.machine.scheduler.processes.keys = [1] := by
  intro requests k again config retried
  have hbooted : k.booted = false := by decide +kernel
  have he : k.config.validate = .error .zeroResidentPages := by decide +kernel
  obtain ⟨-, -, -, hfails⟩ := (boot_is_all_or_nothing {} requests).2 hbooted
  obtain ⟨hresult, hstate, -, -, hagain, hreconfigured⟩ := hfails _ he
  refine ⟨hresult, ?_, hagain _ (by simp), (hreconfigured config (by decide)).2,
    by decide +kernel, by decide +kernel⟩
  rw [hstate]
  decide +kernel

end Kernel

end Timeshare
