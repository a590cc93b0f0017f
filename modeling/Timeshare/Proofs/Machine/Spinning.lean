import Timeshare.Proofs.Machine.WorkConserving
import Timeshare.Proofs.Scheduler.Feedback

/-!
# A process that never stops

A program spins if it uses up every budget that it is given (`Program.Spins`). While no other
process is ready, a policy that keeps the levels dispatches a spinning process at every tick,
and every one of its slices expires (`Machine.Spinning.tick`). So nothing bounds the number of
expired slices in a row: it is the number of ticks of the run
(`Machine.Spinning.expiredSlices_ticking`).
-/

namespace Timeshare

namespace Program

variable {p : Program} {w : Workspace}

/-- The program uses up every budget. -/
def Spins (p : Program) (w : Workspace) : Prop :=
  ∀ budget, (p.resume budget w).1 = .ok .sliceExpired

/-- A program that spins still spins after a slice. -/
theorem Spins.resume (h : p.Spins w) (budget : Nat) : p.Spins (p.resume budget w).2 := by
  intro more
  have hfirst : p.resume budget w = (.ok .sliceExpired, (p.resume budget w).2) :=
    Prod.ext (h budget) rfl
  rw [← resume_add_of_expired more hfirst]
  exact h (budget + more)

theorem runFor_jump_zero (hip : w.context.ip = 0) (budget : Nat) :
    ((ofList [.jump 0]).runFor budget w).1 = .ok .sliceExpired := by
  induction budget generalizing w with
  | zero => rfl
  | succ budget ih =>
      have hstep : (ofList [.jump 0]).step w =
          .next { w with context := w.context.advance 0 } := by
        rw [step, hip]
        rfl
      rw [runFor_succ_of_next hstep]
      exact ih rfl

/-- The shortest program that spins is a jump to itself. -/
theorem spins_jump_zero (memory : Memory) : (ofList [.jump 0]).Spins ⟨{}, memory⟩ :=
  fun budget => runFor_jump_zero rfl budget

end Program

@[simp] theorem Scheduler.killRequested_filed (s : Scheduler) (p : Process) (exit : Exit) :
    (s.filed p exit).killRequested = p.killRequested := by
  obtain ⟨level, expirations, readySince, state, fault, h⟩ := s.exists_filed p exit
  rw [h]

namespace Machine

variable {m : Machine} {pid : ProcessId} {p : Process}

/-- The process spins and is the only one that is ready, and nothing stops the scheduler, ends
the process or moves it to another level. -/
structure Spinning (m : Machine) (pid : ProcessId) : Prop where
  settled : m.scheduler.Settled
  keepsLevels : m.scheduler.policy.KeepsLevels
  started : m.scheduler.started = true
  noStop : m.scheduler.stopRequested = false
  powered : m.cpu.powered = true
  alone : ∀ other p, m.scheduler.processes.get? other = some p → p.state = .ready → other = pid
  spins : ∃ p, m.scheduler.processes.get? pid = some p ∧ p.state = .ready ∧
    p.killRequested = false ∧ p.program.Spins ⟨p.context, m.memory⟩

namespace Spinning

/-- The policy has no other process to choose. -/
theorem choice?_begun (h : m.Spinning pid) : m.begun.scheduler.choice? = some pid := by
  obtain ⟨p, hp, hready, -⟩ := h.spins
  have hs := settled_begun h.settled
  have hpolicy := builtIn_begun h.keepsLevels.builtIn
  have hbegun := (begun_of_idle h.keepsLevels.age_eq).2
  obtain ⟨other, hchoice⟩ := hs.exists_choice? hpolicy (hbegun ▸ hp) hready
  obtain ⟨q, hq, hready'⟩ := hs.ready_of_choice? hpolicy hchoice
  rw [hchoice, h.alone other q (hbegun ▸ hq) hready']

theorem started_begun (h : m.Spinning pid) : m.begun.scheduler.started = true := by
  rw [begun, Scheduler.state_honourStop, h.started, h.noStop]
  rfl

theorem tick_ne_stopped (h : m.Spinning pid) : m.tick.result ≠ .stopped := by
  obtain ⟨hstopped, -, -⟩ | ⟨-, hd⟩ := ticked_tick m
  · rw [show m.scheduler.honourStop.state.started = true from h.started_begun] at hstopped
    cases hstopped
  · generalize m.tick.result = outcome, m.tick.state = m' at hd
    cases hd <;> simp

/-- A tick dispatches the process, and its slice expires. -/
theorem exists_expired (h : m.Spinning pid) : ∃ p,
    m.begun.scheduler.processes.get? pid = some p ∧ p.killRequested = false ∧
      p.program.Spins (m.begun.slice p).workspace ∧
      (∃ retired, m.tick.result = .ran pid retired .ready) ∧
      m.tick.state =
        { scheduler := ((m.begun.scheduler.take pid).settle pid
            (p.afterRun (m.begun.slice p).workspace.context) (.ok .sliceExpired)).state
          cpu := (m.begun.slice p).cpu
          memory := (m.begun.slice p).workspace.memory } := by
  obtain ⟨p, hp, hready, hkill, hspins⟩ := h.spins
  have hp' : m.begun.scheduler.processes.get? pid = some p := by
    rw [(begun_of_idle h.keepsLevels.age_eq).2]
    exact hp
  have hpower : m.begun.cpu.powered = true := h.powered
  have hexit : m.begun.sliceExit p = .ok .sliceExpired :=
    (sliceExit_eq hpower p).trans (hspins _)
  obtain ⟨hresult, hstate⟩ := dispatch_of_powered hp' hready hkill hpower
  obtain ⟨outcome, houtcome, htick⟩ :=
    exists_dispatch_of_choice? h.settled h.keepsLevels.builtIn h.choice?_begun
  obtain ⟨htick, htick'⟩ := htick h.tick_ne_stopped
  rw [hresult] at houtcome
  rw [hexit] at houtcome hstate
  refine ⟨p, hp', hkill, ?_, ⟨_, htick.trans (Except.ok.inj houtcome).symm⟩, htick'.trans hstate⟩
  rw [workspace_slice hpower]
  exact hspins.resume _

/-- A tick makes no other process ready. -/
theorem alone_tick (h : m.Spinning pid) (other : ProcessId) (q : Process)
    (hq : m.tick.state.scheduler.processes.get? other = some q) (hready : q.state = .ready) :
    other = pid := by
  obtain ⟨p, hp, hticked⟩ := (ticked_get? h.settled).exists_of_get? hq
  by_contra hne
  have hnot : p.state ≠ .ready := fun hready => hne (h.alone other p hp hready)
  rw [(hticked.eq_of_not_ready hnot).1] at hready
  exact hnot hready

/-- After the tick the process goes on spinning. -/
theorem tick (h : m.Spinning pid) : m.tick.state.Spinning pid := by
  have hkeeps : m.tick.state.scheduler.policy.KeepsLevels := m.policy_tick.symm ▸ h.keepsLevels
  obtain ⟨p, hp, hkill, hspins, -, hstate⟩ := h.exists_expired
  have hpower : m.begun.cpu.powered = true := h.powered
  refine ⟨settled_tick m h.settled, hkeeps, ?_, ?_, ?_, h.alone_tick, ?_⟩
  · rw [hstate, Scheduler.state_settle]
    exact h.started_begun
  · rw [hstate, Scheduler.state_settle]
    show m.begun.scheduler.stopRequested = false
    rw [begun, Scheduler.state_honourStop]
    rfl
  · rw [hstate, cpu_slice hpower]
    exact hpower
  · rw [hstate, Scheduler.state_settle]
    refine ⟨_, Table.get?_insert_self .., rfl, ?_, ?_⟩
    · rw [Scheduler.killRequested_filed]
      exact hkill
    · rw [Scheduler.program_filed, Scheduler.context_filed]
      exact hspins

/-- Every slice of the process expires, at the level that it has. -/
theorem countAfter_eq (h : m.Spinning pid) (n : Nat) : m.countAfter pid n = n + 1 := by
  obtain ⟨p, hp, -⟩ := h.spins
  obtain ⟨q, hq, hlevel⟩ := (priority_tick h.settled h.keepsLevels).exists_get? hp
  have hdispatch : m.atDispatch.processes.get? pid = some p := by
    rw [processes_atDispatch h.keepsLevels.age_eq]
    exact hp
  obtain ⟨-, -, -, -, ⟨retired, hresult⟩, -⟩ := h.exists_expired
  have hsame : q.priority = p.priority := hlevel
  rw [countAfter_of_get? hdispatch hq, countAtDispatch_of_get? hp hdispatch, hresult, hsame]
  simp [TickOutcome.leaves]

theorem run (h : m.Spinning pid) (n : Nat) : (m.run n).state.Spinning pid :=
  run_induction (P := fun m' => m'.Spinning pid) (fun _ hs => hs.tick) h n

/-- The slices that expired in a row are as many as the ticks of the run. -/
theorem expiredSlices_ticking (h : m.Spinning pid) (n : Nat) :
    expiredSlices (m.ticking n) pid = n := by
  have hrun := ticking_induction (m := m)
    (P := fun ticked m' => m'.Spinning pid ∧ expiredSlices ticked pid = ticked.length ∧
      ∀ m' ∈ ticked, m'.tick.result.exit? = none) ?_ [] ⟨h, rfl, List.forall_mem_nil _⟩ n
  · obtain ⟨-, hcount, hall⟩ := hrun
    obtain ⟨last, hmem, hexit, -⟩ | ⟨-, hlength, -⟩ := m.run_cases n
    · rw [hall last hmem] at hexit
      cases hexit
    · exact hcount.trans hlength
  · rintro ticked m' ⟨hs, hcount, hall⟩
    obtain ⟨-, -, -, -, ⟨retired, hresult⟩, -⟩ := hs.exists_expired
    refine ⟨hs.tick, ?_, List.forall_mem_append.2 ⟨hall, List.forall_mem_singleton.2 ?_⟩⟩
    · rw [expiredSlices_concat, hs.countAfter_eq, hcount, List.length_append]
      rfl
    · rw [hresult]
      rfl

end Spinning

end Machine

end Timeshare
