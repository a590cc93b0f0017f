import Timeshare.Proofs.Machine.Dispatched
import Timeshare.Proofs.Policy.Aging
import Timeshare.Proofs.Scheduler.Operations
import Timeshare.Proofs.Table

/-!
# Processes that are moved but not run

Most operations of the scheduler move processes between queues and states and leave
alone what only a run changes: the context, the processor time, the number of
dispatches, and how the process ended by itself. `Process.Moved` says this of one
record and `Scheduler.Moved` of a scheduler, in which records may also disappear.
-/

namespace Timeshare

namespace Process

variable {p p' p₁ : Process}

/-- How the process ended by itself, if it did. -/
def exit? (p : Process) : Option Exit :=
  if p.state = .terminated then
    match p.fault with
    | none => some (.ok .halted)
    | some (.cpu e) => some (.error e)
    | some .killed => none
  else none

theorem exit?_of_live (h : p.state ≠ .terminated) : p.exit? = none := if_neg h

theorem exit?_of_halted (h : p.state = .terminated) (hfault : p.fault = none) :
    p.exit? = some (.ok .halted) := by
  rw [exit?, if_pos h, hfault]

/-- A process that ended by itself did not end at the end of a slice or at a wait. -/
theorem stops_of_exit? {exit : Exit} (h : p.exit? = some exit) :
    exit ≠ .ok .sliceExpired ∧ exit ≠ .ok .waiting := by
  rw [exit?] at h
  split at h
  · split at h <;> cases h <;> simp
  · cases h

/-- A later record of a process that was not run in between. -/
structure Moved (p p' : Process) : Prop where
  program_eq : p'.program = p.program
  context_eq : p'.context = p.context
  cpuTime_eq : p'.cpuTime = p.cpuTime
  dispatches_eq : p'.dispatches = p.dispatches
  exit?_eq : p'.exit? = p.exit?
  live : p'.state ≠ .terminated → p.state ≠ .terminated ∧ p'.fault = p.fault

theorem Moved.refl (p : Process) : p.Moved p := ⟨rfl, rfl, rfl, rfl, rfl, fun h => ⟨h, rfl⟩⟩

theorem Moved.trans (h : p.Moved p') (h₁ : p'.Moved p₁) : p.Moved p₁ where
  program_eq := h₁.program_eq.trans h.program_eq
  context_eq := h₁.context_eq.trans h.context_eq
  cpuTime_eq := h₁.cpuTime_eq.trans h.cpuTime_eq
  dispatches_eq := h₁.dispatches_eq.trans h.dispatches_eq
  exit?_eq := h₁.exit?_eq.trans h.exit?_eq
  live := fun hp =>
    have hp' := h₁.live hp
    ⟨(h.live hp'.1).1, hp'.2.trans (h.live hp'.1).2⟩

/-- A process that lives on. -/
theorem moved_of_live (h : p.state ≠ .terminated) (h' : p'.state ≠ .terminated)
    (hprogram : p'.program = p.program) (hcontext : p'.context = p.context)
    (htime : p'.cpuTime = p.cpuTime) (hdispatches : p'.dispatches = p.dispatches)
    (hfault : p'.fault = p.fault) : p.Moved p' := by
  refine ⟨hprogram, hcontext, htime, hdispatches, ?_, fun _ => ⟨h, hfault⟩⟩
  rw [exit?_of_live h, exit?_of_live h']

/-- A process that is terminated by request. -/
theorem moved_killed (h : p.state ≠ .terminated) :
    p.Moved { p with state := .terminated, fault := some .killed } :=
  ⟨rfl, rfl, rfl, rfl, (exit?_of_live h).symm, fun hp => absurd rfl hp⟩

end Process

/-- Every record of the second table is that of a process of the first one that was
not run. -/
def ProcessTable.Moves (t u : ProcessTable) : Prop :=
  ∀ pid p', u.get? pid = some p' → ∃ p, t.get? pid = some p ∧ p.Moved p'

namespace ProcessTable

variable {t u v : ProcessTable} {pid : ProcessId} {p p' : Process}

theorem Moves.refl (t : ProcessTable) : t.Moves t := fun _ p hp => ⟨p, hp, .refl p⟩

theorem Moves.trans (h : t.Moves u) (h₁ : u.Moves v) : t.Moves v := by
  intro pid p₁ hp₁
  obtain ⟨p', hp', hmoved'⟩ := h₁ pid p₁ hp₁
  obtain ⟨p, hp, hmoved⟩ := h pid p' hp'
  exact ⟨p, hp, hmoved.trans hmoved'⟩

theorem moves_insert (hp : t.get? pid = some p) (h : p.Moved p') :
    Moves t (t.insert pid p') :=
  Table.forall_get?_insert (fun _ q hq => ⟨q, hq, .refl q⟩) ⟨p, hp, h⟩

theorem moves_filter (f : ProcessId → Process → Bool) : Moves t (t.filter f) :=
  fun _ p hp => ⟨p, (Table.get?_filter_eq_some_iff.1 hp).1, .refl p⟩

/-- Aging changes nothing but the levels, the waiting times and the expirations. -/
theorem moves_age {policy : Policy} (hpolicy : policy.AgesByRule) (q : ReadyQueues)
    (t : ProcessTable) (now : Nat) : t.Moves (policy.age q t now).processes := by
  intro pid p' hp'
  have hsame := hpolicy.map_get?_age
    (f := fun p => (p.program, p.context, p.cpuTime, p.dispatches, p.state, p.fault))
    (fun _ _ _ => rfl) q t now pid
  rw [hp'] at hsame
  obtain ⟨p, hp, heq⟩ := Option.map_eq_some_iff.1 hsame.symm
  simp only [Prod.mk.injEq] at heq
  obtain ⟨hprogram, hcontext, htime, hdispatches, hstate, hfault⟩ := heq
  refine ⟨p, hp, hprogram.symm, hcontext.symm, htime.symm, hdispatches.symm, ?_, ?_⟩
  · rw [Process.exit?, Process.exit?, hstate, hfault]
  · rw [hstate]
    exact fun h => ⟨h, hfault.symm⟩

end ProcessTable

namespace Scheduler

/-- No process was run, and none was submitted. -/
structure Moved (s s' : Scheduler) : Prop where
  moves : s.processes.Moves s'.processes
  nextPid_eq : s'.nextPid = s.nextPid

variable {s s' s₁ : Scheduler} {pid : ProcessId} {p p' : Process}

theorem Moved.refl (s : Scheduler) : s.Moved s := ⟨.refl _, rfl⟩

theorem Moved.trans (h : s.Moved s') (h₁ : s'.Moved s₁) : s.Moved s₁ :=
  ⟨h.moves.trans h₁.moves, h₁.nextPid_eq.trans h.nextPid_eq⟩

theorem moved_setProcess (hp : s.processes.get? pid = some p) (h : p.Moved p') :
    s.Moved (s.setProcess pid p') :=
  ⟨ProcessTable.moves_insert hp h, rfl⟩

theorem moved_makeReady (hp : s.processes.get? pid = some p) (hw : p.state = .waiting)
    (marked : Bool) : s.Moved (s.makeReady pid { p with killRequested := marked }) := by
  refine ⟨ProcessTable.moves_insert hp (Process.moved_of_live ?_ ?_ rfl rfl rfl rfl rfl), rfl⟩
  · simp [hw]
  · simp

theorem moved_wake (s : Scheduler) (pid : ProcessId) : s.Moved (s.wake pid).state := by
  obtain ⟨-, hstate⟩ | ⟨p, hp, hw, -, hstate⟩ := wake_cases s pid
  · rw [hstate]
    exact .refl s
  · rw [hstate]
    exact moved_makeReady hp hw p.killRequested

theorem moved_kill (s : Scheduler) (pid : ProcessId) : s.Moved (s.kill pid).state := by
  obtain ⟨-, hstate⟩ | ⟨p, hp, hw, -, hstate⟩ | ⟨p, hp, -, hlive, -, hstate⟩ := kill_cases s pid
  · rw [hstate]
    exact .refl s
  · rw [hstate]
    exact moved_makeReady hp hw true
  · rw [hstate]
    exact moved_setProcess hp (Process.moved_of_live hlive hlive rfl rfl rfl rfl rfl)

theorem moved_reap (s : Scheduler) : s.Moved s.reap.state := ⟨ProcessTable.moves_filter _, rfl⟩

theorem moved_start (s : Scheduler) : s.Moved s.start.state := by
  rw [state_start]
  exact ⟨.refl _, rfl⟩

theorem moved_stop (s : Scheduler) : s.Moved s.stop.state := by
  rw [state_stop]
  exact ⟨.refl _, rfl⟩

theorem moved_honourStop (s : Scheduler) : s.Moved s.honourStop.state := by
  rw [state_honourStop]
  exact ⟨.refl _, rfl⟩

theorem moved_beginTick (h : s.policy.AgesByRule) : s.Moved s.beginTick.state :=
  ⟨ProcessTable.moves_age h _ _ _, rfl⟩

/-! ## Dispatches that do not run anything -/

theorem moved_terminateMarked (hp : s.processes.get? pid = some p) (hready : p.state = .ready) :
    s.Moved ((s.take pid).terminateMarked pid { p with state := .running }) := by
  have hlive : p.state ≠ .terminated := by simp [hready]
  exact ⟨ProcessTable.moves_insert hp (Process.moved_killed hlive), rfl⟩

theorem moved_putBack (hp : s.processes.get? pid = some p) (hready : p.state = .ready) :
    s.Moved ((s.take pid).putBack pid { p with state := .running }) := by
  refine ⟨ProcessTable.moves_insert hp (Process.moved_of_live ?_ ?_ rfl rfl rfl rfl rfl), rfl⟩
  · simp [hready]
  · simp

end Scheduler

end Timeshare
