import Mathlib.Algebra.BigOperators.Group.List.Basic
import Mathlib.Algebra.Ring.Int.Defs
import Timeshare.Proofs.Machine.Levels
import Timeshare.Proofs.Scheduler.Calls

/-!
# Demotions and promotions account for the levels

The drift of a process is the number of levels by which it stands below the one at which it was
submitted. A demotion adds one to the drift of one process and a promotion takes one away, so
what the demotions exceed the promotions by is the drift of all processes. A scheduler forgets
the processes that are reaped: the part that its table does not explain is theirs
(`Scheduler.departedDrift_afterCalls`).
-/

namespace Timeshare

/-- How far a process stands below the level of its submission. -/
def Process.drift (p : Process) : Int := p.priority.val - p.basePriority.val

/-- The drift of a process that was observed. -/
def ProcessSnapshot.drift (p : ProcessSnapshot) : Int := p.priority.val - p.basePriority.val

namespace ProcessTable

variable {t u : ProcessTable} {pid : ProcessId} {p q : Process}
  {R : ProcessId → Process → Process → Prop}

/-- The drift of all processes together. -/
def drift (t : ProcessTable) : Int := (t.entries.map (·.2.drift)).sum

theorem sum_drift_snapshots (t : ProcessTable) :
    ((snapshots t).map ProcessSnapshot.drift).sum = t.drift := by
  rw [snapshots, List.map_map]
  rfl

theorem drift_insert (t : ProcessTable) (pid : ProcessId) (p : Process) :
    drift (t.insert pid p) = p.drift + drift (t.erase pid) := by
  have hsum := ((t.entries_insert_perm pid p).map fun e => e.2.drift).sum_eq
  rwa [List.map_cons, List.sum_cons] at hsum

theorem drift_of_get? (h : t.get? pid = some p) : t.drift = p.drift + drift (t.erase pid) := by
  have hsum := ((Table.entries_perm_of_get? h).map fun e => e.2.drift).sum_eq
  rwa [List.map_cons, List.sum_cons] at hsum

theorem drift_insert_of_get? (h : t.get? pid = some p) (q : Process) :
    drift (t.insert pid q) = t.drift + (q.drift - p.drift) := by
  rw [drift_insert, drift_of_get? h]
  omega

theorem drift_insert_of_absent (h : t.get? pid = none) (p : Process) :
    drift (t.insert pid p) = p.drift + t.drift := by
  rw [drift_insert, Table.erase_of_absent h]

theorem drift_filter (t : ProcessTable) (f : ProcessId → Process → Bool) :
    drift (t.filter f) + drift (t.filter fun pid p => !f pid p) = t.drift := by
  have hparts := List.filter_append_perm (fun e : ProcessId × Process => f e.1 e.2) t.entries
  have hsum := (hparts.map fun e => e.2.drift).sum_eq
  rwa [List.map_append, List.sum_append] at hsum

theorem drift_eq_of_related (h : t.Related R u) (hR : ∀ pid p q, R pid p q → q.drift = p.drift) :
    u.drift = t.drift := by
  have hdrift (t : ProcessTable) : t.drift = ((t.map Process.drift).entries.map (·.2)).sum := by
    rw [Table.map, List.map_map]
    rfl
  rw [hdrift, hdrift, h.map_eq hR]

end ProcessTable

open ProcessTable (drift)

/-! ## Promotions -/

namespace Aging

variable {now : Nat} {a : Aged} {p : Process} {entry : Priority × ProcessId}
  {entries : List (Priority × ProcessId)}

theorem drift_promote (hp : a.processes.get? entry.2 = some p) (hlevel : p.priority = entry.1)
    (hne : entry.1 ≠ .highest) (now : Nat) :
    drift (promote now a entry).processes + (promote now a entry).promoted.length =
      drift a.processes + a.promoted.length := by
  have hraised : (raised entry.1.raise now p).drift = p.drift - 1 := by
    have hlower := Priority.val_raise_of_ne_highest hne
    simp only [Process.drift, raised, hlevel]
    omega
  simp only [promote, hp, ProcessTable.drift_insert_of_get? hp, hraised, List.length_append,
    List.length_singleton]
  omega

/-- Every promotion takes one level off the drift of a process. -/
theorem drift_foldl (hnodup : (entries.map (·.2)).Nodup)
    (h : ∀ entry ∈ entries, entry.1 ≠ .highest ∧
      ∃ p, a.processes.get? entry.2 = some p ∧ p.priority = entry.1) :
    drift (entries.foldl (promote now) a).processes +
        (entries.foldl (promote now) a).promoted.length =
      drift a.processes + a.promoted.length := by
  induction entries generalizing a with
  | nil => rfl
  | cons entry rest ih =>
      rw [List.map_cons, List.nodup_cons] at hnodup
      obtain ⟨⟨hne, p, hp, hlevel⟩, hrest⟩ := List.forall_mem_cons.1 h
      rw [List.foldl_cons, ← drift_promote hp hlevel hne now]
      refine ih hnodup.2 fun other hother => ?_
      have hpid : entry.2 ≠ other.2 := fun heq => hnodup.1 (heq ▸ List.mem_map_of_mem hother)
      rw [get?_promote_of_ne hpid]
      exact hrest other hother

end Aging

theorem Policy.AgesByRule.drift_age {policy : Policy} {q : ReadyQueues} {t : ProcessTable}
    (hpolicy : policy.AgesByRule) (h : q.Accounts t) (now : Nat) :
    drift (policy.age q t now).processes + (policy.age q t now).promoted.length = t.drift := by
  obtain hidle | ⟨threshold, hstep⟩ := hpolicy
  · rw [hidle]
    exact Int.add_zero _
  · rw [hstep]
    refine (Aging.drift_foldl (Aging.nodup_starved h threshold now) ?_).trans (Int.add_zero _)
    rintro ⟨level, pid⟩ hentry
    obtain ⟨p, hp, rfl, hstarves⟩ := (Aging.mem_starved_iff h).1 hentry
    exact ⟨hstarves.2.1, p, hp, rfl⟩

/-! ## Demotions -/

namespace Scheduler

variable {s : Scheduler} {pid : ProcessId} {p q : Process}

/-- What the demotions exceed the promotions by, without the drift of the processes in the
table. -/
def departedDrift (s : Scheduler) : Int :=
  s.stats.demotions - s.stats.promotions - drift s.processes

/-- Another record of a process, and the demotions that it takes. -/
theorem departedDrift_of_insert {s' : Scheduler} (hp : s.processes.get? pid = some p)
    (hprocesses : s'.processes = s.processes.insert pid q)
    (hpromotions : s'.stats.promotions = s.stats.promotions)
    (hdemotions : s'.stats.demotions + p.drift = s.stats.demotions + q.drift) :
    s'.departedDrift = s.departedDrift := by
  rw [departedDrift, departedDrift, hprocesses, hpromotions, ProcessTable.drift_insert_of_get? hp]
  omega

theorem departedDrift_beginTick (h : s.Settled) :
    s.beginTick.state.departedDrift = s.departedDrift := by
  have hage := h.agesByRule.drift_age h.accounts (s.clock + 1)
  simp only [departedDrift, beginTick]
  omega

/-- A demotion is counted where the level of a record changes. -/
theorem filedStats_balance (h : s.policy.BuiltIn) (p : Process) (exit : Exit) :
    (s.filedStats p exit).promotions = s.stats.promotions ∧
      (s.filedStats p exit).demotions + p.drift =
        s.stats.demotions + (s.filed p exit).drift := by
  rw [Process.drift, Process.drift, basePriority_filed]
  rcases exit with e | outcome
  · exact ⟨rfl, by simp [filedStats, filed]⟩
  · cases outcome with
    | halted | waiting => exact ⟨rfl, by simp [filedStats, filed]⟩
    | sliceExpired =>
        have hlevel : (s.filed p (.ok .sliceExpired)).priority = p.priority ∨
            (s.filed p (.ok .sliceExpired)).priority.val = p.priority.val + 1 := by
          rw [show (s.filed p (.ok .sliceExpired)).priority = _ from s.priority_afterExpiry p]
          exact h.levelAfterExpiry_cases _
        rw [filedStats]
        split
        next hsame =>
          rw [hsame]
          exact ⟨rfl, by simp⟩
        next hne =>
          refine ⟨rfl, ?_⟩
          have hlower := hlevel.resolve_left hne
          simp only
          omega

end Scheduler

namespace Machine

variable {m m' : Machine} {outcome : TickOutcome}

theorem Dispatched.departedDrift_eq (h : m.Dispatched outcome m')
    (hpolicy : m.scheduler.policy.BuiltIn) :
    m'.scheduler.departedDrift = m.scheduler.departedDrift := by
  cases h with
  | idle | discarded => rfl
  | @killed pid p hchoice hp | @putBack pid p hchoice hp =>
      exact Scheduler.departedDrift_of_insert hp rfl rfl rfl
  | @ran pid p hchoice hp hready hkill hpower =>
      rw [Scheduler.state_settle]
      have htaken : (m.scheduler.take pid).policy.BuiltIn := hpolicy
      obtain ⟨hpromotions, hdemotions⟩ := Scheduler.filedStats_balance htaken
        (p.afterRun (m.slice p).workspace.context) (m.sliceExit p)
      exact Scheduler.departedDrift_of_insert hp rfl hpromotions hdemotions

theorem departedDrift_tick (h : m.scheduler.Settled) (hpolicy : m.scheduler.policy.BuiltIn) :
    m.tick.state.scheduler.departedDrift = m.scheduler.departedDrift := by
  have hhonoured : m.scheduler.honourStop.state.departedDrift = m.scheduler.departedDrift := by
    rw [Scheduler.state_honourStop]
    rfl
  obtain ⟨-, -, hstate⟩ | ⟨-, hd⟩ := ticked_tick m
  · rw [hstate, hhonoured]
  · have hbegun : m.begun.scheduler.policy.BuiltIn := m.policy_begun.symm ▸ hpolicy
    rw [hd.departedDrift_eq hbegun, begun, Scheduler.departedDrift_beginTick h.honourStop,
      hhonoured]

theorem departedDrift_run (h : m.scheduler.Settled) (hpolicy : m.scheduler.policy.BuiltIn)
    (maxTicks : Nat) :
    (m.run maxTicks).state.scheduler.departedDrift = m.scheduler.departedDrift := by
  refine settled_run_induction (m := m)
    (P := fun m' => m'.scheduler.departedDrift = m.scheduler.departedDrift) h ?_ rfl maxTicks
  intro m' hs hsame hdrift
  exact (departedDrift_tick hs (hsame ▸ hpolicy)).trans hdrift

end Machine

/-! ## A history -/

namespace Scheduler

variable {s : Scheduler} {call : Call} {calls : List Call}

theorem departedDrift_reap (s : Scheduler) :
    s.reap.state.departedDrift =
      s.departedDrift + (s.reap.result.map ProcessSnapshot.drift).sum := by
  have hparts : drift (s.processes.filter fun _ p => p.isTerminated) +
      drift (s.processes.filter fun _ p => !p.isTerminated) = drift s.processes :=
    ProcessTable.drift_filter ..
  simp only [reap, departedDrift, ProcessTable.sum_drift_snapshots]
  omega

theorem stats_start (s : Scheduler) : s.start.state.stats = s.stats := by rw [state_start]

theorem stats_stop (s : Scheduler) : s.stop.state.stats = s.stats := by rw [state_stop]

theorem stats_wake (s : Scheduler) (pid : ProcessId) : (s.wake pid).state.stats = s.stats := by
  obtain ⟨-, hstate⟩ | ⟨p, -, -, -, hstate⟩ := wake_cases s pid
  · rw [hstate]
  · rw [hstate]
    rfl

theorem stats_kill (s : Scheduler) (pid : ProcessId) : (s.kill pid).state.stats = s.stats := by
  obtain ⟨-, hstate⟩ | ⟨p, -, -, -, hstate⟩ | ⟨p, -, -, -, -, hstate⟩ := kill_cases s pid
  · rw [hstate]
  · rw [hstate]
    rfl
  · rw [hstate]
    rfl

theorem departedDrift_of_handled {s' : Scheduler} (hstats : s'.stats = s.stats)
    (h : s.processes.Related (fun _ => Process.Handled) s'.processes) :
    s'.departedDrift = s.departedDrift := by
  rw [departedDrift, departedDrift, hstats, ProcessTable.drift_eq_of_related h]
  rintro - p q (_ | _ | _) <;> rfl

theorem departedDrift_submitAt (h : s.Settled) (program : Program) (priority : Priority) :
    (s.submitAt program priority).state.departedDrift = s.departedDrift := by
  have hzero : (Process.submitted program priority s.clock).drift = 0 := Int.sub_self _
  have hdrift := ProcessTable.drift_insert_of_absent h.get?_nextPid
    (.submitted program priority s.clock)
  rw [hzero, Int.zero_add] at hdrift
  exact congrArg (_ - ·) hdrift

/-- Only a reap takes processes with their drift out of the table. -/
theorem departedDrift_afterCall (h : s.Settled) (hpolicy : s.policy.BuiltIn) (call : Call) :
    (s.afterCall call).departedDrift =
      s.departedDrift + ((s.answer call).snapshots.map ProcessSnapshot.drift).sum := by
  have hkept {s' : Scheduler} (hsame : s'.departedDrift = s.departedDrift) :
      s'.departedDrift = s.departedDrift + (List.map ProcessSnapshot.drift []).sum :=
    hsame.trans (Int.add_zero _).symm
  obtain ⟨request, cpu, memory⟩ := call
  cases request with
  | reap => exact s.departedDrift_reap
  | submit program => exact hkept (departedDrift_submitAt h program .normal)
  | submitAt program priority => exact hkept (departedDrift_submitAt h program priority)
  | wake pid => exact hkept (departedDrift_of_handled (s.stats_wake pid) (s.handled_wake pid))
  | kill pid => exact hkept (departedDrift_of_handled (s.stats_kill pid) (h.handled_kill pid))
  | start =>
      have hhandled := handled_of_processes_eq s.processes_start
      exact hkept (departedDrift_of_handled s.stats_start hhandled)
  | stop =>
      have hhandled := handled_of_processes_eq s.processes_stop
      exact hkept (departedDrift_of_handled s.stats_stop hhandled)
  | tick =>
      exact hkept (Machine.departedDrift_tick (m := { scheduler := s, cpu, memory }) h hpolicy)
  | run maxTicks =>
      exact hkept (Machine.departedDrift_run (m := { scheduler := s, cpu, memory }) h hpolicy
        maxTicks)
  | power on | memory request | requestStop | setPolicy policy => exact hkept rfl

/-- What the table does not explain of the demotions and promotions is the drift of those that
were reaped. -/
theorem departedDrift_afterCalls (h : s.Settled) (hpolicy : s.policy.BuiltIn)
    (hcalls : ∀ call ∈ calls, call.Within Policy.BuiltIn) :
    (s.afterCalls calls).departedDrift =
      s.departedDrift + ((s.reaped calls).map ProcessSnapshot.drift).sum := by
  induction calls generalizing s with
  | nil => exact (Int.add_zero _).symm
  | cons call rest ih =>
      obtain ⟨hfirst, hrest⟩ := List.forall_mem_cons.1 hcalls
      have hreaped : s.reaped (call :: rest) =
          (s.answer call).snapshots ++ (s.afterCall call).reaped rest := rfl
      have hnext := ih (h.afterCall (hfirst.agesByRule fun _ => Policy.BuiltIn.agesByRule))
        (policy_afterCall hpolicy hfirst) hrest
      rw [hreaped, List.map_append, List.sum_append, ← Int.add_assoc,
        ← departedDrift_afterCall h hpolicy call]
      exact hnext

end Scheduler

end Timeshare
