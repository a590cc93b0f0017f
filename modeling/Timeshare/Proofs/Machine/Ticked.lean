import Timeshare.Proofs.Machine.Steps
import Timeshare.Proofs.Policy.Starved

/-!
# What a tick makes of one record

When a tick begins, a ready process may be raised (`Process.Raised`). Then at most one
process is chosen and dispatched, and `Process.Dispatched` lists what becomes of its record,
together with the outcome that the tick has. So `Process.Ticked` describes the record of any
process after a tick, and `Machine.ticked_get?` says that no process comes or goes. The same
holds of a run of ticks, with the list of their outcomes (`Machine.tickedAll_run`).
-/

namespace Timeshare

/-! ## One record -/

namespace Process

variable {pid : ProcessId} {p q r : Process} {outcome : TickOutcome}
  {outcomes : List TickOutcome}

/-- The record after a tick has begun. -/
inductive Raised (p : Process) : Process → Prop
  | kept : Raised p p
  | raised (hready : p.state = .ready) (level : Priority) (now : Nat) :
      Raised p (Aging.raised level now p)

/-- The record after it was chosen by a tick. -/
inductive Dispatched (pid : ProcessId) (p : Process) : TickOutcome → Process → Prop
  | killed (hready : p.state = .ready) (hkill : p.killRequested = true) :
      Dispatched pid p (.ran pid 0 .terminated)
        { p with state := .terminated, fault := some .killed }
  | putBack (hready : p.state = .ready) (hkill : p.killRequested = false) :
      Dispatched pid p (.cpuUnavailable pid) p
  | ran (hready : p.state = .ready) (hkill : p.killRequested = false) (s : Scheduler)
      (memory : Memory) (slice retired : Nat) (state : ProcessState) :
      Dispatched pid p (.ran pid retired state)
        (s.filed (p.afterRun (p.program.resume slice ⟨p.context, memory⟩).2.context)
          (p.program.resume slice ⟨p.context, memory⟩).1)

/-- The record after a tick with the given outcome. -/
inductive Ticked (pid : ProcessId) (outcome : TickOutcome) (p : Process) : Process → Prop
  | passed {q : Process} (h : p.Raised q) (hpassed : outcome.chosen? ≠ some pid) :
      Ticked pid outcome p q
  | chosen {q r : Process} (h : p.Raised q) (hd : q.Dispatched pid outcome r) :
      Ticked pid outcome p r

/-- The record after ticks with the given outcomes. -/
inductive TickedAll (pid : ProcessId) (p : Process) : List TickOutcome → Process → Prop
  | nil : TickedAll pid p [] p
  | snoc {outcomes : List TickOutcome} {outcome : TickOutcome} {q r : Process}
      (h : TickedAll pid p outcomes q) (ht : q.Ticked pid outcome r) :
      TickedAll pid p (outcomes ++ [outcome]) r

theorem Raised.state_eq (h : p.Raised q) : q.state = p.state := by
  cases h <;> rfl

theorem Raised.eq_of_not_ready (h : p.Raised q) (hready : p.state ≠ .ready) : q = p := by
  cases h with
  | kept => rfl
  | raised h => exact absurd h hready

theorem Dispatched.ready (h : p.Dispatched pid outcome q) : p.state = .ready := by
  cases h <;> assumption

/-- A tick leaves a process that is not ready alone. -/
theorem Ticked.eq_of_not_ready (h : p.Ticked pid outcome q) (hready : p.state ≠ .ready) :
    q = p ∧ outcome.chosen? ≠ some pid := by
  cases h with
  | passed hraised hpassed => exact ⟨hraised.eq_of_not_ready hready, hpassed⟩
  | chosen hraised hd => exact absurd (hraised.state_eq.symm.trans hd.ready) hready

theorem TickedAll.eq_of_not_ready (h : p.TickedAll pid outcomes q) (hready : p.state ≠ .ready) :
    q = p := by
  induction h with
  | nil => rfl
  | snoc hfirst hlast ih =>
      subst ih
      exact (hlast.eq_of_not_ready hready).1

end Process

/-! ## All records -/

theorem Scheduler.Settled.raised_beginTick {s : Scheduler} (h : s.Settled) :
    s.processes.Related (fun _ => Process.Raised) s.beginTick.state.processes := by
  obtain hidle | ⟨threshold, hstep⟩ := h.agesByRule
  · simp only [Scheduler.beginTick, hidle]
    exact .refl (fun _ _ => .kept) s.processes
  · intro pid
    simp only [Scheduler.beginTick, hstep]
    rw [Aging.get?_step h.accounts]
    cases s.processes.get? pid with
    | none => exact .inl ⟨rfl, rfl⟩
    | some p =>
        refine .inr ⟨p, _, rfl, rfl, ?_⟩
        rw [Aging.aged]
        split
        next hstarves => exact .raised hstarves.1 _ _
        next => exact .kept

namespace Machine

variable {m m' : Machine} {pid : ProcessId} {outcome : TickOutcome}

/-- A dispatch changes the record of the chosen process and no other. -/
theorem Dispatched.get? (h : m.Dispatched outcome m') (pid : ProcessId) :
    (outcome.chosen? ≠ some pid ∧
      m'.scheduler.processes.get? pid = m.scheduler.processes.get? pid) ∨
    ∃ p q, m.scheduler.processes.get? pid = some p ∧
      m'.scheduler.processes.get? pid = some q ∧ p.Dispatched pid outcome q := by
  cases h with
  | idle | discarded => exact .inl ⟨by simp [TickOutcome.chosen?], rfl⟩
  | @killed chosen p hchoice hp hready hkill =>
      by_cases hpid : chosen = pid
      · subst hpid
        exact .inr ⟨p, _, hp, Table.get?_insert_self .., .killed hready hkill⟩
      · refine .inl ⟨by simp [TickOutcome.chosen?, hpid], Table.get?_insert_of_ne _ hpid _⟩
  | @putBack chosen p hchoice hp hready hkill hpower =>
      by_cases hpid : chosen = pid
      · subst hpid
        have hback : ({ p with state := .ready } : Process) = p := by rw [← hready]
        refine .inr ⟨p, p, hp, ?_, .putBack hready hkill⟩
        exact (Table.get?_insert_self ..).trans (congrArg some hback)
      · exact .inl ⟨by simp [TickOutcome.chosen?, hpid], Table.get?_insert_of_ne _ hpid _⟩
  | @ran chosen p hchoice hp hready hkill hpower =>
      rw [Scheduler.state_settle]
      by_cases hpid : chosen = pid
      · subst hpid
        refine .inr ⟨p, _, hp, Table.get?_insert_self .., ?_⟩
        rw [sliceExit_eq hpower, workspace_slice hpower]
        exact .ran hready hkill ..
      · exact .inl ⟨by simp [TickOutcome.chosen?, hpid], Table.get?_insert_of_ne _ hpid _⟩

theorem begun_get? (h : m.scheduler.Settled) :
    m.scheduler.processes.Related (fun _ => Process.Raised) m.begun.scheduler.processes := by
  have hraised := h.honourStop.raised_beginTick
  rwa [Scheduler.processes_honourStop] at hraised

/-- A tick changes the records as described, and no process comes or goes. -/
theorem ticked_get? (h : m.scheduler.Settled) :
    m.scheduler.processes.Related (fun pid => Process.Ticked pid m.tick.result)
      m.tick.state.scheduler.processes := by
  obtain ⟨-, hresult, hstate⟩ | ⟨-, hd⟩ := ticked_tick m
  · rw [hresult, hstate, Scheduler.state_honourStop]
    exact .refl (fun _ _ => .passed .kept (by simp [TickOutcome.chosen?])) _
  · intro pid
    obtain ⟨hpassed, hsame⟩ | ⟨q, r, hq, hr, hqr⟩ := hd.get? pid
    · rw [hsame]
      refine (begun_get? h pid).imp_right ?_
      rintro ⟨p, q, hp, hq, hpq⟩
      exact ⟨p, q, hp, hq, .passed hpq hpassed⟩
    · obtain ⟨p, hp, hpq⟩ := (begun_get? h).exists_of_get? hq
      exact .inr ⟨p, r, hp, hr, .chosen hpq hqr⟩

theorem exists_of_chosen (h : m.scheduler.Settled) (hchosen : m.tick.result.chosen? = some pid) :
    ∃ p, m.scheduler.processes.get? pid = some p := by
  obtain ⟨-, hresult, -⟩ | ⟨-, hd⟩ := ticked_tick m
  · rw [hresult] at hchosen
    cases hchosen
  · obtain ⟨hpassed, -⟩ | ⟨q, r, hq, -, hqr⟩ := hd.get? pid
    · exact absurd hchosen hpassed
    · obtain ⟨p, hp, hpq⟩ := (begun_get? h).exists_of_get? hq
      exact ⟨p, hp⟩

/-- Ticks give no numbers away. -/
theorem nextPid_tick (m : Machine) : m.tick.state.scheduler.nextPid = m.scheduler.nextPid := by
  have hhonoured : m.scheduler.honourStop.state.nextPid = m.scheduler.nextPid := by
    rw [Scheduler.state_honourStop]
  obtain ⟨-, -, hstate⟩ | ⟨-, hd⟩ := ticked_tick m
  · rw [hstate]
    exact hhonoured
  · generalize m.tick.state = m', m.tick.result = outcome at hd
    cases hd with
    | ran =>
        rw [Scheduler.state_settle]
        exact hhonoured
    | _ => exact hhonoured

theorem nextPid_run (m : Machine) (maxTicks : Nat) :
    (m.run maxTicks).state.scheduler.nextPid = m.scheduler.nextPid :=
  run_induction (P := fun m' => m'.scheduler.nextPid = m.scheduler.nextPid)
    (fun m' h => m'.nextPid_tick.trans h) rfl maxTicks

/-- The machines that tick in a run. -/
def ticking : Nat → Machine → List Machine
  | 0, _ => []
  | maxTicks + 1, m =>
    m ::
      match m.tick.result.exit? with
      | some _ => []
      | none => ticking maxTicks m.tick.state

theorem runOutcomes_eq (maxTicks : Nat) (m : Machine) :
    m.runOutcomes maxTicks = (m.ticking maxTicks).map (·.tick.result) := by
  induction maxTicks generalizing m with
  | zero => rfl
  | succ n ih =>
      rw [runOutcomes, ticking, List.map_cons]
      cases m.tick.result.exit? with
      | some exit => rfl
      | none => exact congrArg _ (ih m.tick.state)

/-- What a tick preserves and adds its machine to is preserved by a run of ticks. -/
theorem ticking_induction {P : List Machine → Machine → Prop}
    (htick : ∀ ticked m, P ticked m → P (ticked ++ [m]) m.tick.state)
    (ticked : List Machine) (h : P ticked m) (maxTicks : Nat) :
    P (ticked ++ m.ticking maxTicks) (m.run maxTicks).state := by
  rw [run]
  generalize #[] = events
  induction maxTicks generalizing m ticked events with
  | zero =>
      rw [ticking, List.append_nil]
      exact h
  | succ n ih =>
      have hnext := htick ticked m h
      rw [ticking, List.append_cons]
      cases hexit : m.tick.result.exit? with
      | some exit =>
          rw [runAfter_succ_of_exit hexit, List.append_nil]
          exact hnext
      | none =>
          rw [runAfter_succ_of_ran hexit]
          exact ih _ hnext _

/-- A run of ticks keeps the policy and leaves the scheduler settled, so a tick may use both. -/
theorem settled_run_induction {P : Machine → Prop} (h : m.scheduler.Settled)
    (htick : ∀ m', m'.scheduler.Settled → m'.scheduler.policy = m.scheduler.policy → P m' →
      P m'.tick.state) (hm : P m) (maxTicks : Nat) : P (m.run maxTicks).state := by
  have hrun := run_induction (m := m)
    (P := fun m' => m'.scheduler.Settled ∧ m'.scheduler.policy = m.scheduler.policy ∧ P m') ?_
    ⟨h, rfl, hm⟩ maxTicks
  · exact hrun.2.2
  · rintro m' ⟨hs, hpolicy, hm'⟩
    exact ⟨settled_tick m' hs, m'.policy_tick.trans hpolicy, htick m' hs hpolicy hm'⟩

/-- What a tick preserves and adds its outcome to is preserved by a run of ticks. -/
theorem runOutcomes_induction {P : List TickOutcome → Machine → Prop}
    (htick : ∀ outcomes m, P outcomes m → P (outcomes ++ [m.tick.result]) m.tick.state)
    (outcomes : List TickOutcome) (h : P outcomes m) (maxTicks : Nat) :
    P (outcomes ++ m.runOutcomes maxTicks) (m.run maxTicks).state := by
  have hrun := ticking_induction (m := m)
    (P := fun ticked m' => P (outcomes ++ ticked.map (·.tick.result)) m') ?_ []
    (by rwa [List.map_nil, List.append_nil]) maxTicks
  · rwa [List.nil_append, ← runOutcomes_eq] at hrun
  · intro ticked m' h'
    rw [List.map_append, ← List.append_assoc]
    exact htick _ _ h'

/-- A run of ticks changes the records tick by tick, and no process comes or goes. -/
theorem tickedAll_run (h : m.scheduler.Settled) (maxTicks : Nat) :
    m.scheduler.processes.Related
      (fun pid p q => p.TickedAll pid (m.runOutcomes maxTicks) q)
      (m.run maxTicks).state.scheduler.processes := by
  have hrun := runOutcomes_induction (P := fun outcomes m' =>
    m'.scheduler.Settled ∧ m.scheduler.processes.Related
      (fun pid p q => p.TickedAll pid outcomes q) m'.scheduler.processes)
    ?_ [] ⟨h, .refl (fun _ _ => .nil) _⟩ maxTicks
  · exact hrun.2
  · rintro outcomes m' ⟨hs, hrelated⟩
    exact ⟨settled_tick m' hs, hrelated.trans (ticked_get? hs) fun _ _ _ _ => .snoc⟩

/-- Only a process that is in the table is chosen by a run of ticks. -/
theorem exists_of_chosen_run (h : m.scheduler.Settled) (maxTicks : Nat) :
    ∀ outcome ∈ m.runOutcomes maxTicks, ∀ pid, outcome.chosen? = some pid →
      ∃ p, m.scheduler.processes.get? pid = some p := by
  have hrun := runOutcomes_induction (P := fun outcomes m' =>
    m'.scheduler.Settled ∧ m'.scheduler.processes.keys = m.scheduler.processes.keys ∧
      ∀ outcome ∈ outcomes, ∀ pid, outcome.chosen? = some pid →
        pid ∈ m.scheduler.processes.keys)
    ?_ [] ⟨h, rfl, List.forall_mem_nil _⟩ maxTicks
  · intro outcome hmem pid hchosen
    exact Table.mem_keys_iff.1 (hrun.2.2 outcome hmem pid hchosen)
  · rintro outcomes m' ⟨hs, hkeys, hall⟩
    refine ⟨settled_tick m' hs, (ticked_get? hs).keys_eq.trans hkeys, ?_⟩
    intro outcome hmem pid hchosen
    obtain hmem | rfl := (List.mem_append.1 hmem).imp_right List.mem_singleton.1
    · exact hall outcome hmem pid hchosen
    · rw [← hkeys]
      exact Table.mem_keys_iff.2 (exists_of_chosen hs hchosen)

end Machine

end Timeshare
