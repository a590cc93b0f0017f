import Timeshare.Proofs.Policy.HeadFirst
import Timeshare.Proofs.Scheduler.Calls

/-!
# The processor is not left idle

A scheduler that only ever had built-in policies gives the processor to some process as long
as one is ready. A tick that is not stopped is idle exactly if no process is ready
(`Machine.tick_eq_idle_iff`), and the process that the policy chooses can always be
dispatched, so the tick never has to drop a choice (`Machine.exists_dispatch_of_choice?`).
`Machine.Spent` says what a tick that goes on was spent on, and with the machines that tick
in a run (`Machine.run_cases`) it follows what a run that ends idle has left, and what one
that used up its ticks has done (`Machine.work_conserved`).
-/

namespace Timeshare

theorem Process.Raised.core_eq {p q : Process} (h : p.Raised q) : q.core = p.core := by
  cases h <;> rfl

theorem Policy.BuiltIn.select_eq_head? {policy : Policy} (h : policy.BuiltIn)
    (hkind : policy.kind ≠ .shortestJobFirst) (q : ReadyQueues) (t : ProcessTable) :
    policy.select q t = q.head? := by
  obtain ⟨kind, params, rfl⟩ := h
  cases kind with
  | roundRobin | priorityAging | realTime => rfl
  | shortestJobFirst => exact absurd rfl hkind

namespace Machine

variable {m m' : Machine} {pid : ProcessId} {outcome : TickOutcome}

theorem settled_begun (h : m.scheduler.Settled) : m.begun.scheduler.Settled :=
  h.honourStop.beginTick

theorem builtIn_begun (h : m.scheduler.policy.BuiltIn) : m.begun.scheduler.policy.BuiltIn := by
  rwa [policy_begun]

/-! ## One tick -/

/-- What was done for a process in a tick that goes on: it had a slice, or it was marked and
is terminated. No other process has changed but for its place in the queues. -/
inductive Spent (m m' : Machine) : TickOutcome → Prop
  | sliced {pid : ProcessId} {p q : Process} {retired : Nat} {state : ProcessState}
      (hp : m.scheduler.processes.get? pid = some p)
      (hq : m'.scheduler.processes.get? pid = some q) (hready : p.state = .ready)
      (hkill : p.killRequested = false) (htime : q.cpuTime = p.cpuTime + retired)
      (hdispatches : q.dispatches = p.dispatches + 1) (hstate : q.state = state)
      (hruns : m'.cpu.runs = m.cpu.runs + 1)
      (hothers : ∀ other, other ≠ pid → (m'.scheduler.processes.get? other).map Process.core =
        (m.scheduler.processes.get? other).map Process.core) :
      Spent m m' (.ran pid retired state)
  | killed {pid : ProcessId} {p q : Process} (hp : m.scheduler.processes.get? pid = some p)
      (hq : m'.scheduler.processes.get? pid = some q) (hready : p.state = .ready)
      (hkill : p.killRequested = true) (hstate : q.state = .terminated)
      (hfault : q.fault = some .killed) (hcpu : m'.cpu = m.cpu)
      (hothers : ∀ other, other ≠ pid → (m'.scheduler.processes.get? other).map Process.core =
        (m.scheduler.processes.get? other).map Process.core) :
      Spent m m' (.ran pid 0 .terminated)

/-- The choice of a built-in policy can be dispatched, and if the tick is not stopped that is
what the tick does. -/
theorem exists_dispatch_of_choice? (h : m.scheduler.Settled)
    (hpolicy : m.scheduler.policy.BuiltIn) (hchoice : m.begun.scheduler.choice? = some pid) :
    ∃ outcome, (m.begun.dispatch pid).result = .ok outcome ∧
      (m.tick.result ≠ .stopped →
        m.tick.result = outcome ∧ m.tick.state = (m.begun.dispatch pid).state) := by
  obtain ⟨p, hp, hready⟩ :=
    (settled_begun h).ready_of_choice? (builtIn_begun hpolicy) hchoice
  have hdispatch : ∃ outcome, (m.begun.dispatch pid).result = .ok outcome := by
    cases hkill : p.killRequested with
    | true => exact ⟨_, (dispatch_of_marked hp hready hkill).1⟩
    | false =>
        cases hpower : m.begun.cpu.powered with
        | false => exact ⟨_, (dispatch_of_unpowered hp hready hkill hpower).1⟩
        | true => exact ⟨_, (dispatch_of_powered hp hready hkill hpower).1⟩
  obtain ⟨outcome, hresult⟩ := hdispatch
  refine ⟨outcome, hresult, fun hrun => ?_⟩
  have htick := dispatchChoice_of_ok hchoice hresult
  obtain ⟨-, hstopped, -⟩ | ⟨hstarted, -⟩ := ticked_tick m
  · exact absurd hstopped hrun
  · simp only [tick, hstarted]
    exact htick

theorem begun_none_ready (h : m.scheduler.Settled)
    (hnone : ∀ pid p, m.scheduler.processes.get? pid = some p → p.state ≠ .ready) :
    ∀ pid p, m.begun.scheduler.processes.get? pid = some p → p.state ≠ .ready := by
  intro pid q hq
  obtain ⟨p, hp, hraised⟩ := (begun_get? h).exists_of_get? hq
  rw [hraised.state_eq]
  exact hnone pid p hp

/-- A tick that is not stopped is idle exactly if no process is ready. -/
theorem tick_eq_idle_iff (h : m.scheduler.Settled) (hpolicy : m.scheduler.policy.BuiltIn)
    (hrun : m.tick.result ≠ .stopped) :
    m.tick.result = .idle ↔
      ∀ pid p, m.scheduler.processes.get? pid = some p → p.state ≠ .ready := by
  have hs := settled_begun h
  obtain ⟨-, hstopped, -⟩ | ⟨-, hd⟩ := ticked_tick m
  · exact absurd hstopped hrun
  generalize m.tick.result = outcome at hd ⊢
  generalize m.tick.state = m' at hd
  cases hd with
  | idle hchoice =>
      refine iff_of_true rfl fun pid p hp hready => ?_
      obtain ⟨q, hq, hraised⟩ := (begun_get? h).exists_get? hp
      obtain ⟨other, hother⟩ :=
        hs.exists_choice? (builtIn_begun hpolicy) hq (hraised.state_eq.trans hready)
      rw [hchoice] at hother
      cases hother
  | discarded hchoice hnot =>
      obtain ⟨p, hp, hready⟩ := hs.ready_of_choice? (builtIn_begun hpolicy) hchoice
      exact absurd hready (hnot p hp)
  | killed hchoice hp hready | putBack hchoice hp hready | ran hchoice hp hready =>
      exact iff_of_false (by simp) fun hnone => begun_none_ready h hnone _ _ hp hready

/-- A tick that goes on was spent on one process. -/
theorem spent_tick (h : m.scheduler.Settled) (hexit : m.tick.result.exit? = none) :
    m.Spent m.tick.state m.tick.result := by
  have hcore : ∀ pid, (m.begun.scheduler.processes.get? pid).map Process.core =
      (m.scheduler.processes.get? pid).map Process.core := by
    have hmap := (begun_get? h).map_eq (f := Process.core) fun _ _ _ => Process.Raised.core_eq
    intro pid
    rw [← Table.get?_map, ← Table.get?_map, hmap]
  obtain ⟨-, hstopped, -⟩ | ⟨-, hd⟩ := ticked_tick m
  · rw [hstopped] at hexit
    cases hexit
  generalize m.tick.result = outcome at hd hexit ⊢
  generalize m.tick.state = m' at hd ⊢
  cases hd with
  | idle | discarded | putBack => cases hexit
  | killed hchoice hq hready hkill =>
      obtain ⟨p, hp, hraised⟩ := (begun_get? h).exists_of_get? hq
      have hsame := hraised.core_eq
      refine .killed hp (Table.get?_insert_self ..) (hraised.state_eq.symm.trans hready)
        ?_ rfl rfl rfl fun other hne => ?_
      · exact (congrArg Process.killRequested hsame).symm.trans hkill
      · rw [← hcore]
        exact congrArg _ (Table.get?_insert_of_ne _ hne.symm _)
  | @ran pid q hchoice hq hready hkill hpower =>
      obtain ⟨p, hp, hraised⟩ := (begun_get? h).exists_of_get? hq
      have hsame := hraised.core_eq
      rw [Scheduler.state_settle]
      refine .sliced hp (Table.get?_insert_self ..) (hraised.state_eq.symm.trans hready)
        ?_ ?_ ?_ rfl ?_ fun other hne => ?_
      · exact (congrArg Process.killRequested hsame).symm.trans hkill
      · have htime : q.cpuTime = p.cpuTime := (congrArg Process.cpuTime hsame :)
        rw [Scheduler.cpuTime_filed, ← htime]
        rfl
      · have hdispatches : q.dispatches = p.dispatches := (congrArg Process.dispatches hsame :)
        rw [Scheduler.dispatches_filed, ← hdispatches]
        rfl
      · rw [cpu_slice hpower]
        rfl
      · rw [← hcore]
        exact congrArg _ (Table.get?_insert_of_ne _ hne.symm _)

/-! ## Runs of ticks -/

/-- A run ends with the machine whose tick forces an exit, or every machine of it goes on and
there are as many of them as ticks. -/
theorem run_cases (m : Machine) (maxTicks : Nat) :
    (∃ last ∈ m.ticking maxTicks, last.tick.result.exit? = some (m.run maxTicks).result ∧
      (m.run maxTicks).state = last.tick.state) ∨
    ((m.run maxTicks).result = .tickLimit ∧ (m.ticking maxTicks).length = maxTicks ∧
      ∀ m' ∈ m.ticking maxTicks, m'.tick.result.exit? = none) := by
  rw [run]
  generalize #[] = events
  induction maxTicks generalizing m events with
  | zero => exact .inr ⟨rfl, rfl, List.forall_mem_nil _⟩
  | succ maxTicks ih =>
      rw [ticking]
      cases hexit : m.tick.result.exit? with
      | some exit =>
          rw [runAfter_succ_of_exit hexit]
          exact .inl ⟨m, List.mem_cons_self, hexit, rfl⟩
      | none =>
          rw [runAfter_succ_of_ran hexit]
          obtain ⟨last, hmem, hlast⟩ | ⟨hresult, hlength, hall⟩ :=
            ih m.tick.state (events ++ m.tick.events)
          · exact .inl ⟨last, List.mem_cons_of_mem m hmem, hlast⟩
          · exact .inr ⟨hresult, congrArg (· + 1) hlength, List.forall_mem_cons.2 ⟨hexit, hall⟩⟩

theorem exit?_ne_tickLimit (outcome : TickOutcome) : outcome.exit? ≠ some .tickLimit := by
  cases outcome <;> simp [TickOutcome.exit?]

theorem exit?_eq_idle_iff : outcome.exit? = some .idle ↔ outcome = .idle := by
  cases outcome <;> simp [TickOutcome.exit?]

/-- All machines that tick in a run are settled and keep the policy. -/
theorem settled_ticking (h : m.scheduler.Settled) (maxTicks : Nat) :
    ∀ m' ∈ m.ticking maxTicks,
      m'.scheduler.Settled ∧ m'.scheduler.policy = m.scheduler.policy := by
  have hrun := ticking_induction (m := m)
    (P := fun ticked m' =>
      (m'.scheduler.Settled ∧ m'.scheduler.policy = m.scheduler.policy) ∧
        ∀ m' ∈ ticked, m'.scheduler.Settled ∧ m'.scheduler.policy = m.scheduler.policy)
    ?_ [] ⟨⟨h, rfl⟩, List.forall_mem_nil _⟩ maxTicks
  · exact hrun.2
  · rintro ticked m' ⟨⟨hs, hpolicy⟩, hall⟩
    refine ⟨⟨settled_tick m' hs, m'.policy_tick.trans hpolicy⟩, ?_⟩
    exact List.forall_mem_append.2 ⟨hall, List.forall_mem_singleton.2 ⟨hs, hpolicy⟩⟩

theorem none_ready_of_run (h : m.scheduler.Settled) (hpolicy : m.scheduler.policy.BuiltIn)
    {maxTicks : Nat} (hidle : (m.run maxTicks).result = .idle) :
    ∀ pid p, (m.run maxTicks).state.scheduler.processes.get? pid = some p →
      p.state ≠ .ready := by
  obtain ⟨last, hmem, hexit, hstate⟩ | ⟨hlimit, -⟩ := m.run_cases maxTicks
  · obtain ⟨hs, hsame⟩ := settled_ticking h maxTicks last hmem
    rw [hidle, exit?_eq_idle_iff] at hexit
    have hrun : last.tick.result ≠ .stopped := by simp [hexit]
    have hnone := (tick_eq_idle_iff hs (hsame ▸ hpolicy) hrun).1 hexit
    intro pid q hq
    rw [hstate] at hq
    -- An idle tick changes no state.
    obtain ⟨p, hp, hticked⟩ := (ticked_get? hs).exists_of_get? hq
    rw [(hticked.eq_of_not_ready (hnone pid p hp)).1]
    exact hnone pid p hp
  · rw [hidle] at hlimit
    cases hlimit

/-- A run that used up its ticks took as many as it was given, and each was spent on one
process. -/
theorem spent_of_run (h : m.scheduler.Settled) {maxTicks : Nat}
    (hlimit : (m.run maxTicks).result = .tickLimit) :
    (m.ticking maxTicks).length = maxTicks ∧
      (m.run maxTicks).state = m.afterAll (List.replicate maxTicks .tick) ∧
      ∀ m' ∈ m.ticking maxTicks, m'.Spent m'.tick.state m'.tick.result := by
  obtain ⟨last, -, hexit, -⟩ | ⟨-, hlength, hall⟩ := m.run_cases maxTicks
  · rw [hlimit] at hexit
    exact absurd hexit (exit?_ne_tickLimit _)
  · refine ⟨hlength, ?_, fun m' hmem => ?_⟩
    · rw [state_run, runOutcomes_eq, List.length_map, hlength]
    · exact spent_tick (settled_ticking h maxTicks m' hmem).1 (hall m' hmem)

/-- The built-in policies never leave the processor idle while a process is ready. After any
history of calls whose policies are built in, on any processor and memory: a tick that is not
stopped is idle exactly if no process is ready; what the policy chooses is a ready process in
the queue of its level, under three of the policies the head of the highest queue that is not
empty, its dispatch does not fail, and the tick does nothing else; a run that ends idle leaves
no process ready; and a run that used up its ticks took exactly as many as it was given, each
of them for a slice of one process or for the end of one that was marked. -/
theorem work_conserved (kind : PolicyKind) (params : PolicyParams) {calls : List Scheduler.Call}
    (hcalls : ∀ call ∈ calls, call.Within Policy.BuiltIn) (cpu : Cpu) (memory : Memory) :
    let m : Machine :=
      { scheduler := (Scheduler.new (kind.build params)).afterCalls calls, cpu, memory }
    (m.tick.result ≠ .stopped →
      (m.tick.result = .idle ↔
        ∀ pid p, m.scheduler.processes.get? pid = some p → p.state ≠ .ready)) ∧
    (∀ pid, m.begun.scheduler.choice? = some pid →
      (∃ p, m.begun.scheduler.processes.get? pid = some p ∧ p.state = .ready ∧
        pid ∈ m.begun.scheduler.queues.level p.priority) ∧
      (m.begun.scheduler.policy.kind ≠ .shortestJobFirst →
        ∃ level rest, m.begun.scheduler.queues.HeadAt level pid rest) ∧
      ∃ outcome, (m.begun.dispatch pid).result = .ok outcome ∧
        (m.tick.result ≠ .stopped →
          m.tick.result = outcome ∧ m.tick.state = (m.begun.dispatch pid).state)) ∧
    ∀ maxTicks,
      ((m.run maxTicks).result = .idle →
        ∀ pid p, (m.run maxTicks).state.scheduler.processes.get? pid = some p →
          p.state ≠ .ready) ∧
      ((m.run maxTicks).result = .tickLimit →
        (m.ticking maxTicks).length = maxTicks ∧
          (m.run maxTicks).state = m.afterAll (List.replicate maxTicks .tick) ∧
          ∀ m' ∈ m.ticking maxTicks, m'.Spent m'.tick.state m'.tick.result) := by
  intro m
  have hnew : (Scheduler.new (kind.build params)).policy.BuiltIn := ⟨kind, params, rfl⟩
  have hages : ∀ call ∈ calls, call.AgesByRule := fun call hmem =>
    (hcalls call hmem).agesByRule fun _ => Policy.BuiltIn.agesByRule
  have hs : m.scheduler.Settled := (Scheduler.settled_new hnew.agesByRule).afterCalls hages
  have hpolicy : m.scheduler.policy.BuiltIn := Scheduler.policy_afterCalls hnew hcalls
  refine ⟨tick_eq_idle_iff hs hpolicy, fun pid hchoice => ⟨?_, fun hkind => ?_, ?_⟩,
    fun maxTicks => ⟨none_ready_of_run hs hpolicy, spent_of_run hs⟩⟩
  · obtain ⟨p, hp, hready⟩ :=
      (settled_begun hs).ready_of_choice? (builtIn_begun hpolicy) hchoice
    exact ⟨p, hp, hready, (settled_begun hs).accounts.mem_level_iff.2 ⟨p, hp, hready, rfl⟩⟩
  · have hhead := hchoice
    rw [Scheduler.choice?, (builtIn_begun hpolicy).select_eq_head? hkind] at hhead
    exact ReadyQueues.exists_headAt hhead
  · exact exists_dispatch_of_choice? hs hpolicy hchoice

/-- Another policy, a marked process and one that waits: the first tick ends the marked one,
the second is a slice of the other, and a third one is idle. -/
theorem work_conserved_of_marked_process :
    let calls : List Scheduler.Call :=
      [{ request := .submit (.ofList [.jump 0]) }, { request := .submit (.ofList [.wait, .halt]) },
        { request := .start }, { request := .kill 1 },
        { request := .setPolicy (.shortestJobFirst {}) }]
    let m : Machine :=
      { scheduler := (Scheduler.new (PolicyKind.priorityAging.build {})).afterCalls calls
        cpu := { powered := true } }
    (∀ call ∈ calls, call.Within Policy.BuiltIn) ∧ m.tick.result = .ran 1 0 .terminated ∧
      (¬ ∀ pid p, m.scheduler.processes.get? pid = some p → p.state ≠ .ready) ∧
      (m.run 2).result = .tickLimit ∧ (m.ticking 2).length = 2 ∧
      (∀ m' ∈ m.ticking 2, m'.Spent m'.tick.state m'.tick.result) ∧
      (m.run 3).result = .idle ∧
      ∀ pid p, (m.run 3).state.scheduler.processes.get? pid = some p → p.state ≠ .ready := by
  intro calls
  have hcalls : ∀ call ∈ calls, call.Within Policy.BuiltIn := by
    intro call hcall
    simp only [calls, List.mem_cons, List.not_mem_nil, or_false] at hcall
    rcases hcall with rfl | rfl | rfl | rfl | rfl <;> try trivial
    exact ⟨.shortestJobFirst, {}, rfl⟩
  have h := work_conserved .priorityAging {} hcalls { powered := true } .empty
  -- With the names of the machines in the way, the two sides would be computed to be compared.
  dsimp only at h ⊢
  obtain ⟨hidle, -, hrun⟩ := h
  obtain ⟨-, hlimit⟩ := hrun 2
  obtain ⟨hend, -⟩ := hrun 3
  refine ⟨hcalls, by decide +kernel, ?_, by decide +kernel, ?_, ?_, by decide +kernel, ?_⟩
  · exact mt (hidle (by decide +kernel)).2 (by decide +kernel)
  · exact (hlimit (by decide +kernel)).1
  · exact (hlimit (by decide +kernel)).2.2
  · exact hend (by decide +kernel)

end Machine

end Timeshare
