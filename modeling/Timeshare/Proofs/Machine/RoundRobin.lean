import Timeshare.Proofs.Machine.Served

/-!
# Round robin is fair within a level

Under round robin a process whose slice expired goes behind everybody at its level
(`ReadyQueues.Served.behind`). So of two processes that stay ready at one level the one that
ran is behind the other one, until that one runs and is behind it in turn: between two
dispatches of the one, the other is dispatched once (`Machine.Serves.countP_runs_eq_one`).
-/

namespace Timeshare

/-- The process is ready. -/
def Scheduler.IsReady (s : Scheduler) (pid : ProcessId) : Prop :=
  (s.processes.get? pid).map Process.state = some .ready

instance (s : Scheduler) (pid : ProcessId) : Decidable (s.IsReady pid) :=
  inferInstanceAs (Decidable (_ = _))

/-- A process that ran and is ready again is behind everybody at its level. -/
theorem ReadyQueues.Served.behind {q q' : ReadyQueues} {t : ProcessTable} {level : Priority}
    {pid x : ProcessId} {retired : Nat}
    (h : q.Served (fun _ => false) (.ran pid retired .ready) q') (ha : q.Accounts t)
    (hpid : pid ∈ q.level level) (hx : x ∈ q.level level) (hne : x ≠ pid) :
    q'.InOrder level [x, pid] := by
  cases h with
  | left hhead hstate => exact absurd rfl hstate
  | @requeued head _ rest hhead =>
      obtain rfl := ha.level_unique hhead.mem hpid
      rw [hhead.level_eq] at hx
      have hrest : x ∈ rest := (List.mem_cons.1 hx).resolve_left hne
      rw [InOrder, level_setLevel_self]
      exact (List.singleton_sublist.2 hrest).append_right [pid]

namespace Machine

variable {m : Machine} {params : PolicyParams} {level : Priority} {x y : ProcessId}
  {requests : List MachineRequest}

/-- A tick that leaves the process that it dispatched ready says so. -/
theorem exists_ran_of_isReady (hrule : m.scheduler.policy.AgesByRule)
    (hruns : m.tick.result.runs x = true) (hready : m.tick.state.scheduler.IsReady x) :
    ∃ retired, m.tick.result = .ran x retired .ready := by
  obtain ⟨retired, state, hran⟩ := TickOutcome.runs_eq_true_iff.1 hruns
  obtain ⟨p, p', -, hp', -, rfl, -⟩ := tick_ran hrule hran
  rw [Scheduler.IsReady, hp', Option.map_some] at hready
  rw [hran, Option.some.inj hready]
  exact ⟨retired, rfl⟩

/-- The process that a tick dispatched and left ready is behind everybody at its level. -/
theorem Serves.behind_of_runs (h : m.Serves fun _ => false) (hruns : m.tick.result.runs x = true)
    (hready : m.tick.state.scheduler.IsReady x) (hx : x ∈ m.scheduler.queues.level level)
    (hy : y ∈ m.scheduler.queues.level level) (hne : y ≠ x) :
    m.tick.state.scheduler.queues.InOrder level [y, x] := by
  obtain ⟨retired, hran⟩ := exists_ran_of_isReady h.settled.agesByRule hruns hready
  have hserved := h.served_tick
  rw [hran] at hserved
  exact hserved.behind h.settled.accounts hx hy hne

theorem Serves.countP_runs_eq_zero {keeps : Priority → Bool} (h : m.Serves keeps)
    (hr : ∀ request ∈ requests, request.isStep = true)
    (horder : m.scheduler.queues.InOrder level [y, x])
    (hy : ∀ outcome ∈ m.outcomes requests, outcome.runs y = false) :
    (m.outcomes requests).countP (·.runs x) = 0 := by
  obtain ⟨-, hnever⟩ := h.inOrder_afterAll hr horder hy
  rw [List.countP_eq_zero]
  intro outcome houtcome
  rw [hnever outcome houtcome x (List.mem_singleton_self x)]
  exact Bool.false_ne_true

/-- A process that is behind another one waits until that one was dispatched, and after that
the other one waits in turn. -/
theorem Serves.countP_runs_eq_one (h : m.Serves fun _ => false)
    (hr : ∀ request ∈ requests, request.isStep = true) (hne : y ≠ x)
    (horder : m.scheduler.queues.InOrder level [x, y])
    (hready : ∀ before, before <+: requests → (m.afterAll before).scheduler.IsReady x)
    (hy : ∀ outcome ∈ m.outcomes requests, outcome.runs y = false)
    (hnext : (m.afterAll requests).tick.result.runs y = true) :
    (m.outcomes requests).countP (·.runs x) = 1 := by
  induction requests generalizing m with
  | nil =>
      have hwaits := h.served_tick.runs_eq_false h.settled.accounts horder
        (List.mem_singleton_self y)
      rw [afterAll_nil, hwaits] at hnext
      cases hnext
  | cons request rest ih =>
      obtain ⟨hfirst, hrest⟩ := List.forall_mem_cons.1 hr
      obtain ⟨-, hlater⟩ := List.forall_mem_append.1 hy
      have hafter : ∀ before, before <+: rest →
          ((m.after request).afterAll before).scheduler.IsReady x :=
        fun before hbefore => hready (request :: before) ((List.prefix_cons_inj request).2 hbefore)
      rw [outcomes, List.countP_append]
      obtain rfl | ⟨hnone, hlevels⟩ := h.step hfirst
      · rw [outcomesOf, List.countP_singleton]
        cases hruns : m.tick.result.runs x with
        | false =>
            rw [if_neg Bool.false_ne_true, Nat.zero_add]
            exact ih (h.after hfirst) hrest (h.served_tick.inOrder horder hruns) hafter hlater hnext
        | true =>
            -- From here on `x` is behind `y`, which is not dispatched any more.
            have hbehind := h.behind_of_runs hruns (hafter [] List.nil_prefix)
              (horder.mem List.mem_cons_self)
              (horder.mem (List.mem_cons_of_mem x (List.mem_singleton_self y))) hne
            rw [if_pos rfl, (h.after hfirst).countP_runs_eq_zero hrest hbehind hlater]
      · rw [hnone, List.countP_nil, Nat.zero_add]
        exact ih (h.after hfirst) hrest (horder.mono (hlevels level)) hafter hlater hnext

/-- Let two processes be at the same level. If one of them is dispatched and stays ready, and
the other one is ready until the next dispatch of the first, then the other one is dispatched
exactly once in between, whatever else happens. And a tick never chooses a process while
another one is ready at a higher level. -/
theorem roundRobin_is_fair (h : m.scheduler.Reachable)
    (hpolicy : m.scheduler.policy = .roundRobin params)
    (hr : ∀ request ∈ requests, request.isStep = true) :
    (∀ p q r r' retired, p ≠ q → m.scheduler.processes.get? p = some r →
      m.scheduler.processes.get? q = some r' → r.priority = r'.priority →
      m.tick.result = .ran p retired .ready →
      (∀ before, before <+: .tick :: requests → (m.afterAll before).scheduler.IsReady q) →
      (∀ outcome ∈ m.tick.state.outcomes requests, outcome.runs p = false) →
      (m.tick.state.afterAll requests).tick.result.runs p = true →
      (m.tick.state.outcomes requests).countP (·.runs q) = 1) ∧
    ∀ pid, (m.afterAll requests).tick.result.chosen? = some pid →
      ∃ p, (m.afterAll requests).scheduler.processes.get? pid = some p ∧
        ∀ other r, (m.afterAll requests).scheduler.processes.get? other = some r →
          r.state = .ready → p.priority ≤ r.priority := by
  have hserves : m.Serves fun _ => false := by
    refine ⟨h.settled, ?_⟩
    rw [hpolicy]
    exact Policy.headFirst_roundRobin params
  have haccounts := hserves.settled.accounts
  constructor
  · intro p q r r' retired hne hp hq hlevel hran hready hquiet hnext
    have hreadyQ : r'.state = .ready := by
      have hbefore := hready [] List.nil_prefix
      rw [Scheduler.IsReady, afterAll_nil, hq] at hbefore
      exact Option.some.inj hbefore
    obtain ⟨r₀, hr₀, hreadyP, -⟩ := hserves.le_of_chosen (congrArg TickOutcome.chosen? hran)
    rw [hp] at hr₀
    cases hr₀
    have hserved := hserves.served_tick
    rw [hran] at hserved
    have hbehind := hserved.behind haccounts (haccounts.mem_level_iff.2 ⟨r, hp, hreadyP, rfl⟩)
      (haccounts.mem_level_iff.2 ⟨r', hq, hreadyQ, hlevel.symm⟩) hne.symm
    have hafter : ∀ before, before <+: requests →
        (m.tick.state.afterAll before).scheduler.IsReady q :=
      fun before hbefore => hready (.tick :: before) ((List.prefix_cons_inj _).2 hbefore)
    have hticked : (m.after .tick).Serves fun _ => false := hserves.after rfl
    exact hticked.countP_runs_eq_one hr hne hbehind hafter hquiet hnext
  · intro pid hchosen
    obtain ⟨p, hp, -, hle⟩ := (hserves.afterAll hr).le_of_chosen hchosen
    exact ⟨p, hp, hle⟩

/-- Between two dispatches of the first process somebody arrives, a tick finds the processor
without power, and another one finds the scheduler stopped. -/
theorem roundRobin_is_fair_of_interruptions :
    let loop : Program := .ofList [.jump 0]
    let m := ({ scheduler := .new (.roundRobin { baseQuantum := 1 }) } : Machine).afterAll
      [.power true, .submit loop, .submit loop, .start]
    let requests : List MachineRequest :=
      [.submit loop, .power false, .tick, .power true, .requestStop, .tick, .start, .tick,
        .submitAt (.ofList [.halt]) .highest, .tick, .kill 3, .reap]
    m.scheduler.Reachable ∧ m.tick.result = .ran 1 3 .ready ∧
      (m.tick.state.afterAll requests).tick.result = .ran 1 3 .ready ∧
      (m.tick.state.outcomes requests).countP (·.runs 2) = 1 := by
  intro loop m requests
  have hm : m.scheduler.Reachable := by
    refine Scheduler.Reachable.afterAll
      (.new (PolicyKind.agesByRule_build .roundRobin _)) fun request hrequest => ?_
    simp only [List.mem_cons, List.not_mem_nil, or_false] at hrequest
    rcases hrequest with rfl | rfl | rfl | rfl <;> trivial
  have hr : ∀ request ∈ requests, request.isStep = true := by decide
  have hlevels : (m.scheduler.processes.get? 1).map Process.priority =
      (m.scheduler.processes.get? 2).map Process.priority := by decide +kernel
  have hpresent : (m.scheduler.processes.get? 1).isSome = true ∧
      (m.scheduler.processes.get? 2).isSome = true := by decide +kernel
  obtain ⟨r, hfirst⟩ := Option.isSome_iff_exists.1 hpresent.1
  obtain ⟨r', hsecond⟩ := Option.isSome_iff_exists.1 hpresent.2
  rw [hfirst, hsecond] at hlevels
  have hready : ∀ n, n < 14 →
      (m.afterAll ((.tick :: requests).take n)).scheduler.IsReady 2 := by decide +kernel
  obtain ⟨halternates, -⟩ := roundRobin_is_fair hm rfl hr
  refine ⟨hm, by decide +kernel, by decide +kernel, halternates 1 2 r r' 3 (by decide) hfirst
    hsecond (Option.some.inj hlevels) (by decide +kernel) (fun before hbefore => ?_)
    (by decide +kernel) (by decide +kernel)⟩
  rw [List.prefix_iff_eq_take.1 hbefore]
  exact hready _ (Nat.lt_succ_of_le hbefore.length_le)

end Machine

end Timeshare
