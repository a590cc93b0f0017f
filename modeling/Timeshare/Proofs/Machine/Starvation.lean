import Timeshare.Proofs.Machine.Paced
import Timeshare.Proofs.Scheduler.Waiting

/-!
# Priority aging does not starve

While a machine ticks under priority aging, a ready process that is not dispatched
reaches the highest level by a deadline (`Scheduler.Climbs`), and there its place in the
queue is the number of ticks until it is dispatched
(`Machine.RunsAging.dispatchesAt_of_level`). Both hold whatever is submitted, woken and
killed between the ticks.
-/

namespace Timeshare

namespace ReadyQueues

variable {q : ReadyQueues} {pid : ProcessId} {rest : List ProcessId}

theorem head?_of_level_highest (h : q.level .highest = pid :: rest) : q.head? = some pid := by
  have hhighest : q.highest? = some .highest := by
    rw [highest?, Priority.all, List.finRange_succ, List.find?_cons_of_pos]
    · rfl
    · change (!(q.level .highest).isEmpty) = true
      rw [h]
      rfl
  rw [head?, hhighest, Option.bind_some, h, List.head?_cons]

theorem level_remove_of_level_highest (h : q.level .highest = pid :: rest) :
    (q.remove pid).level .highest = rest := by
  have hlevel : q.levelOf? pid = some .highest := by
    rw [levelOf?, Priority.all, List.finRange_succ, List.find?_cons_of_pos]
    · rfl
    · change (q.level .highest).contains pid = true
      simp [h]
  rw [level_remove, if_pos hlevel, h, List.erase_cons_head]

end ReadyQueues

namespace Scheduler

variable {s s' : Scheduler} {pid : ProcessId} {p : Process} {threshold deadline : Nat}
  {params : PolicyParams}

/-! ## Climbing -/

/-- The process is ready, and it is at the highest level or will be there by the
deadline: it is raised when it has waited for longer than the threshold, but not before
the next tick, and then once in each further `threshold + 1` ticks. -/
def Climbs (threshold deadline : Nat) (s : Scheduler) (pid : ProcessId) : Prop :=
  ∃ p, s.processes.get? pid = some p ∧ p.state = .ready ∧
    (p.priority = .highest ∨
      max (s.clock + 1) (p.readySince + threshold + 1) +
        (p.priority.val - 1) * (threshold + 1) ≤ deadline)

theorem Timely.climbs (h : s.Timely) (threshold : Nat) (hp : s.processes.get? pid = some p)
    (hready : p.state = .ready) :
    s.Climbs threshold (s.clock + p.priority.val * (threshold + 1)) pid := by
  refine ⟨p, hp, hready, ?_⟩
  by_cases hlevel : p.priority = .highest
  · exact .inl hlevel
  · have hsince := h pid p hp
    obtain ⟨n, hn⟩ := Nat.exists_eq_add_of_lt (Priority.val_pos_of_ne_highest hlevel)
    have hmul : (n + 1) * (threshold + 1) = n * (threshold + 1) + (threshold + 1) :=
      Nat.succ_mul ..
    rw [hn, Nat.zero_add, hmul, Nat.add_sub_cancel]
    exact .inr (by omega)

theorem Climbs.extends (h : s.Climbs threshold deadline pid) (hs : s.Extends s') :
    s'.Climbs threshold deadline pid := by
  obtain ⟨p, hp, hready, hclimbs⟩ := h
  obtain ⟨p', hp', hready', hpriority, hsince⟩ := hs.ready pid p hp hready
  refine ⟨p', hp', hready', ?_⟩
  rw [hpriority, hsince, hs.clock_eq]
  exact hclimbs

theorem Climbs.level_highest (h : s.Climbs threshold deadline pid) (hs : s.Settled)
    (hdeadline : deadline ≤ s.clock) : pid ∈ s.queues.level .highest := by
  obtain ⟨p, hp, hready, hlevel | hbefore⟩ := h
  · exact hs.accounts.mem_level_iff.2 ⟨p, hp, hready, hlevel⟩
  · omega

/-- The beginning of a tick raises the process in time. -/
theorem Climbs.beginTick (h : s.Climbs params.agingThreshold deadline pid) (hs : s.Settled)
    (hpolicy : s.policy = .priorityAging params) :
    s.beginTick.state.Climbs params.agingThreshold deadline pid := by
  obtain ⟨p, hp, hready, hclimbs⟩ := h
  refine ⟨Aging.aged params.agingThreshold (s.clock + 1) p, ?_, ?_, ?_⟩
  · rw [get?_beginTick hs hpolicy, hp, Option.map_some]
  · rw [Aging.state_aged, hready]
  · change _ ∨ max (s.clock + 1 + 1) _ + _ ≤ _
    rw [Aging.aged]
    split
    next hstarves =>
      have hbefore := hclimbs.resolve_left hstarves.2.1
      by_cases hraised : p.priority.raise = .highest
      · exact .inl hraised
      · have hlevel := Priority.val_pos_of_ne_highest hraised
        obtain ⟨n, hn⟩ := Nat.exists_eq_add_of_lt hlevel
        have hval : p.priority.val - 1 = n + 1 := by
          rw [← Priority.val_raise, hn, Nat.zero_add]
        have hmul : (n + 1) * (params.agingThreshold + 1) =
            n * (params.agingThreshold + 1) + (params.agingThreshold + 1) := Nat.succ_mul ..
        rw [hval, hmul] at hbefore
        simp only [Aging.raised, hn, Nat.zero_add, Nat.add_sub_cancel]
        exact .inr (by omega)
    next hfine =>
      by_cases hlevel : p.priority = .highest
      · exact .inl hlevel
      · have hbefore := hclimbs.resolve_left hlevel
        have hwaits : ¬ params.agingThreshold < s.clock + 1 - p.readySince :=
          fun hlong => hfine ⟨hready, hlevel, hlong⟩
        exact .inr (by omega)

/-! ## The queues after a run -/

/-- Under priority aging a run puts nothing before what is queued. -/
theorem level_filedQueues_prefix (hpolicy : s.policy = .priorityAging params)
    (pid : ProcessId) (p : Process) (exit : Exit) (level : Priority) :
    s.queues.level level <+: (s.filedQueues pid p exit).level level := by
  rcases exit with e | outcome
  · exact List.prefix_rfl
  · cases outcome with
    | halted | waiting => exact List.prefix_rfl
    | sliceExpired =>
        have htail : ¬ s.policy.requeueAtHead (s.filed p (.ok .sliceExpired)) = true := by
          rw [hpolicy]
          exact Bool.false_ne_true
        rw [filedQueues, if_neg htail]
        exact ReadyQueues.level_pushBack_prefix ..

end Scheduler

namespace Machine

variable {m m' : Machine} {outcome : TickOutcome} {pid other : ProcessId}
  {threshold deadline : Nat} {params : PolicyParams} {ahead behind : List ProcessId}

/-- A process that is not dispatched goes on climbing. -/
theorem climbs_dispatched (h : m.scheduler.Climbs threshold deadline pid)
    (hd : m.Dispatched outcome m') :
    (∃ retired state, outcome = .ran pid retired state) ∨
      m'.scheduler.Climbs threshold deadline pid := by
  obtain ⟨p, hp, hready, hclimbs⟩ := h
  have hother : ∀ {other q}, other ≠ pid →
      (m.scheduler.processes.insert other q).get? pid = some p :=
    fun hne => (Table.get?_insert_of_ne _ hne _).trans hp
  cases hd with
  | idle | discarded => exact .inr ⟨p, hp, hready, hclimbs⟩
  | @killed chosen =>
      by_cases hpid : chosen = pid
      · exact .inl ⟨_, _, by rw [hpid]⟩
      · exact .inr ⟨p, hother hpid, hready, hclimbs⟩
  | @putBack chosen q hchoice hq =>
      by_cases hpid : chosen = pid
      · subst hpid
        rw [hp] at hq
        cases hq
        exact .inr ⟨_, Table.get?_insert_self .., rfl, hclimbs⟩
      · exact .inr ⟨p, hother hpid, hready, hclimbs⟩
  | @ran chosen =>
      by_cases hpid : chosen = pid
      · exact .inl ⟨_, _, by rw [hpid]⟩
      · rw [Scheduler.state_settle]
        exact .inr ⟨p, hother hpid, hready, hclimbs⟩

theorem RunsAging.climbs_tick (h : m.RunsAging params)
    (hclimbs : m.scheduler.Climbs params.agingThreshold deadline pid) :
    m.Dispatches pid ∨ m.tick.state.scheduler.Climbs params.agingThreshold deadline pid :=
  climbs_dispatched (m := { m with scheduler := m.scheduler.beginTick.state })
    (hclimbs.beginTick h.settled h.policy_eq) h.dispatched

theorem RunsAging.climbs_paced (h : m.RunsAging params)
    (hclimbs : m.scheduler.Climbs params.agingThreshold deadline pid)
    {requests : Nat → List MachineRequest}
    (hr : ∀ n, ∀ request ∈ requests n, request.keepsOn = true) (n : Nat) :
    (∃ k, k < n ∧ m.DispatchesAt requests k pid) ∨
      (m.paced requests n).scheduler.Climbs params.agingThreshold deadline pid := by
  induction n with
  | zero => exact .inr hclimbs
  | succ n ih =>
      obtain ⟨k, hk, hdispatch⟩ | hclimbs := ih
      · exact .inl ⟨k, Nat.lt_succ_of_lt hk, hdispatch⟩
      · obtain ⟨hruns, hextends⟩ := (h.paced hr n).1.afterAll (hr n)
        obtain hdispatch | hclimbs := hruns.climbs_tick (hclimbs.extends hextends)
        · exact .inl ⟨n, Nat.lt_succ_self n, hdispatch⟩
        · exact .inr hclimbs

/-! ## The queue of the highest level -/

theorem dispatched_of_level_highest (h : m.RunsAging params)
    (hlevel : m.scheduler.queues.level .highest = pid :: behind)
    (hd : m.Dispatched outcome m') :
    (∃ retired state, outcome = .ran pid retired state) ∧
      behind <+: m'.scheduler.queues.level .highest := by
  have hhead : m.scheduler.choice? = some pid := by
    rw [Scheduler.choice?, h.policy_eq]
    exact ReadyQueues.head?_of_level_highest hlevel
  have hqueue := ReadyQueues.level_remove_of_level_highest hlevel
  have hmem : pid ∈ m.scheduler.queues.level .highest := by
    rw [hlevel]
    exact List.mem_cons_self
  cases hd with
  | idle hchoice =>
      rw [hhead] at hchoice
      cases hchoice
  | discarded hchoice hnot =>
      rw [hhead] at hchoice
      cases hchoice
      obtain ⟨p, hp, hready, -⟩ := h.settled.accounts.mem_level_iff.1 hmem
      exact absurd hready (hnot p hp)
  | killed hchoice =>
      rw [hhead] at hchoice
      cases hchoice
      refine ⟨⟨_, _, rfl⟩, ?_⟩
      change behind <+: (m.scheduler.queues.remove pid).level .highest
      simp only [hqueue, List.prefix_rfl]
  | putBack hchoice hp hready hkill hpower =>
      rw [h.powered] at hpower
      cases hpower
  | @ran _ p hchoice =>
      rw [hhead] at hchoice
      cases hchoice
      refine ⟨⟨_, _, rfl⟩, ?_⟩
      have hpolicy : (m.scheduler.take pid).policy = .priorityAging params := h.policy_eq
      have hfiled := Scheduler.level_filedQueues_prefix hpolicy pid
        (p.afterRun (m.slice p).workspace.context) (m.sliceExit p) .highest
      rw [Scheduler.take, hqueue] at hfiled
      rw [Scheduler.state_settle]
      exact hfiled

/-- The head of the highest queue is dispatched, and the others move up. -/
theorem RunsAging.tick_of_level_highest (h : m.RunsAging params)
    (hlevel : m.scheduler.queues.level .highest = pid :: behind) :
    m.Dispatches pid ∧ behind <+: m.tick.state.scheduler.queues.level .highest := by
  obtain ⟨arrived, harrived⟩ := Scheduler.level_highest_beginTick h.settled h.policy_eq
  rw [hlevel] at harrived
  have hbegun : RunsAging params { m with scheduler := m.scheduler.beginTick.state } :=
    ⟨h.settled.beginTick, h.policy_eq, h.started, h.unstopped, h.powered⟩
  obtain ⟨hran, hbehind⟩ := dispatched_of_level_highest hbegun harrived.symm h.dispatched
  exact ⟨hran, (List.prefix_append behind arrived).trans hbehind⟩

/-- A process that is dispatched is not another one. -/
theorem Dispatches.eq (h : m.Dispatches pid) (h' : m.Dispatches other) : pid = other := by
  obtain ⟨retired, state, heq⟩ := h
  obtain ⟨retired', state', heq'⟩ := h'
  rw [heq] at heq'
  cases heq'
  rfl

theorem RunsAging.not_mem_ahead (h : m.RunsAging params)
    (hlevel : m.scheduler.queues.level .highest = ahead ++ pid :: behind) : pid ∉ ahead := by
  intro hmem
  have hpos := List.count_pos_iff.2 hmem
  have hcount := h.settled.accounts .highest pid
  have hone : m.scheduler.processes.share .highest pid ≤ 1 := ProcessTable.share_le_one
  rw [hlevel, List.count_append, List.count_cons_self] at hcount
  omega

/-- The place in the queue of the highest level is the number of ticks to wait. -/
theorem RunsAging.dispatchesAt_of_level (h : m.RunsAging params)
    {requests : Nat → List MachineRequest}
    (hr : ∀ n, ∀ request ∈ requests n, request.keepsOn = true) {n : Nat}
    (hlevel : ahead ++ pid :: behind <+: (m.paced requests n).scheduler.queues.level .highest) :
    (∀ k, k < ahead.length → ¬ m.DispatchesAt requests (n + k) pid) ∧
      m.DispatchesAt requests (n + ahead.length) pid := by
  induction ahead generalizing n with
  | nil =>
      obtain ⟨hruns, hextends⟩ := (h.paced hr n).1.afterAll (hr n)
      obtain ⟨arrived, harrived⟩ := hlevel.trans (hextends.level .highest)
      refine ⟨fun k hk => absurd hk (Nat.not_lt_zero k), ?_⟩
      exact (hruns.tick_of_level_highest harrived.symm).1
  | cons first ahead ih =>
      obtain ⟨hruns, hextends⟩ := (h.paced hr n).1.afterAll (hr n)
      obtain ⟨arrived, harrived⟩ := hlevel.trans (hextends.level .highest)
      have hsplit := harrived.symm
      rw [List.append_assoc, List.cons_append] at hsplit
      have hne : pid ≠ first := List.ne_of_not_mem_cons (hruns.not_mem_ahead hsplit)
      obtain ⟨hfirst, hrest⟩ := hruns.tick_of_level_highest hsplit
      have hnext : ahead ++ pid :: behind <+:
          (m.paced requests (n + 1)).scheduler.queues.level .highest :=
        ((List.prefix_append_right_inj ahead).2 (List.prefix_append ..)).trans hrest
      obtain ⟨hbefore, hthen⟩ := ih hnext
      have hshift : ∀ k, n + 1 + k = n + (k + 1) := by omega
      constructor
      · intro k hk hdispatch
        cases k with
        | zero => exact hne (hdispatch.eq hfirst)
        | succ k =>
            rw [← hshift] at hdispatch
            exact hbefore k (Nat.lt_of_succ_lt_succ hk) hdispatch
      · rwa [List.length_cons, ← hshift]

/-- After a tick under priority aging that was not stopped, no ready process below the
highest level has waited for longer than the threshold. So a ready process, if it is
not dispatched before, is at the highest level after at most `threshold + 1` ticks for
each level, and there it is dispatched after those that are ahead of it. -/
theorem priorityAging_does_not_starve (h : m.scheduler.Reachable)
    (hpolicy : m.scheduler.policy = .priorityAging params) :
    (m.tick.result ≠ .stopped →
      ∀ pid p, m.tick.state.scheduler.processes.get? pid = some p → p.state = .ready →
        p.priority ≠ .highest →
        p.readySince ≤ m.tick.state.scheduler.clock ∧
          m.tick.state.scheduler.clock - p.readySince ≤ params.agingThreshold) ∧
    (m.scheduler.started = true → m.scheduler.stopRequested = false → m.cpu.powered = true →
      ∀ pid p, m.scheduler.processes.get? pid = some p → p.state = .ready →
        ∀ requests : Nat → List MachineRequest,
          (∀ n, ∀ request ∈ requests n, request.keepsOn = true) →
          ((∃ n, n < p.priority.val * (params.agingThreshold + 1) ∧
              m.DispatchesAt requests n pid) ∨
            ∃ n, n ≤ p.priority.val * (params.agingThreshold + 1) ∧
              pid ∈ (m.paced requests n).scheduler.queues.level .highest) ∧
          ∀ n ahead behind,
            (m.paced requests n).scheduler.queues.level .highest = ahead ++ pid :: behind →
            (∀ k, k < ahead.length → ¬ m.DispatchesAt requests (n + k) pid) ∧
              m.DispatchesAt requests (n + ahead.length) pid) := by
  have hs := h.settled
  constructor
  · intro hticked pid p hp hready hlevel
    exact ⟨timely_tick h.timely hs.agesByRule pid p hp,
      waitsWithin_tick hs hpolicy hticked pid p hp hready hlevel⟩
  · intro hstarted hunstopped hpowered pid p hp hready requests hr
    have hruns : m.RunsAging params := ⟨hs, hpolicy, hstarted, hunstopped, hpowered⟩
    refine ⟨?_, fun n ahead behind hlevel => ?_⟩
    · have hclimbs := h.timely.climbs params.agingThreshold hp hready
      refine (hruns.climbs_paced hclimbs hr _).imp_right fun hthere => ?_
      obtain ⟨hthen, hclock⟩ := hruns.paced hr (p.priority.val * (params.agingThreshold + 1))
      exact ⟨_, Nat.le_refl _, hthere.level_highest hthen.settled (Nat.le_of_eq hclock.symm)⟩
    · have hplace : ahead ++ pid :: behind <+:
          (m.paced requests n).scheduler.queues.level .highest := by
        simp only [hlevel, List.prefix_rfl]
      exact hruns.dispatchesAt_of_level hr hplace

/-- A process at the lowest level, whose waiting time another policy left behind, and an
endless loop that arrives at the highest level before each tick. -/
theorem priorityAging_does_not_starve_lowest :
    let params : PolicyParams := { agingThreshold := 1 }
    let loop : Program := .ofList [.jump 0]
    let m := ({ scheduler := .new (.roundRobin params) } : Machine).afterAll
      [.power true, .start, .submitAt loop .highest, .submitAt (.ofList [.halt]) .lowest,
        .tick, .tick, .tick, .setPolicy (.priorityAging params)]
    let requests := fun _ : Nat => [MachineRequest.submitAt loop .highest]
    m.scheduler.Reachable ∧ m.tick.result ≠ .stopped ∧
      (m.scheduler.processes.get? 2).map Process.readySince = some 0 ∧
      ((∃ n, n < 8 ∧ m.DispatchesAt requests n 2) ∨
        ∃ n, n ≤ 8 ∧ 2 ∈ (m.paced requests n).scheduler.queues.level .highest) := by
  intro params loop m requests
  have hm : m.scheduler.Reachable := by
    refine Scheduler.Reachable.afterAll
      (.new (PolicyKind.agesByRule_build .roundRobin params)) fun request hrequest => ?_
    simp only [List.mem_cons, List.not_mem_nil, or_false] at hrequest
    rcases hrequest with rfl | rfl | rfl | rfl | rfl | rfl | rfl | rfl <;> try trivial
    exact PolicyKind.agesByRule_build .priorityAging params
  have hlowest : (m.scheduler.processes.get? 2).map (fun p => (p.state, p.priority)) =
      some (.ready, .lowest) := by decide +kernel
  obtain ⟨p, hp, hpair⟩ := Option.map_eq_some_iff.1 hlowest
  obtain ⟨hready, hlevel⟩ := Prod.mk.inj hpair
  have hlevels : p.priority.val * (params.agingThreshold + 1) = 8 := by
    rw [hlevel]
    rfl
  obtain ⟨-, hafter⟩ := priorityAging_does_not_starve hm rfl
  obtain ⟨hclimbs, -⟩ := hafter (by decide +kernel) (by decide +kernel) (by decide +kernel) 2 p
    hp hready requests fun n request hrequest => by
      obtain rfl := List.mem_singleton.1 hrequest
      rfl
  rw [hlevels] at hclimbs
  exact ⟨hm, by decide +kernel, by decide +kernel, hclimbs⟩

end Machine

end Timeshare
