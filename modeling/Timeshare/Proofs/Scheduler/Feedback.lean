import Timeshare.Proofs.History
import Timeshare.Proofs.Machine.Feedback
import Timeshare.Proofs.Scheduler.Census
import Timeshare.Proofs.Scheduler.Drift

/-!
# Levels over a history

Under priority aging every tick of a history moves the levels by the feedback rule, with the
expired slices counted along all the ticks before it (`Scheduler.Tallies`), and no other call
moves a level. The other three policies move none. Whatever built-in policies there are, in
whatever order, a process keeps the level of its submission in mind, and what the demotions
exceed the promotions by is how far all the processes together have moved from it
(`Scheduler.levels_follow_feedback`).
-/

namespace Timeshare

/-- The machines that tick in a request. -/
def Machine.tickingOf (m : Machine) : MachineRequest → List Machine
  | .tick => [m]
  | .run maxTicks => m.ticking maxTicks
  | _ => []

theorem Machine.tickingOf_eq_nil {m : Machine} {request : MachineRequest}
    (h : request.ticks = false) : m.tickingOf request = [] := by
  cases request with
  | tick | run => cases h
  | _ => rfl

theorem ProcessTable.map_pid_snapshots (t : ProcessTable) :
    (snapshots t).map (·.pid) = t.keys := by
  rw [snapshots, List.map_map]
  rfl

/-! ## The level of submission -/

namespace Process

variable {pid : ProcessId} {p q : Process} {outcome : TickOutcome} {outcomes : List TickOutcome}

theorem Handled.standing_eq (h : p.Handled q) : q.standing = p.standing := by
  cases h <;> rfl

theorem Handled.basePriority_eq (h : p.Handled q) : q.basePriority = p.basePriority := by
  cases h <;> rfl

theorem Raised.basePriority_eq (h : p.Raised q) : q.basePriority = p.basePriority := by
  cases h <;> rfl

theorem Dispatched.basePriority_eq (h : p.Dispatched pid outcome q) :
    q.basePriority = p.basePriority := by
  cases h with
  | killed | putBack => rfl
  | ran => exact Scheduler.basePriority_filed ..

theorem Ticked.basePriority_eq (h : p.Ticked pid outcome q) :
    q.basePriority = p.basePriority := by
  cases h with
  | passed hraised => exact hraised.basePriority_eq
  | chosen hraised hd => exact hd.basePriority_eq.trans hraised.basePriority_eq

/-- Nothing that happens to a process changes the level at which it was submitted. -/
theorem Lived.basePriority_eq (h : p.Lived pid outcomes q) :
    q.basePriority = p.basePriority := by
  induction h with
  | refl => rfl
  | handled _ hh ih => exact hh.basePriority_eq.trans ih
  | ticked _ ht ih => exact ht.basePriority_eq.trans ih

end Process

namespace Scheduler

variable {s : Scheduler} {call : Call} {calls : List Call} {pid : ProcessId} {p q : Process}
  {params : PolicyParams} {ticked : List Machine}

/-- The machines that tick in a history of calls. -/
def ticking (s : Scheduler) : List Call → List Machine
  | [] => []
  | call :: rest => (s.on call).tickingOf call.request ++ (s.afterCall call).ticking rest

/-- What a tick preserves and adds its machine to, and what any other call preserves, is
preserved by a history of calls. -/
theorem ticking_induction {P : List Machine → Scheduler → Prop}
    (htick : ∀ ticked m, P ticked m.scheduler → P (ticked ++ [m]) m.tick.state.scheduler)
    (hcalls : ∀ call ∈ calls, call.request.ticks = false →
      ∀ ticked s, P ticked s → P ticked (s.afterCall call)) (h : P ticked s) :
    P (ticked ++ s.ticking calls) (s.afterCalls calls) := by
  induction calls generalizing s ticked with
  | nil =>
      rw [ticking, List.append_nil]
      exact h
  | cons call rest ih =>
      obtain ⟨hfirst, hrest⟩ := List.forall_mem_cons.1 hcalls
      rw [ticking, ← List.append_assoc]
      refine ih hrest ?_
      cases hticks : call.request.ticks with
      | true =>
          obtain ⟨request, cpu, memory⟩ := call
          cases request with
          | tick => exact htick ticked { scheduler := s, cpu, memory } h
          | run maxTicks =>
              exact Machine.ticking_induction (m := { scheduler := s, cpu, memory })
                (P := fun ticked m => P ticked m.scheduler) htick ticked h maxTicks
          | _ => cases hticks
      | false =>
          rw [Machine.tickingOf_eq_nil hticks, List.append_nil]
          exact hfirst hticks ticked s h

/-- A tick uses up no slice of a process that is not submitted yet. -/
theorem unsubmitted_concat {m : Machine} (hs : m.scheduler.Settled)
    (h : ∀ pid, m.scheduler.nextPid ≤ pid → expiredSlices ticked pid = 0) :
    ∀ pid, m.tick.state.scheduler.nextPid ≤ pid → expiredSlices (ticked ++ [m]) pid = 0 := by
  intro pid hpid
  rw [Machine.nextPid_tick] at hpid
  have habsent : m.scheduler.processes.get? pid = none := by
    cases hp : m.scheduler.processes.get? pid with
    | none => rfl
    | some p => exact absurd (hs.tame pid p hp).2 (Nat.not_lt.2 hpid)
  rw [expiredSlices_concat, h pid hpid]
  exact Machine.countAfter_of_absent hs habsent

/-! ## Calls that do not tick -/

/-- A call that does not tick leaves a process at its level, and a process that it submits has
used up nothing. -/
theorem standing_afterCall (h : s.Settled) (hticks : call.request.ticks = false)
    (hq : (s.afterCall call).processes.get? pid = some q) :
    (∃ p, s.processes.get? pid = some p ∧ q.standing = p.standing) ∨
      pid = s.nextPid ∧ q.standing = (q.priority, 0) := by
  obtain ⟨p, hp, hhandled⟩ | ⟨hpid, program, priority, -, rfl⟩ :=
    h.record_afterCall call hticks hq
  · exact .inl ⟨p, hp, hhandled.standing_eq⟩
  · exact .inr ⟨hpid, rfl⟩

theorem priority_afterCall (h : s.Settled) (hticks : call.request.ticks = false)
    (hp : s.processes.get? pid = some p)
    (hq : (s.afterCall call).processes.get? pid = some q) : q.priority = p.priority := by
  obtain ⟨p', hp', hstanding⟩ | ⟨rfl, -⟩ := standing_afterCall h hticks hq
  · rw [hp] at hp'
    cases hp'
    exact congrArg Prod.fst hstanding
  · rw [h.get?_nextPid] at hp
    cases hp

/-- A process that is not submitted after a call was not submitted before it. -/
theorem unsubmitted_afterCall (hs : s.Settled) (hcall : call.AgesByRule)
    (h : ∀ pid, s.nextPid ≤ pid → expiredSlices ticked pid = 0) :
    ∀ pid, (s.afterCall call).nextPid ≤ pid → expiredSlices ticked pid = 0 :=
  fun pid hpid => h pid (Nat.le_trans (called_afterCall hs hcall).nextPid_le hpid)

/-! ## Priority aging -/

/-- Every tick so far followed the feedback rule, and the records count the slices that expired
along these ticks. -/
structure Tallies (s : Scheduler) (params : PolicyParams) (ticked : List Machine) : Prop where
  settled : s.Settled
  policy_eq : s.policy = .priorityAging params
  tallied : ∀ pid p, s.processes.get? pid = some p →
    Tallied params.demotionThreshold (expiredSlices ticked pid) p.standing
  unsubmitted : ∀ pid, s.nextPid ≤ pid → expiredSlices ticked pid = 0
  followed : ∀ before m after, ticked = before ++ m :: after →
    ∀ pid, m.FollowsFeedback params pid (expiredSlices before pid)

theorem tallies_new (params : PolicyParams) :
    (new (.priorityAging params)).Tallies params [] where
  settled := settled_new (PolicyKind.agesByRule_build .priorityAging params)
  policy_eq := rfl
  tallied := fun pid p hp => by cases hp
  unsubmitted := fun _ _ => rfl
  followed := fun before m after h => by simp at h

theorem Tallies.tick {m : Machine} (h : m.scheduler.Tallies params ticked)
    (hpos : 1 ≤ params.demotionThreshold) (hword : params.demotionThreshold < UInt32.size) :
    m.tick.state.scheduler.Tallies params (ticked ++ [m]) := by
  have hrule (pid : ProcessId) := Machine.followsFeedback_of_tallied h.settled h.policy_eq hpos
    hword (h.tallied pid)
  refine ⟨Machine.settled_tick m h.settled, m.policy_tick.trans h.policy_eq, ?_,
    unsubmitted_concat h.settled h.unsubmitted,
    History.forall_concat h.followed fun pid => (hrule pid).1⟩
  intro pid r hr
  rw [expiredSlices_concat]
  exact (hrule pid).2 r hr

theorem Tallies.handled (h : s.Tallies params ticked) (hpos : 1 ≤ params.demotionThreshold)
    (hcall : call.Within (· = .priorityAging params)) (hticks : call.request.ticks = false) :
    (s.afterCall call).Tallies params ticked := by
  have hages := hcall.agesByRule fun policy heq =>
    heq ▸ PolicyKind.agesByRule_build .priorityAging params
  refine ⟨h.settled.afterCall hages, policy_afterCall h.policy_eq hcall, ?_, ?_, h.followed⟩
  · intro pid q hq
    obtain ⟨p, hp, hstanding⟩ | ⟨rfl, hstanding⟩ := standing_afterCall h.settled hticks hq
    · rw [hstanding]
      exact h.tallied pid p hp
    · rw [hstanding, h.unsubmitted _ (Nat.le_refl _)]
      exact tallied_zero hpos _
  · exact unsubmitted_afterCall h.settled hages h.unsubmitted

theorem Tallies.afterCalls (h : s.Tallies params ticked) (hpos : 1 ≤ params.demotionThreshold)
    (hword : params.demotionThreshold < UInt32.size)
    (hcalls : ∀ call ∈ calls, call.Within (· = .priorityAging params)) :
    (s.afterCalls calls).Tallies params (ticked ++ s.ticking calls) :=
  ticking_induction (P := fun ticked s => s.Tallies params ticked)
    (fun _ _ hm => hm.tick hpos hword)
    (fun call hmem hticks _ _ hs => hs.handled hpos (hcalls call hmem) hticks) h

end Scheduler

/-! ## Policies that keep the levels -/

/-- The later record of a process that did not change its level. -/
def Process.SameLevel (p q : Process) : Prop := q.priority = p.priority

theorem Process.SameLevel.refl (p : Process) : p.SameLevel p := rfl

namespace Machine

variable {m : Machine}

/-- A tick leaves every process at its level. -/
theorem priority_tick (h : m.scheduler.Settled) (hpolicy : m.scheduler.policy.KeepsLevels) :
    m.scheduler.processes.Related (fun _ => Process.SameLevel)
      m.tick.state.scheduler.processes := by
  have hpolicy' : m.atDispatch.policy.KeepsLevels := m.policy_atDispatch.symm ▸ hpolicy
  intro pid
  refine (ticked_get? h pid).imp_right ?_
  rintro ⟨p, q, hp, hq, -⟩
  refine ⟨p, q, hp, hq, ?_⟩
  have hdispatch : m.atDispatch.processes.get? pid = some p := by
    rw [processes_atDispatch hpolicy.age_eq]
    exact hp
  obtain ⟨q', hq', hstanding⟩ := exists_standing_tick hpolicy.builtIn hdispatch
  rw [hq] at hq'
  cases hq'
  refine (congrArg Prod.fst hstanding).trans ?_
  rw [Scheduler.standingAfter]
  split
  · rw [Process.standing, Scheduler.priority_afterExpiry, hpolicy'.levelAfterExpiry_eq]
  · split <;> rfl

theorem priority_run (h : m.scheduler.Settled) (hpolicy : m.scheduler.policy.KeepsLevels)
    (maxTicks : Nat) :
    m.scheduler.processes.Related (fun _ => Process.SameLevel)
      (m.run maxTicks).state.scheduler.processes := by
  refine settled_run_induction (m := m) (P := fun m' =>
    m.scheduler.processes.Related (fun _ => Process.SameLevel) m'.scheduler.processes) h ?_
    (.refl (fun _ => Process.SameLevel.refl) _) maxTicks
  intro m' hs hsame hrelated
  exact hrelated.trans (priority_tick hs (hsame.symm ▸ hpolicy))
    fun _ _ _ _ hpq hqr => Eq.trans hqr hpq

end Machine

namespace Scheduler

variable {s : Scheduler} {call : Call} {calls : List Call} {pid : ProcessId} {p q : Process}

/-- Under these policies a call leaves a process at its level, or reaps it. -/
theorem exists_priority_afterCall (h : s.Settled) (hpolicy : s.policy.KeepsLevels)
    (hcall : call.Within Policy.KeepsLevels) (hp : s.processes.get? pid = some p) :
    ∃ q, q.priority = p.priority ∧
      ((s.afterCall call).processes.get? pid = some q ∨
        q.snapshot pid ∈ (s.answer call).snapshots) := by
  obtain ⟨request, cpu, memory⟩ := call
  have hticked {t : ProcessTable}
      (hrelated : s.processes.Related (fun _ => Process.SameLevel) t) :
      ∃ q, p.SameLevel q ∧ t.get? pid = some q := by
    obtain ⟨q, hq, hpq⟩ := hrelated.exists_get? hp
    exact ⟨q, hpq, hq⟩
  cases hticks : request.ticks with
  | true =>
      cases request with
      | tick =>
          obtain ⟨q, hpq, hq⟩ := hticked
            (Machine.priority_tick (m := { scheduler := s, cpu, memory }) h hpolicy)
          exact ⟨q, hpq, .inl hq⟩
      | run maxTicks =>
          obtain ⟨q, hpq, hq⟩ := hticked
            (Machine.priority_run (m := { scheduler := s, cpu, memory }) h hpolicy maxTicks)
          exact ⟨q, hpq, .inl hq⟩
      | _ => cases hticks
  | false =>
      have hcalled := called_afterCall h
        (hcall.agesByRule fun _ hkeeps => hkeeps.builtIn.agesByRule)
      obtain ⟨q, hq, -⟩ | ⟨-, -, -, hmem⟩ := hcalled.lived hp (h.tame pid p hp).2
      · exact ⟨q, priority_afterCall h hticks hp hq, .inl hq⟩
      · exact ⟨p, rfl, .inr hmem⟩

/-- Under these policies a process is still at its level after any calls, or it was reaped
there. -/
theorem exists_priority_afterCalls (h : s.Settled) (hpolicy : s.policy.KeepsLevels)
    (hcalls : ∀ call ∈ calls, call.Within Policy.KeepsLevels)
    (hp : s.processes.get? pid = some p) :
    ∃ q, q.priority = p.priority ∧
      ((s.afterCalls calls).processes.get? pid = some q ∨ q.snapshot pid ∈ s.reaped calls) := by
  induction calls generalizing s p with
  | nil => exact ⟨p, rfl, .inl hp⟩
  | cons call rest ih =>
      obtain ⟨hfirst, hrest⟩ := List.forall_mem_cons.1 hcalls
      have hs := h.afterCall (hfirst.agesByRule fun _ hkeeps => hkeeps.builtIn.agesByRule)
      have hreaped : s.reaped (call :: rest) =
          (s.answer call).snapshots ++ (s.afterCall call).reaped rest := rfl
      rw [hreaped]
      obtain ⟨q, hpq, hq | hmem⟩ := exists_priority_afterCall h hpolicy hfirst hp
      · obtain ⟨r, hqr, hr⟩ := ih hs (policy_afterCall hpolicy hfirst) hrest hq
        exact ⟨r, hqr.trans hpq, hr.imp_right (List.mem_append_right _)⟩
      · exact ⟨q, hpq, .inr (List.mem_append_left _ hmem)⟩

/-! ## The whole rule -/

theorem departedDrift_new (policy : Policy) : (new policy).departedDrift = 0 := rfl

/-- Levels move as the feedback rule says.

Under priority aging with a threshold that is at least one and fits the word of the count, every
tick of a history of a new scheduler moves the level of each process by the rule, for the slices
that expired along the ticks before; there are none until the process is submitted. A call that
does not tick moves no level.

Under round robin, shortest job first and real time, whatever happened before, a process is
found or reaped at the level that it has now.

Under any built-in policies, one after the other, the processes that were reaped and those in
the table are the ones that were submitted. They stand at the levels 0 to 4, what the
demotions exceed the promotions by is how far they stand below the levels of their submission,
and these are what they were at any time before. -/
theorem levels_follow_feedback :
    (∀ params : PolicyParams, 1 ≤ params.demotionThreshold →
      params.demotionThreshold < UInt32.size → ∀ calls : List Call,
      (∀ call ∈ calls, call.Within (· = .priorityAging params)) →
      let s := new (.priorityAging params)
      (∀ before m after, s.ticking calls = before ++ m :: after →
        ∀ pid, m.FollowsFeedback params pid (expiredSlices before pid)) ∧
      (∀ pid, (s.afterCalls calls).nextPid ≤ pid → expiredSlices (s.ticking calls) pid = 0) ∧
      ∀ first call rest, calls = first ++ call :: rest → call.request.ticks = false →
        ∀ pid p q, (s.afterCalls first).processes.get? pid = some p →
          ((s.afterCalls first).afterCall call).processes.get? pid = some q →
            q.priority = p.priority) ∧
    (∀ s : Scheduler, s.Reachable → s.policy.KeepsLevels → ∀ calls : List Call,
      (∀ call ∈ calls, call.Within Policy.KeepsLevels) →
      ∀ pid p, s.processes.get? pid = some p → ∃ q, q.priority = p.priority ∧
        ((s.afterCalls calls).processes.get? pid = some q ∨
          q.snapshot pid ∈ s.reaped calls)) ∧
    ∀ policy : Policy, policy.BuiltIn → ∀ calls : List Call,
      (∀ call ∈ calls, call.Within Policy.BuiltIn) →
      let s := (new policy).afterCalls calls
      let records := (new policy).reaped calls ++ ProcessTable.snapshots s.processes
      (records.map (·.pid)).Perm ((new policy).submissions calls) ∧
      (∀ p ∈ records, p.priority.val ≤ 4) ∧
      (s.stats.demotions : Int) - s.stats.promotions =
        (records.map fun p => (p.priority.val : Int) - p.basePriority.val).sum ∧
      ∀ first rest, calls = first ++ rest → ∀ pid p,
        ((new policy).afterCalls first).processes.get? pid = some p →
          ∃ q, q.basePriority = p.basePriority ∧
            (s.processes.get? pid = some q ∨
              q.snapshot pid ∈ ((new policy).afterCalls first).reaped rest) := by
  refine ⟨?_, fun s hs hpolicy calls hcalls pid p hp => ?_, ?_⟩
  · intro params hpos hword calls hcalls s
    have h := (tallies_new params).afterCalls hpos hword hcalls
    refine ⟨h.followed, h.unsubmitted, ?_⟩
    rintro first call rest rfl hticks pid p q hp hq
    have hfirst := (tallies_new params).afterCalls hpos hword fun call hmem =>
      hcalls call (List.mem_append_left _ hmem)
    exact priority_afterCall hfirst.settled hticks hp hq
  · exact exists_priority_afterCalls hs.settled hpolicy hcalls hp
  · intro policy hpolicy calls hcalls s records
    have hages : ∀ call ∈ calls, call.AgesByRule := fun call hmem =>
      (hcalls call hmem).agesByRule fun _ => Policy.BuiltIn.agesByRule
    have hnew := settled_new hpolicy.agesByRule
    refine ⟨?_, fun p _ => Nat.le_of_lt_succ p.priority.isLt, ?_, ?_⟩
    · have hcensus := (census_new hpolicy.agesByRule).afterCalls hages
      rw [List.map_append, ProcessTable.map_pid_snapshots]
      exact hcensus.complete
    · have hdrift := departedDrift_afterCalls hnew hpolicy hcalls
      rw [departedDrift_new, departedDrift, Int.zero_add] at hdrift
      change _ = (records.map ProcessSnapshot.drift).sum
      rw [List.map_append, List.sum_append, ProcessTable.sum_drift_snapshots, ← hdrift]
      exact (Int.sub_add_cancel ..).symm
    · rintro first rest rfl pid p hp
      obtain ⟨hfirst, hrest⟩ := List.forall_mem_append.1 hages
      obtain ⟨q, hlived, hq⟩ := (hnew.afterCalls hfirst).exists_lived hrest hp
      rw [← afterCalls_append] at hq
      exact ⟨q, hlived.basePriority_eq, hq.imp_right fun hgone => hgone.2.2⟩

/-- Three loops at the levels 1, 3 and 4. The second slice of the first one lowers it, while the
other two are raised. Under round robin it keeps its level. -/
theorem levels_follow_feedback_of_three_loops :
    let params : PolicyParams := { baseQuantum := 1, agingThreshold := 1, demotionThreshold := 2 }
    let loop : Program := .ofList [.jump 0]
    let tick : Call := { request := .tick, cpu := { powered := true } }
    let submit : List Call :=
      [{ request := .submitAt loop 1 }, { request := .submitAt loop 3 },
        { request := .submitAt loop 4 }, { request := .start }]
    let calls := submit ++ [tick, tick]
    let s := (new (.priorityAging params)).afterCalls submit
    let first := s.on tick
    let second := (s.afterCall tick).on tick
    let t := (new (.roundRobin params)).afterCalls submit
    (1 ≤ params.demotionThreshold ∧ params.demotionThreshold < UInt32.size ∧
      (∀ call ∈ calls, call.Within (· = .priorityAging params)) ∧
      second.FollowsFeedback params 1 (expiredSlices [first] 1)) ∧
    (expiredSlices [first] 1 = 1 ∧ second.tick.result = .ran 1 2 .ready ∧
      second.atDispatch.level? 1 = some 1 ∧ second.tick.state.scheduler.level? 1 = some 2 ∧
      second.atDispatch.level? 2 = some 2 ∧ second.scheduler.level? 2 = some 3) ∧
    (t.Reachable ∧ t.policy.KeepsLevels ∧
      ∃ q, q.priority = 1 ∧ ((t.afterCalls [tick, tick]).processes.get? 1 = some q ∨
        q.snapshot 1 ∈ t.reaped [tick, tick])) ∧
    let final := (new (.priorityAging params)).afterCalls calls
    let records := (new (.priorityAging params)).reaped calls ++
      ProcessTable.snapshots final.processes
    (final.stats.demotions = 1 ∧ final.stats.promotions = 2 ∧
      (records.map fun p => (p.priority.val : Int) - p.basePriority.val).sum = -1) := by
  intro params loop tick submit calls s first second t
  have hwithin {P : Policy → Prop} {l : List Call} (hl : l ⊆ calls) :
      ∀ call ∈ l, call.Within P := by
    intro call hcall
    have hmem := hl hcall
    simp only [calls, submit, List.cons_append, List.nil_append, List.mem_cons, List.not_mem_nil,
      or_false] at hmem
    rcases hmem with rfl | rfl | rfl | rfl | rfl | rfl <;> trivial
  have hlater : [tick, tick] ⊆ calls := List.subset_append_right ..
  obtain ⟨hrule, hkept, hdrift⟩ := levels_follow_feedback
  have hword : params.demotionThreshold < UInt32.size := by decide
  have haging : (Policy.priorityAging params).BuiltIn := ⟨.priorityAging, params, rfl⟩
  have hround : t.policy.KeepsLevels := ⟨params, .inl rfl⟩
  have hreachable : t.Reachable := by
    refine Reachable.afterCalls (.new hround.builtIn.agesByRule) fun call hcall => ?_
    have hbuiltIn : call.Within Policy.BuiltIn :=
      hwithin (List.subset_append_left ..) call hcall
    exact hbuiltIn.agesByRule fun _ => Policy.BuiltIn.agesByRule
  obtain ⟨hfollowed, -, -⟩ := hrule params (by decide) hword calls (hwithin (List.Subset.refl _))
  obtain ⟨-, -, hsum, -⟩ := hdrift _ haging calls (hwithin (List.Subset.refl _))
  have hone : t.level? 1 = some 1 := by decide +kernel
  obtain ⟨p, hp, hlevel⟩ := Option.map_eq_some_iff.1 hone
  obtain ⟨q, hq, hfound⟩ := hkept t hreachable hround [tick, tick] (hwithin hlater) 1 p hp
  have hdemotions : ((new (.priorityAging params)).afterCalls calls).stats.demotions = 1 := by
    decide +kernel
  have hpromotions : ((new (.priorityAging params)).afterCalls calls).stats.promotions = 2 := by
    decide +kernel
  refine ⟨⟨by decide, hword, hwithin (List.Subset.refl _), hfollowed [first] second [] rfl 1⟩, ?_,
    ⟨hreachable, hround, q, hq.trans hlevel, hfound⟩, hdemotions, hpromotions, ?_⟩
  · decide +kernel
  · rw [hdemotions, hpromotions] at hsum
    exact hsum.symm

end Scheduler

end Timeshare
