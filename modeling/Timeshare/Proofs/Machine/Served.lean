import Timeshare.Proofs.Machine.Steps
import Timeshare.Proofs.Policy.HeadFirst

/-!
# Ticks that serve the head of the queues

Under a policy that serves the queues from their heads, a tick takes the head of the highest
queue out of it, or leaves the queues as they are; `ReadyQueues.Served` lists what becomes of
the queues with the outcome of the tick. Nothing else shortens a queue, and what arrives
between the ticks does so at the tails. So the order of a queue is kept: whoever is behind a
process in its queue waits for it (`Machine.Serves.inOrder_afterAll`).
-/

namespace Timeshare

namespace ReadyQueues

variable {q q' : ReadyQueues} {t : ProcessTable} {keeps : Priority → Bool} {outcome : TickOutcome}
  {level other : Priority} {pid x y : ProcessId} {rest pids : List ProcessId} {retired : Nat}

theorem Accounts.level_unique (h : q.Accounts t) (hx : x ∈ q.level level)
    (hx' : x ∈ q.level other) : level = other := by
  obtain ⟨p, hp, -, rfl⟩ := h.mem_level_iff.1 hx
  obtain ⟨p', hp', -, rfl⟩ := h.mem_level_iff.1 hx'
  rw [hp] at hp'
  cases hp'
  rfl

theorem Accounts.nodup_level (h : q.Accounts t) (level : Priority) : (q.level level).Nodup := by
  rw [List.nodup_iff_count]
  intro x
  rw [h]
  exact ProcessTable.share_le_one

/-! ## Serving the head -/

/-- What a tick that serves the head of the highest queue makes of the queues. -/
inductive Served (keeps : Priority → Bool) (q : ReadyQueues) : TickOutcome → ReadyQueues → Prop
  | stopped : Served keeps q .stopped q
  | idle (hempty : ∀ level, q.level level = []) : Served keeps q .idle q
  | putBack {level : Priority} {pid : ProcessId} {rest : List ProcessId}
      (hhead : q.HeadAt level pid rest) : Served keeps q (.cpuUnavailable pid) q
  | left {level : Priority} {pid : ProcessId} {rest : List ProcessId} {state : ProcessState}
      (hhead : q.HeadAt level pid rest) (hstate : state ≠ .ready) (retired : Nat) :
      Served keeps q (.ran pid retired state) (q.setLevel level rest)
  | requeued {level : Priority} {pid : ProcessId} {rest : List ProcessId}
      (hhead : q.HeadAt level pid rest) (retired : Nat) :
      Served keeps q (.ran pid retired .ready)
        (q.setLevel level (if keeps level then pid :: rest else rest ++ [pid]))

/-- The head goes back to its place, or behind the others of its level. -/
theorem HeadAt.requeued_eq (h : q.HeadAt level pid rest) (keep : Bool) :
    (if keep then (q.remove pid).pushFront level pid else (q.remove pid).pushBack level pid) =
      q.setLevel level (if keep then pid :: rest else rest ++ [pid]) := by
  rw [h.remove_eq, pushFront_setLevel, pushBack_setLevel]
  split <;> rfl

theorem Served.exists_headAt (h : q.Served keeps outcome q')
    (hchosen : outcome.chosen? = some pid) : ∃ level rest, q.HeadAt level pid rest := by
  cases h with
  | stopped | idle => cases hchosen
  | putBack hhead | left hhead | requeued hhead =>
      cases hchosen
      exact ⟨_, _, hhead⟩

/-! ## Order in a queue -/

/-- The processes are queued at the level in this order, perhaps with others in between. -/
def InOrder (q : ReadyQueues) (level : Priority) (pids : List ProcessId) : Prop :=
  pids.Sublist (q.level level)

theorem inOrder_singleton : q.InOrder level [x] ↔ x ∈ q.level level :=
  List.singleton_sublist

theorem InOrder.mem (h : q.InOrder level pids) (hx : x ∈ pids) : x ∈ q.level level :=
  h.subset hx

theorem InOrder.mono (h : q.InOrder level pids) (hq : q.level level <+: q'.level level) :
    q'.InOrder level pids :=
  h.trans hq.sublist

/-- Those behind a process that is not taken out keep their order. -/
theorem HeadAt.inOrder_tail (h : q.HeadAt level pid rest) (hpids : q.InOrder other (x :: pids))
    (hx : pid ≠ x) : (q.setLevel level rest).InOrder other (x :: pids) := by
  rw [InOrder, level_setLevel]
  split
  next heq =>
    subst heq
    rw [InOrder, h.level_eq] at hpids
    obtain hsub | ⟨r, hr, -⟩ := List.sublist_cons_iff.1 hpids
    · exact hsub
    · exact absurd (List.cons.inj hr).1.symm hx
  next => exact hpids

/-- Whoever is behind another process is not the head. -/
theorem HeadAt.not_mem_of_inOrder (h : q.HeadAt level pid rest) (ha : q.Accounts t)
    (hpids : q.InOrder other (x :: pids)) : pid ∉ pids := by
  intro hmem
  have hlevel := ha.level_unique h.mem (hpids.mem (List.mem_cons_of_mem x hmem))
  have hnodup := ha.nodup_level level
  -- The head would be queued once more, behind `x`.
  have hne : pid ≠ x := by
    rintro rfl
    rw [hlevel] at hnodup
    exact (List.nodup_cons.1 (hnodup.sublist hpids)).1 hmem
  have htail := (h.inOrder_tail hpids hne).mem (List.mem_cons_of_mem x hmem)
  rw [← hlevel, level_setLevel_self] at htail
  rw [h.level_eq] at hnodup
  exact (List.nodup_cons.1 hnodup).1 htail

theorem Served.runs_eq_false (h : q.Served keeps outcome q') (ha : q.Accounts t)
    (hpids : q.InOrder level (x :: pids)) (hy : y ∈ pids) : outcome.runs y = false := by
  have hne : ∀ {head pid rest}, q.HeadAt head pid rest → (pid == y) = false := by
    intro head pid rest hhead
    refine beq_eq_false_iff_ne.2 ?_
    rintro rfl
    exact hhead.not_mem_of_inOrder ha hpids hy
  cases h with
  | stopped | idle | putBack => rfl
  | left hhead | requeued hhead => exact hne hhead

/-- The order of those behind a process is kept by a tick that does not dispatch it. -/
theorem Served.inOrder (h : q.Served keeps outcome q') (hpids : q.InOrder level (x :: pids))
    (hx : outcome.runs x = false) : q'.InOrder level (x :: pids) := by
  cases h with
  | stopped | idle | putBack => exact hpids
  | left hhead => exact hhead.inOrder_tail hpids (beq_eq_false_iff_ne.1 hx)
  | @requeued head pid rest hhead =>
      have htail := hhead.inOrder_tail hpids (beq_eq_false_iff_ne.1 hx)
      rw [InOrder, level_setLevel] at htail ⊢
      split
      next heq =>
        -- Wherever the head goes, those that were behind it remain in their order.
        rw [if_pos heq] at htail
        refine htail.trans ?_
        split
        · exact List.sublist_cons_self ..
        · exact List.sublist_append_left ..
      next hne => rwa [if_neg hne] at htail

end ReadyQueues

/-- A process whose slice expired is queued again at its own level. -/
theorem Scheduler.filedQueues_of_headFirst {s : Scheduler} {keeps : Priority → Bool}
    (h : s.policy.HeadFirst keeps) (pid : ProcessId) (p : Process) :
    s.filedQueues pid p (.ok .sliceExpired) =
      if keeps p.priority then s.queues.pushFront p.priority pid
      else s.queues.pushBack p.priority pid := by
  have hpriority : (s.filed p (.ok .sliceExpired)).priority = p.priority := by
    simp only [filed, afterExpiry]
    split
    · rfl
    · exact h.level_eq _
  simp only [filedQueues, h.requeue_eq, hpriority]

namespace Machine

variable {m m' : Machine} {keeps : Priority → Bool} {outcome : TickOutcome} {level : Priority}
  {pid x : ProcessId} {p : Process} {pids : List ProcessId} {request : MachineRequest}
  {requests : List MachineRequest}

/-- The machine is between two requests and serves the queues from their heads. -/
structure Serves (keeps : Priority → Bool) (m : Machine) : Prop where
  settled : m.scheduler.Settled
  headFirst : m.scheduler.policy.HeadFirst keeps

theorem Serves.after (h : m.Serves keeps) (hr : request.isStep = true) :
    (m.after request).Serves keeps := by
  refine ⟨settled_after h.settled (MachineRequest.agesByRule_of_isStep hr), ?_⟩
  rw [policy_after m hr]
  exact h.headFirst

theorem Serves.afterAll (h : m.Serves keeps) (hr : ∀ request ∈ requests, request.isStep = true) :
    (m.afterAll requests).Serves keeps := by
  induction requests generalizing m with
  | nil => exact h
  | cons request rest ih =>
      obtain ⟨hfirst, hrest⟩ := List.forall_mem_cons.1 hr
      exact ih (h.after hfirst) hrest

/-! ## What a tick does to the queues -/

/-- The process that the policy chooses is ready, and the head of the queue of its level. -/
theorem Serves.exists_headAt (h : m.Serves keeps) (hchoice : m.scheduler.choice? = some pid) :
    ∃ p rest, m.scheduler.processes.get? pid = some p ∧ p.state = .ready ∧
      m.scheduler.queues.HeadAt p.priority pid rest := by
  have hhead : m.scheduler.queues.head? = some pid :=
    (h.headFirst.select_eq _ _).symm.trans hchoice
  obtain ⟨level, rest, hat⟩ := ReadyQueues.exists_headAt hhead
  obtain ⟨p, hp, hready, rfl⟩ := h.settled.accounts.mem_level_iff.1 hat.mem
  exact ⟨p, rest, hp, hready, hat⟩

theorem Serves.headAt_of_get? (h : m.Serves keeps) (hchoice : m.scheduler.choice? = some pid)
    (hp : m.scheduler.processes.get? pid = some p) :
    ∃ rest, m.scheduler.queues.HeadAt p.priority pid rest := by
  obtain ⟨p', rest, hp', -, hat⟩ := h.exists_headAt hchoice
  rw [hp] at hp'
  cases hp'
  exact ⟨rest, hat⟩

theorem Serves.served_dispatched (h : m.Serves keeps) (hd : m.Dispatched outcome m') :
    m.scheduler.queues.Served keeps outcome m'.scheduler.queues := by
  cases hd with
  | idle hchoice =>
      have hnone : m.scheduler.queues.head? = none :=
        (h.headFirst.select_eq _ _).symm.trans hchoice
      exact .idle (ReadyQueues.level_eq_nil_of_head? hnone)
  | discarded hchoice hnot =>
      obtain ⟨p, -, hp, hready, -⟩ := h.exists_headAt hchoice
      exact absurd hready (hnot p hp)
  | @killed pid p hchoice hp =>
      obtain ⟨rest, hat⟩ := h.headAt_of_get? hchoice hp
      change m.scheduler.queues.Served keeps _ (m.scheduler.queues.remove pid)
      rw [hat.remove_eq]
      exact .left hat (by simp) 0
  | @putBack pid p hchoice hp =>
      obtain ⟨rest, hat⟩ := h.headAt_of_get? hchoice hp
      change m.scheduler.queues.Served keeps _
        ((m.scheduler.queues.remove pid).pushFront p.priority pid)
      rw [hat.pushFront_remove]
      exact .putBack hat
  | @ran pid p hchoice hp =>
      obtain ⟨rest, hat⟩ := h.headAt_of_get? hchoice hp
      rw [Scheduler.state_settle]
      generalize (m.slice p).workspace.context = context
      rcases m.sliceExit p with e | outcome
      · simp only [Scheduler.filedQueues, Scheduler.take, hat.remove_eq]
        exact .left hat (by simp [Scheduler.filed]) _
      · cases outcome with
        | halted | waiting =>
            simp only [Scheduler.filedQueues, Scheduler.take, hat.remove_eq]
            exact .left hat (by simp [Scheduler.filed]) _
        | sliceExpired =>
            have hfiled := Scheduler.filedQueues_of_headFirst (s := m.scheduler.take pid)
              h.headFirst pid (p.afterRun context)
            have hserved : m.scheduler.queues.Served keeps _ _ :=
              .requeued hat (context.retired - p.context.retired)
            rw [← hat.requeued_eq] at hserved
            rw [hfiled]
            exact hserved

theorem Serves.served_tick (h : m.Serves keeps) :
    m.scheduler.queues.Served keeps m.tick.result m.tick.state.scheduler.queues := by
  have hbegun : m.begun.Serves keeps := by
    refine ⟨h.settled.honourStop.beginTick, ?_⟩
    rw [m.policy_begun]
    exact h.headFirst
  rcases ticked_tick m with ⟨-, hresult, hstate⟩ | ⟨-, hd⟩
  · rw [hresult, hstate, Scheduler.state_honourStop]
    exact .stopped
  · have hserved := hbegun.served_dispatched hd
    rwa [(begun_of_idle h.headFirst.age_eq).1] at hserved

/-! ## What a history does to the queues -/

/-- A step of a history is a tick, or it adds to the queues at their tails. -/
theorem Serves.step (h : m.Serves keeps) (hr : request.isStep = true) :
    request = .tick ∨ m.outcomesOf request = [] ∧ ∀ level,
      m.scheduler.queues.level level <+: (m.after request).scheduler.queues.level level := by
  cases request with
  | setPolicy | run => cases hr
  | tick => exact .inl rfl
  | power | requestStop => exact .inr ⟨rfl, fun _ => List.prefix_rfl⟩
  | stop =>
      have hqueues : m.scheduler.stop.state.queues = m.scheduler.queues := by
        rw [Scheduler.state_stop]
      refine .inr ⟨rfl, fun level => ?_⟩
      change _ <+: m.scheduler.stop.state.queues.level level
      simp only [hqueues, List.prefix_rfl]
  | _ => exact .inr ⟨rfl, (extends_after h.settled rfl).level⟩

theorem Serves.inOrder_after (h : m.Serves keeps) (hr : request.isStep = true)
    (hpids : m.scheduler.queues.InOrder level (x :: pids))
    (hx : ∀ outcome ∈ m.outcomesOf request, outcome.runs x = false) :
    (m.after request).scheduler.queues.InOrder level (x :: pids) ∧
      ∀ outcome ∈ m.outcomesOf request, ∀ y ∈ pids, outcome.runs y = false := by
  obtain rfl | ⟨hnone, hlevels⟩ := h.step hr
  · rw [outcomesOf, List.forall_mem_singleton] at hx ⊢
    exact ⟨h.served_tick.inOrder hpids hx,
      fun y hy => h.served_tick.runs_eq_false h.settled.accounts hpids hy⟩
  · rw [hnone]
    exact ⟨hpids.mono (hlevels level), fun _ hmem => absurd hmem List.not_mem_nil⟩

/-- As long as a process is not dispatched, those that are behind it in its queue stay
there in their order, and none of them is dispatched. -/
theorem Serves.inOrder_afterAll (h : m.Serves keeps)
    (hr : ∀ request ∈ requests, request.isStep = true)
    (hpids : m.scheduler.queues.InOrder level (x :: pids))
    (hx : ∀ outcome ∈ m.outcomes requests, outcome.runs x = false) :
    (m.afterAll requests).scheduler.queues.InOrder level (x :: pids) ∧
      ∀ outcome ∈ m.outcomes requests, ∀ y ∈ pids, outcome.runs y = false := by
  induction requests generalizing m with
  | nil => exact ⟨hpids, fun _ hmem => absurd hmem List.not_mem_nil⟩
  | cons request rest ih =>
      obtain ⟨hfirst, hrest⟩ := List.forall_mem_cons.1 hr
      obtain ⟨hnow, hlater⟩ := List.forall_mem_append.1 hx
      obtain ⟨hkept, hnone⟩ := h.inOrder_after hfirst hpids hnow
      obtain ⟨hthen, hnever⟩ := ih (h.after hfirst) hrest hkept hlater
      exact ⟨hthen, List.forall_mem_append.2 ⟨hnone, hnever⟩⟩

/-! ## Who is chosen -/

/-- The process that a tick chooses is at the highest level of all that are ready. -/
theorem Serves.le_of_chosen (h : m.Serves keeps) (hchosen : m.tick.result.chosen? = some pid) :
    ∃ p, m.scheduler.processes.get? pid = some p ∧ p.state = .ready ∧
      ∀ other r, m.scheduler.processes.get? other = some r → r.state = .ready →
        p.priority ≤ r.priority := by
  obtain ⟨level, rest, hat⟩ := h.served_tick.exists_headAt hchosen
  obtain ⟨p, hp, hready, rfl⟩ := h.settled.accounts.mem_level_iff.1 hat.mem
  refine ⟨p, hp, hready, fun other r hr hother => ?_⟩
  exact hat.le_of_mem (h.settled.accounts.mem_level_iff.2 ⟨r, hr, hother, rfl⟩)

end Machine

end Timeshare
