import Timeshare.Proofs.Scheduler.Transitions

/-!
# No process is lost

The census of a scheduler consists of the numbers that were given away and of the snapshots
that were reaped. Each call adds to them what it answers, and they stay complete: every
number is that of a process in the table or of one that was reaped, and of one only
(`Scheduler.Census.called`). No process is running between two calls, so of the allowed moves
three are left from one call to the next (`ProcessState.Goes.canPassTo`), and one that has
terminated does not change any more (`Scheduler.Called.passes`).
-/

namespace Timeshare

/-- Whether an operation may find a process in the first state and leave it in the second. -/
def ProcessState.canPassTo : ProcessState → ProcessState → Bool
  | ready, waiting => true
  | ready, terminated => true
  | waiting, ready => true
  | _, _ => false

/-- The moves into the running state and out of it are seen together, as one. -/
theorem ProcessState.Goes.canPassTo {old new : ProcessState} (h : old.Goes new)
    (hold : old ≠ running) (hnew : new ≠ running) : new = old ∨ old.canPassTo new = true := by
  cases h with
  | stays => exact .inl rfl
  | moves hmove =>
      cases new with
      | running => exact absurd rfl hnew
      | terminated => exact absurd (canMoveTo_eq_true_terminated hmove) hold
      | waiting =>
          -- Only a running process begins to wait.
          cases old with
          | running => exact absurd rfl hold
          | ready | waiting | terminated => cases hmove
      | ready =>
          cases old with
          | running => exact absurd rfl hold
          | ready => exact .inl rfl
          | waiting => exact .inr rfl
          | terminated =>
              rw [canMoveTo_terminated] at hmove
              cases hmove
  | runs hruns =>
      obtain rfl := canMoveTo_running_iff.1 hruns.1
      cases new with
      | running => exact absurd rfl hnew
      | ready => exact .inl rfl
      | waiting | terminated => exact .inr rfl

/-- The counts of the four states add up to the number of all processes. -/
theorem ProcessTable.total_counts (t : ProcessTable) : t.counts.total = t.keys.length := by
  have htotal : ∀ l : List Process,
      l.countP (·.state == .ready) + l.countP (·.state == .running) +
        l.countP (·.state == .waiting) + l.countP (·.state == .terminated) = l.length := by
    intro l
    induction l with
    | nil => rfl
    | cons p rest ih =>
        simp only [List.countP_cons, List.length_cons]
        cases p.state <;> simp <;> omega
  have hlength : t.keys.length = t.values.length := by simp [Table.keys, Table.values]
  rw [hlength]
  exact htotal t.values

/-! ## From call to call -/

/-- What an operation may make of the record of a process that it leaves in the table. -/
structure Process.Passes (p q : Process) : Prop where
  state : q.state = p.state ∨ p.state.canPassTo q.state = true
  terminated : p.state = .terminated → q = p

namespace Scheduler

variable {s s' : Scheduler} {call : Call} {calls : List Call} {pid : ProcessId} {p : Process}
  {outcomes : List TickOutcome} {answer : MachineAnswer} {submitted : List ProcessId}
  {reaped : List ProcessSnapshot}

/-- A call leaves a process in the table, in a state to which it may pass, or reaps it. -/
theorem Called.passes (h : s.Called s' answer outcomes) (hs : s.Settled) (hs' : s'.Settled)
    (hp : s.processes.get? pid = some p) :
    (∃ q, s'.processes.get? pid = some q ∧ p.Passes q) ∨
    (s'.processes.get? pid = none ∧ p.state = .terminated ∧ answer = .reaped s.reap.result ∧
      p.snapshot pid ∈ s.reap.result) := by
  have hpasses : ∀ {q}, s'.processes.get? pid = some q → (p.state = .terminated → q = p) →
      p.Passes q := fun hq hterminated =>
    ⟨(h.goes hs hp hq).canPassTo (hs.tame pid p hp).1 (hs'.tame pid _ hq).1, hterminated⟩
  cases h with
  | submitted hprocesses =>
      have hq : s'.processes.get? pid = some p := by
        rw [hprocesses, Table.get?_insert_of_ne _ (Nat.ne_of_gt (hs.tame pid p hp).2), hp]
      exact .inl ⟨p, hq, hpasses hq fun _ => rfl⟩
  | reaped =>
      obtain hkept | ⟨hgone, hstate, hmem⟩ := reap_cases hp
      · exact .inl ⟨p, hkept, hpasses hkept fun _ => rfl⟩
      · exact .inr ⟨hgone, hstate, rfl, hmem⟩
  | handled hrelated =>
      obtain ⟨q, hq, hpq⟩ := hrelated.exists_get? hp
      exact .inl ⟨q, hq, hpasses hq hpq.eq_of_terminated⟩
  | ticked hrelated =>
      obtain ⟨q, hq, hpq⟩ := hrelated.exists_get? hp
      exact .inl ⟨q, hq, hpasses hq fun hstate => hpq.eq_of_not_ready (by simp [hstate])⟩

/-! ## The census -/

/-- The numbers were given away in their order, and each of them is that of one process in
the table or of one that was reaped. -/
structure Census (submitted : List ProcessId) (reaped : List ProcessSnapshot) (s : Scheduler) :
    Prop where
  settled : s.Settled
  nextPid_eq : s.nextPid = submitted.length + 1
  submitted_eq : submitted = List.range' 1 submitted.length
  complete : (reaped.map (·.pid) ++ s.processes.keys).Perm submitted
  terminated : ∀ snapshot ∈ reaped, snapshot.state = .terminated

theorem census_new {policy : Policy} (h : policy.AgesByRule) : (new policy).Census [] [] where
  settled := settled_new h
  nextPid_eq := rfl
  submitted_eq := rfl
  complete := .nil
  terminated := List.forall_mem_nil _

theorem map_pid_reap (s : Scheduler) :
    s.reap.result.map (·.pid) = (s.processes.filter fun _ p => p.isTerminated).keys := by
  simp only [reap, ProcessTable.snapshots, List.map_map, Table.keys]
  rfl

/-- A call keeps the census complete with what it answers. -/
theorem Census.called (h : s.Census submitted reaped) (hc : s.Called s' answer outcomes)
    (hs' : s'.Settled) :
    s'.Census (submitted ++ answer.submissions) (reaped ++ answer.snapshots) := by
  cases hc with
  | @submitted _ p hprocesses hnext =>
      simp only [MachineAnswer.submissions, MachineAnswer.snapshots, List.append_nil]
      refine ⟨hs', ?_, ?_, ?_, h.terminated⟩
      · rw [hnext, h.nextPid_eq, List.length_append, List.length_singleton]
      · rw [List.length_append, List.length_singleton, List.range'_concat, ← h.submitted_eq,
          h.nextPid_eq, Nat.one_mul, Nat.add_comm 1]
      · rw [hprocesses]
        have hkeys := (Table.keys_insert_of_absent h.settled.get?_nextPid p).append_left
          (reaped.map (·.pid))
        exact (hkeys.trans List.perm_middle).trans
          ((h.complete.cons s.nextPid).trans (List.perm_append_singleton ..).symm)
  | reaped =>
      simp only [MachineAnswer.submissions, MachineAnswer.snapshots, List.append_nil]
      refine ⟨hs', h.nextPid_eq, h.submitted_eq, ?_, ?_⟩
      · rw [List.map_append, map_pid_reap, List.append_assoc]
        have hkeys := s.processes.keys_filter_perm fun _ p => p.isTerminated
        exact (hkeys.append_left _).trans h.complete
      · refine List.forall_mem_append.2 ⟨h.terminated, fun snapshot hmem => ?_⟩
        obtain ⟨pid, p, -, hstate, rfl⟩ := mem_reap_iff.1 hmem
        exact hstate
  | handled hrelated hnext hsubmissions hsnapshots =>
      rw [hsubmissions, hsnapshots, List.append_nil, List.append_nil]
      refine ⟨hs', hnext.trans h.nextPid_eq, h.submitted_eq, ?_, h.terminated⟩
      rw [hrelated.keys_eq]
      exact h.complete
  | ticked hrelated hnext hsubmissions hsnapshots =>
      rw [hsubmissions, hsnapshots, List.append_nil, List.append_nil]
      refine ⟨hs', hnext.trans h.nextPid_eq, h.submitted_eq, ?_, h.terminated⟩
      rw [hrelated.keys_eq]
      exact h.complete

theorem Census.afterCalls (h : s.Census submitted reaped)
    (hcalls : ∀ call ∈ calls, call.AgesByRule) :
    (s.afterCalls calls).Census (submitted ++ s.submissions calls)
      (reaped ++ s.reaped calls) := by
  induction calls generalizing s submitted reaped with
  | nil =>
      rw [submissions, Scheduler.reaped, answers, List.flatMap_nil, List.flatMap_nil,
        List.append_nil, List.append_nil]
      exact h
  | cons call rest ih =>
      obtain ⟨hfirst, hrest⟩ := List.forall_mem_cons.1 hcalls
      have hnext := h.called (called_afterCall h.settled hfirst) (h.settled.afterCall hfirst)
      rw [submissions, Scheduler.reaped, answers, List.flatMap_cons, List.flatMap_cons,
        ← List.append_assoc, ← List.append_assoc]
      exact ih hnext hrest

/-- Every submission is answered with a number. -/
theorem length_submissions (s : Scheduler) (calls : List Call) :
    (s.submissions calls).length = calls.countP (·.request.submits?.isSome) := by
  induction calls generalizing s with
  | nil => rfl
  | cons call rest ih =>
      have hfirst : (s.answer call).submissions.length =
          if call.request.submits?.isSome then 1 else 0 := by
        obtain ⟨request, cpu, memory⟩ := call
        cases request <;> rfl
      rw [submissions, answers, List.flatMap_cons, List.length_append, hfirst, List.countP_cons,
        Nat.add_comm]
      exact congrArg (· + _) (ih _)

theorem unknown_of_absent (h : s.processes.get? pid = none) :
    ProcessTable.snapshot? s.processes pid = none ∧
      s.wake pid = ⟨.error (.unknownProcess pid), s, #[]⟩ ∧
      s.kill pid = ⟨.error (.unknownProcess pid), s, #[]⟩ := by
  simp [ProcessTable.snapshot?, wake, kill, h]

/-- After any history of a new scheduler, no process was lost, duplicated or revived. The
numbers that were given away strictly increase, one for each submission. Each of them is that
of a process in the table, or it was reaped once, in the terminated state; so the processes
that are counted and those that were reaped are as many as were submitted. The next call
takes a process from the ready state to the waiting or the terminated one, from the waiting
to the ready one, or leaves its state; a record that has terminated stays as it is until
it is reaped. What was reaped at any time is not known any more. -/
theorem no_process_is_lost {policy : Policy} (hpolicy : policy.AgesByRule) {calls : List Call}
    (hcalls : ∀ call ∈ calls, call.AgesByRule) :
    let s := (new policy).afterCalls calls
    let submitted := (new policy).submissions calls
    let reaped := (new policy).reaped calls
    submitted.Pairwise (· < ·) ∧
    submitted.length = calls.countP (·.request.submits?.isSome) ∧
    (reaped.map (·.pid) ++ s.processes.keys).Perm submitted ∧
    (∀ snapshot ∈ reaped, snapshot.state = .terminated) ∧
    (ProcessTable.counts s.processes).total + reaped.length = submitted.length ∧
    (∀ call : Call, call.AgesByRule → ∀ pid p, s.processes.get? pid = some p →
      (∃ q, (s.afterCall call).processes.get? pid = some q ∧
        (q.state = p.state ∨ p.state.canPassTo q.state = true) ∧
        (p.state = .terminated → q = p)) ∨
      ((s.afterCall call).processes.get? pid = none ∧ p.state = .terminated ∧
        s.answer call = .reaped s.reap.result ∧ p.snapshot pid ∈ s.reap.result)) ∧
    ∀ pid ∈ reaped.map (·.pid),
      ProcessTable.snapshot? s.processes pid = none ∧
        s.wake pid = ⟨.error (.unknownProcess pid), s, #[]⟩ ∧
        s.kill pid = ⟨.error (.unknownProcess pid), s, #[]⟩ := by
  intro s submitted reaped
  have h : s.Census submitted reaped := (census_new hpolicy).afterCalls hcalls
  have hincreasing : submitted.Pairwise (· < ·) := by
    rw [h.submitted_eq]
    exact List.pairwise_lt_range'
  refine ⟨hincreasing, length_submissions _ _, h.complete, h.terminated, ?_, ?_, ?_⟩
  · have hlength := h.complete.length_eq
    rw [List.length_append, List.length_map] at hlength
    rw [ProcessTable.total_counts, Nat.add_comm]
    exact hlength
  · intro call hcall pid p hp
    have hcalled := called_afterCall h.settled hcall
    refine (hcalled.passes h.settled (h.settled.afterCall hcall) hp).imp_left ?_
    rintro ⟨q, hq, hpasses⟩
    exact ⟨q, hq, hpasses.state, hpasses.terminated⟩
  · intro pid hmem
    refine unknown_of_absent ?_
    -- Otherwise the number would be listed twice among those that were given away.
    have hnodup : (reaped.map (·.pid) ++ s.processes.keys).Nodup :=
      h.complete.nodup_iff.2 (hincreasing.imp Nat.ne_of_lt)
    cases hp : s.processes.get? pid with
    | none => rfl
    | some p =>
        have hkey : pid ∈ s.processes.keys := Table.mem_keys_iff.2 ⟨p, hp⟩
        exact absurd rfl ((List.nodup_append.1 hnodup).2.2 pid hmem pid hkey)

/-- A process that halts is reaped, then one that is killed while it waits; a third one goes
on, and a fourth one is given a new number. -/
theorem no_process_is_lost_of_two_reaps :
    let cpu : Cpu := { powered := true }
    let calls : List Call :=
      [{ request := .submit (.ofList [.halt]) }, { request := .submit (.ofList [.wait, .halt]) },
        { request := .submit (.ofList [.jump 0]) }, { request := .start },
        { request := .run 3, cpu }, { request := .reap }, { request := .kill 2 },
        { request := .run 3, cpu }, { request := .reap },
        { request := .submit (.ofList [.halt]) }]
    let policy := PolicyKind.roundRobin.build { baseQuantum := 2 }
    let s := (new policy).afterCalls calls
    let reaped := (new policy).reaped calls
    policy.AgesByRule ∧ (∀ call ∈ calls, call.AgesByRule) ∧
      (new policy).submissions calls = [1, 2, 3, 4] ∧ reaped.map (·.pid) = [1, 2] ∧
      s.processes.keys = [3, 4] ∧
      (ProcessTable.counts s.processes).total + reaped.length = 4 ∧
      (s.wake 2).state = s ∧ (s.kill 1).result = .error (.unknownProcess 1) := by
  intro cpu calls policy
  have hpolicy : policy.AgesByRule := PolicyKind.agesByRule_build .roundRobin { baseQuantum := 2 }
  have hcalls : ∀ call ∈ calls, call.AgesByRule := by
    intro call hcall
    simp only [calls, List.mem_cons, List.not_mem_nil, or_false] at hcall
    rcases hcall with rfl | rfl | rfl | rfl | rfl | rfl | rfl | rfl | rfl | rfl <;> trivial
  have hpids : ((new policy).reaped calls).map (·.pid) = [1, 2] := by decide +kernel
  obtain ⟨-, -, -, -, htotal, -, hunknown⟩ := no_process_is_lost hpolicy hcalls
  have hone := (hunknown 1 (by rw [hpids]; simp)).2.2
  have htwo := (hunknown 2 (by rw [hpids]; simp)).2.1
  exact ⟨hpolicy, hcalls, by decide +kernel, hpids, by decide +kernel,
    htotal.trans (by decide +kernel), by rw [htwo], by rw [hone]⟩

end Scheduler

end Timeshare
