import Timeshare.Proofs.Machine.Ticked

/-!
# Histories of a scheduler

A scheduler uses a processor and a memory that it does not own. A `Scheduler.Call` is a
request with the processor and the memory that the scheduler finds for it, so a list of calls
is a history of the scheduler, whatever happens to the other two in between.

`Scheduler.Called` says once what a call can do: it submits one process, it reaps, it
changes some records without a tick (`Process.Handled`), or it ticks. From this follows the
life of a process over a whole history (`Scheduler.Settled.exists_lived`): its record goes
through changes of these kinds, whose ticks have the outcomes of the history, until it is
reaped.
-/

namespace Timeshare

namespace MachineRequest

/-- Whether the request ticks. -/
def ticks : MachineRequest → Bool
  | .tick | .run _ => true
  | _ => false

/-- The level at which the request submits a program. -/
def submitsAt? : MachineRequest → Option Priority
  | .submit _ => some .normal
  | .submitAt _ priority => some priority
  | _ => none

end MachineRequest

namespace MachineAnswer

/-- The number of the process that was submitted. -/
def submissions : MachineAnswer → List ProcessId
  | .submitted pid => [pid]
  | _ => []

/-- The snapshots of the processes that were reaped. -/
def snapshots : MachineAnswer → List ProcessSnapshot
  | .reaped snapshots => snapshots
  | _ => []

end MachineAnswer

namespace Scheduler

/-- A request to a scheduler, with the processor and the memory that it finds. -/
structure Call where
  request : MachineRequest
  cpu : Cpu := {}
  memory : Memory := .empty

/-- The policies that the call hands over age by the rule. -/
def Call.AgesByRule (call : Call) : Prop := call.request.AgesByRule

/-- The machine that carries out a call. -/
def on (s : Scheduler) (call : Call) : Machine :=
  { scheduler := s, cpu := call.cpu, memory := call.memory }

/-- The scheduler after a call. -/
def afterCall (s : Scheduler) (call : Call) : Scheduler :=
  ((s.on call).after call.request).scheduler

/-- The scheduler after a history of calls. -/
def afterCalls (s : Scheduler) (calls : List Call) : Scheduler := calls.foldl afterCall s

/-- The answer to a call. -/
def answer (s : Scheduler) (call : Call) : MachineAnswer :=
  ((s.on call).perform call.request).result

/-- The answers to a history of calls. -/
def answers (s : Scheduler) : List Call → List MachineAnswer
  | [] => []
  | call :: rest => s.answer call :: (s.afterCall call).answers rest

/-- The outcomes of the ticks of a history of calls. -/
def outcomes (s : Scheduler) : List Call → List TickOutcome
  | [] => []
  | call :: rest => (s.on call).outcomesOf call.request ++ (s.afterCall call).outcomes rest

/-- The numbers of the processes that were submitted in a history of calls. -/
def submissions (s : Scheduler) (calls : List Call) : List ProcessId :=
  (s.answers calls).flatMap MachineAnswer.submissions

/-- The processes that were reaped in a history of calls. -/
def reaped (s : Scheduler) (calls : List Call) : List ProcessSnapshot :=
  (s.answers calls).flatMap MachineAnswer.snapshots

variable {s s' : Scheduler} {call : Call} {calls : List Call} {pid : ProcessId}
  {outcomes : List TickOutcome} {answer : MachineAnswer}

theorem afterCalls_append (s : Scheduler) (first second : List Call) :
    s.afterCalls (first ++ second) = (s.afterCalls first).afterCalls second :=
  List.foldl_append

/-- Some history of calls leads from the one scheduler to the other. -/
def LeadsTo (s s' : Scheduler) : Prop :=
  ∃ calls : List Call, (∀ call ∈ calls, call.AgesByRule) ∧ s.afterCalls calls = s'

theorem LeadsTo.refl (s : Scheduler) : s.LeadsTo s := ⟨[], List.forall_mem_nil _, rfl⟩

theorem LeadsTo.afterCall (call : Call) (h : call.AgesByRule) : s.LeadsTo (s.afterCall call) :=
  ⟨[call], List.forall_mem_singleton.2 h, rfl⟩

theorem LeadsTo.trans {s₁ : Scheduler} (h : s.LeadsTo s') (h' : s'.LeadsTo s₁) :
    s.LeadsTo s₁ := by
  obtain ⟨first, hfirst, rfl⟩ := h
  obtain ⟨second, hsecond, rfl⟩ := h'
  exact ⟨first ++ second, List.forall_mem_append.2 ⟨hfirst, hsecond⟩,
    s.afterCalls_append first second⟩

/-- The policy that the call hands over, if it does, is one of the given ones. -/
def Call.Within (P : Policy → Prop) (call : Call) : Prop :=
  match call.request with
  | .setPolicy policy => P policy
  | _ => True

theorem Call.Within.mono {P Q : Policy → Prop} (h : call.Within P)
    (hPQ : ∀ policy, P policy → Q policy) : call.Within Q := by
  obtain ⟨request, cpu, memory⟩ := call
  cases request with
  | setPolicy policy => exact hPQ policy h
  | _ => trivial

theorem Call.Within.agesByRule {P : Policy → Prop} (h : call.Within P)
    (hP : ∀ policy, P policy → policy.AgesByRule) : call.AgesByRule := by
  obtain ⟨request, cpu, memory⟩ := call
  cases request with
  | setPolicy policy => exact hP policy h
  | _ => trivial

/-- A scheduler keeps to the policies that it is given. -/
theorem policy_afterCall {P : Policy → Prop} (h : P s.policy) (hcall : call.Within P) :
    P (s.afterCall call).policy := by
  obtain ⟨request, cpu, memory⟩ := call
  cases request with
  | setPolicy policy => exact hcall
  | run maxTicks =>
      exact Machine.run_induction (m := { scheduler := s, cpu, memory })
        (P := fun m => P m.scheduler.policy) (fun m hm => m.policy_tick ▸ hm) h maxTicks
  | _ =>
      refine (Machine.policy_after { scheduler := s, cpu, memory } ?_).symm ▸ h
      rfl

theorem policy_afterCalls {P : Policy → Prop} (h : P s.policy)
    (hcalls : ∀ call ∈ calls, call.Within P) : P (s.afterCalls calls).policy := by
  induction calls generalizing s with
  | nil => exact h
  | cons call rest ih =>
      obtain ⟨hfirst, hrest⟩ := List.forall_mem_cons.1 hcalls
      exact ih (policy_afterCall h hfirst) hrest

theorem Settled.afterCall (h : s.Settled) (hcall : call.AgesByRule) : (s.afterCall call).Settled :=
  Machine.settled_after (m := s.on call) h hcall

theorem Settled.afterCalls (h : s.Settled) (hcalls : ∀ call ∈ calls, call.AgesByRule) :
    (s.afterCalls calls).Settled := by
  induction calls generalizing s with
  | nil => exact h
  | cons call rest ih =>
      obtain ⟨hfirst, hrest⟩ := List.forall_mem_cons.1 hcalls
      exact ih (h.afterCall hfirst) hrest

theorem LeadsTo.settled (h : s.LeadsTo s') (hs : s.Settled) : s'.Settled := by
  obtain ⟨calls, hcalls, rfl⟩ := h
  exact hs.afterCalls hcalls

theorem Reachable.afterCalls (h : s.Reachable) (hcalls : ∀ call ∈ calls, call.AgesByRule) :
    (s.afterCalls calls).Reachable := by
  induction calls generalizing s with
  | nil => exact h
  | cons call rest ih =>
      obtain ⟨hfirst, hrest⟩ := List.forall_mem_cons.1 hcalls
      exact ih (h.after call.cpu call.memory hfirst) hrest

end Scheduler

/-! ## One call -/

/-- The record after a request that does not tick: a waiting process may be made ready, and
one that is ready may be marked. -/
inductive Process.Handled (p : Process) : Process → Prop
  | kept : Handled p p
  | readied (hwaiting : p.state = .waiting) (marked : Bool) (now : Nat) :
      Handled p { p with killRequested := marked, state := .ready, readySince := now }
  | marked (hready : p.state = .ready) : Handled p { p with killRequested := true }

theorem Process.Handled.eq_of_terminated {p q : Process} (h : p.Handled q)
    (hp : p.state = .terminated) : q = p := by
  cases h with
  | kept => rfl
  | readied hother | marked hother =>
      rw [hp] at hother
      cases hother

namespace Scheduler

variable {s s' : Scheduler} {call : Call} {calls : List Call} {pid : ProcessId}
  {outcomes : List TickOutcome} {answer : MachineAnswer}

/-- What a call can do, with its answer and the outcomes of its ticks. -/
inductive Called (s : Scheduler) : Scheduler → MachineAnswer → List TickOutcome → Prop
  | submitted {s' : Scheduler} {p : Process}
      (hprocesses : s'.processes = s.processes.insert s.nextPid p)
      (hnext : s'.nextPid = s.nextPid + 1) : Called s s' (.submitted s.nextPid) []
  | reaped : Called s s.reap.state (.reaped s.reap.result) []
  | handled {s' : Scheduler} {answer : MachineAnswer}
      (hrelated : s.processes.Related (fun _ => Process.Handled) s'.processes)
      (hnext : s'.nextPid = s.nextPid) (hsubmissions : answer.submissions = [])
      (hsnapshots : answer.snapshots = []) : Called s s' answer []
  | ticked {s' : Scheduler} {answer : MachineAnswer} {outcomes : List TickOutcome}
      (hrelated : s.processes.Related (fun pid p q => p.TickedAll pid outcomes q) s'.processes)
      (hnext : s'.nextPid = s.nextPid) (hsubmissions : answer.submissions = [])
      (hsnapshots : answer.snapshots = [])
      (hchosen : ∀ outcome ∈ outcomes, ∀ pid, outcome.chosen? = some pid →
        ∃ p, s.processes.get? pid = some p) : Called s s' answer outcomes

theorem handled_of_processes_eq (h : s'.processes = s.processes) :
    s.processes.Related (fun _ => Process.Handled) s'.processes := by
  rw [h]
  exact .refl (fun _ _ => .kept) _

theorem handled_wake (s : Scheduler) (pid : ProcessId) :
    s.processes.Related (fun _ => Process.Handled) (s.wake pid).state.processes := by
  obtain ⟨-, hstate⟩ | ⟨p, hp, hw, -, hstate⟩ := wake_cases s pid
  · exact handled_of_processes_eq (congrArg processes hstate)
  · rw [hstate]
    exact Table.related_insert (fun _ _ => .kept) hp (.readied hw p.killRequested s.clock)

theorem Settled.handled_kill (h : s.Settled) (pid : ProcessId) :
    s.processes.Related (fun _ => Process.Handled) (s.kill pid).state.processes := by
  obtain ⟨-, hstate⟩ | ⟨p, hp, hw, -, hstate⟩ | ⟨p, hp, hnot, hlive, -, hstate⟩ :=
    kill_cases s pid
  · exact handled_of_processes_eq (congrArg processes hstate)
  · rw [hstate]
    exact Table.related_insert (fun _ _ => .kept) hp (.readied hw true s.clock)
  · rw [hstate]
    exact Table.related_insert (fun _ _ => .kept) hp (.marked (h.ready_of_live hp hnot hlive))

theorem called_afterCall (h : s.Settled) (hcall : call.AgesByRule) :
    s.Called (s.afterCall call) (s.answer call) ((s.on call).outcomesOf call.request) := by
  obtain ⟨request, cpu, memory⟩ := call
  cases request with
  | submit program | submitAt program priority => exact .submitted rfl rfl
  | reap => exact .reaped
  | power on | memory request => exact .handled (handled_of_processes_eq rfl) rfl rfl rfl
  | requestStop => exact .handled (handled_of_processes_eq rfl) rfl rfl rfl
  | setPolicy policy => exact .handled (handled_of_processes_eq rfl) rfl rfl rfl
  | start =>
      exact .handled (handled_of_processes_eq s.processes_start) (s.moved_start).nextPid_eq rfl rfl
  | stop =>
      exact .handled (handled_of_processes_eq s.processes_stop) (s.moved_stop).nextPid_eq rfl rfl
  | wake pid => exact .handled (s.handled_wake pid) (s.moved_wake pid).nextPid_eq rfl rfl
  | kill pid => exact .handled (h.handled_kill pid) (s.moved_kill pid).nextPid_eq rfl rfl
  | tick =>
      have hticked := Machine.ticked_get? (m := { scheduler := s, cpu, memory }) h
      refine .ticked (hticked.mono fun _ _ _ => .snoc .nil) (Machine.nextPid_tick _) rfl rfl ?_
      intro outcome hmem pid hchosen
      obtain rfl := List.mem_singleton.1 hmem
      exact Machine.exists_of_chosen h hchosen
  | run maxTicks =>
      exact .ticked (Machine.tickedAll_run h maxTicks) (Machine.nextPid_run _ _) rfl rfl
        (Machine.exists_of_chosen_run h maxTicks)

/-- After a call that does not tick, the record of a process is one that was handled, or the one
with which the call submitted it. -/
theorem Settled.record_afterCall {q : Process} (h : s.Settled) (call : Call)
    (hticks : call.request.ticks = false) (hq : (s.afterCall call).processes.get? pid = some q) :
    (∃ p, s.processes.get? pid = some p ∧ p.Handled q) ∨
      pid = s.nextPid ∧ ∃ program priority,
        call.request.submitsAt? = some priority ∧
          q = .submitted program priority s.clock := by
  obtain ⟨request, cpu, memory⟩ := call
  cases request with
  | submit program | submitAt program priority =>
      obtain ⟨rfl, rfl⟩ | ⟨-, hp⟩ := Table.get?_insert_eq_some_iff.1 hq
      · exact .inr ⟨rfl, _, _, rfl, rfl⟩
      · exact .inl ⟨q, hp, .kept⟩
  | reap => exact .inl ⟨q, (Table.get?_filter_eq_some_iff.1 hq).1, .kept⟩
  | wake pid => exact .inl ((s.handled_wake pid).exists_of_get? hq)
  | kill pid => exact .inl ((h.handled_kill pid).exists_of_get? hq)
  | start => exact .inl ⟨q, s.processes_start ▸ hq, .kept⟩
  | stop => exact .inl ⟨q, s.processes_stop ▸ hq, .kept⟩
  | power on | memory request | requestStop | setPolicy policy => exact .inl ⟨q, hq, .kept⟩
  | tick | run => cases hticks

end Scheduler

/-! ## The life of a process -/

/-- A later record of a process, and the outcomes of the ticks in between. -/
inductive Process.Lived (pid : ProcessId) (p : Process) : List TickOutcome → Process → Prop
  | refl : Lived pid p [] p
  | handled {outcomes : List TickOutcome} {q r : Process} (h : Lived pid p outcomes q)
      (hh : q.Handled r) : Lived pid p outcomes r
  | ticked {outcomes : List TickOutcome} {outcome : TickOutcome} {q r : Process}
      (h : Lived pid p outcomes q) (ht : q.Ticked pid outcome r) :
      Lived pid p (outcomes ++ [outcome]) r

namespace Process

variable {pid : ProcessId} {p q r : Process} {outcomes outcomes' : List TickOutcome}

theorem TickedAll.lived (h : p.TickedAll pid outcomes q) : p.Lived pid outcomes q := by
  induction h with
  | nil => exact .refl
  | snoc _ ht ih => exact ih.ticked ht

theorem Lived.trans (h : p.Lived pid outcomes q) (h' : q.Lived pid outcomes' r) :
    p.Lived pid (outcomes ++ outcomes') r := by
  induction h' with
  | refl =>
      rw [List.append_nil]
      exact h
  | handled _ hh ih => exact ih.handled hh
  | ticked _ ht ih =>
      rw [← List.append_assoc]
      exact ih.ticked ht

/-- A record is not affected by ticks that do not choose the process. -/
theorem lived_of_not_chosen (p : Process) (h : ∀ outcome ∈ outcomes, outcome.chosen? ≠ some pid) :
    p.Lived pid outcomes p := by
  induction outcomes with
  | nil => exact .refl
  | cons outcome rest ih =>
      obtain ⟨hfirst, hrest⟩ := List.forall_mem_cons.1 h
      have hpassed : p.Lived pid [outcome] p := .ticked .refl (.passed .kept hfirst)
      exact hpassed.trans (ih hrest)

/-- Nothing happens to a process that has terminated. -/
theorem Lived.eq_of_terminated (h : p.Lived pid outcomes q) (hp : p.state = .terminated) :
    q = p ∧ ∀ outcome ∈ outcomes, outcome.chosen? ≠ some pid := by
  induction h with
  | refl => exact ⟨rfl, List.forall_mem_nil _⟩
  | handled _ hh ih =>
      obtain ⟨rfl, hpassed⟩ := ih
      exact ⟨hh.eq_of_terminated hp, hpassed⟩
  | ticked _ ht ih =>
      obtain ⟨rfl, hpassed⟩ := ih
      obtain ⟨hsame, hlast⟩ := ht.eq_of_not_ready (by simp [hp])
      exact ⟨hsame, List.forall_mem_append.2 ⟨hpassed, List.forall_mem_singleton.2 hlast⟩⟩

end Process

namespace Scheduler

variable {s s' : Scheduler} {call : Call} {calls : List Call} {pid : ProcessId}
  {p : Process} {outcomes : List TickOutcome} {answer : MachineAnswer}

theorem mem_reap_iff {snapshot : ProcessSnapshot} :
    snapshot ∈ s.reap.result ↔
      ∃ pid p, s.processes.get? pid = some p ∧ p.state = .terminated ∧
        p.snapshot pid = snapshot := by
  simp only [reap, ProcessTable.snapshots, List.mem_map, Prod.exists, Table.mem_entries_iff,
    Table.get?_filter_eq_some_iff, Process.isTerminated, beq_iff_eq, and_assoc]

/-- A record is gone after a reap exactly if the process had terminated. -/
theorem get?_reap (s : Scheduler) (pid : ProcessId) :
    s.reap.state.processes.get? pid =
      (s.processes.get? pid).filter fun p => !p.isTerminated :=
  Table.get?_filter ..

/-- A reap leaves the record of a process as it is, or takes it out of the table. -/
theorem reap_cases (hp : s.processes.get? pid = some p) :
    s.reap.state.processes.get? pid = some p ∨
    (s.reap.state.processes.get? pid = none ∧ p.state = .terminated ∧
      p.snapshot pid ∈ s.reap.result) := by
  rw [get?_reap, hp]
  by_cases hstate : p.state = .terminated
  · exact .inr ⟨by simp [Process.isTerminated, hstate], hstate,
      mem_reap_iff.2 ⟨pid, p, hp, hstate, rfl⟩⟩
  · exact .inl (by simp [Process.isTerminated, hstate])

theorem Called.nextPid_le (h : s.Called s' answer outcomes) : s.nextPid ≤ s'.nextPid := by
  cases h with
  | submitted hprocesses hnext => exact hnext ▸ Nat.le_succ _
  | reaped => exact Nat.le_refl _
  | handled hrelated hnext => exact Nat.le_of_eq hnext.symm
  | ticked hrelated hnext => exact Nat.le_of_eq hnext.symm

/-- A process that is not in the table, and whose number was given away, does not come
back. -/
theorem Called.gone (h : s.Called s' answer outcomes) (hp : s.processes.get? pid = none)
    (hpid : pid < s.nextPid) :
    s'.processes.get? pid = none ∧ pid < s'.nextPid ∧
      ∀ outcome ∈ outcomes, outcome.chosen? ≠ some pid := by
  cases h with
  | submitted hprocesses hnext =>
      rw [hprocesses, hnext, Table.get?_insert_of_ne _ (Nat.ne_of_gt hpid)]
      exact ⟨hp, Nat.lt_succ_of_lt hpid, List.forall_mem_nil _⟩
  | reaped =>
      rw [get?_reap, hp]
      exact ⟨rfl, hpid, List.forall_mem_nil _⟩
  | handled hrelated hnext =>
      rw [hnext]
      exact ⟨hrelated.get?_eq_none hp, hpid, List.forall_mem_nil _⟩
  | ticked hrelated hnext hsubmissions hsnapshots hchosen =>
      rw [hnext]
      refine ⟨hrelated.get?_eq_none hp, hpid, fun outcome hmem heq => ?_⟩
      obtain ⟨p, hp'⟩ := hchosen outcome hmem pid heq
      rw [hp] at hp'
      cases hp'

/-- A process goes on under a call, or it had terminated and is reaped. -/
theorem Called.lived (h : s.Called s' answer outcomes) (hp : s.processes.get? pid = some p)
    (hpid : pid < s.nextPid) :
    (∃ q, s'.processes.get? pid = some q ∧ p.Lived pid outcomes q) ∨
    (s'.processes.get? pid = none ∧ p.state = .terminated ∧ outcomes = [] ∧
      p.snapshot pid ∈ answer.snapshots) := by
  cases h with
  | submitted hprocesses hnext =>
      rw [hprocesses, Table.get?_insert_of_ne _ (Nat.ne_of_gt hpid)]
      exact .inl ⟨p, hp, .refl⟩
  | reaped =>
      obtain hkept | ⟨hgone, hstate, hmem⟩ := reap_cases hp
      · exact .inl ⟨p, hkept, .refl⟩
      · exact .inr ⟨hgone, hstate, rfl, hmem⟩
  | handled hrelated =>
      obtain ⟨q, hq, hpq⟩ := hrelated.exists_get? hp
      exact .inl ⟨q, hq, .handled .refl hpq⟩
  | ticked hrelated =>
      obtain ⟨q, hq, hpq⟩ := hrelated.exists_get? hp
      exact .inl ⟨q, hq, hpq.lived⟩

theorem Settled.gone_afterCalls (h : s.Settled) (hcalls : ∀ call ∈ calls, call.AgesByRule)
    (hp : s.processes.get? pid = none) (hpid : pid < s.nextPid) :
    (s.afterCalls calls).processes.get? pid = none ∧
      ∀ outcome ∈ s.outcomes calls, outcome.chosen? ≠ some pid := by
  induction calls generalizing s with
  | nil => exact ⟨hp, List.forall_mem_nil _⟩
  | cons call rest ih =>
      obtain ⟨hfirst, hrest⟩ := List.forall_mem_cons.1 hcalls
      obtain ⟨hp', hpid', hchosen⟩ := (called_afterCall h hfirst).gone hp hpid
      obtain ⟨hlast, hchosen'⟩ := ih (h.afterCall hfirst) hrest hp' hpid'
      exact ⟨hlast, List.forall_mem_append.2 ⟨hchosen, hchosen'⟩⟩

/-- After any history of calls a process is still in the table, or it terminated and was
reaped; in either case its last record is one that it lived to. -/
theorem Settled.exists_lived (h : s.Settled) (hcalls : ∀ call ∈ calls, call.AgesByRule)
    (hp : s.processes.get? pid = some p) :
    ∃ q, p.Lived pid (s.outcomes calls) q ∧
      ((s.afterCalls calls).processes.get? pid = some q ∨
        (s.afterCalls calls).processes.get? pid = none ∧ q.state = .terminated ∧
          q.snapshot pid ∈ s.reaped calls) := by
  induction calls generalizing s p with
  | nil => exact ⟨p, .refl, .inl hp⟩
  | cons call rest ih =>
      obtain ⟨hfirst, hrest⟩ := List.forall_mem_cons.1 hcalls
      have hcalled := called_afterCall h hfirst
      have hs := h.afterCall hfirst
      have hreaped : s.reaped (call :: rest) =
          (s.answer call).snapshots ++ (s.afterCall call).reaped rest := rfl
      rw [hreaped]
      obtain ⟨q, hq, hlived⟩ | ⟨hgone, hstate, houtcomes, hmem⟩ :=
        hcalled.lived hp (h.tame pid p hp).2
      · obtain ⟨r, hlived', hr⟩ := ih hs hrest hq
        refine ⟨r, hlived.trans hlived', hr.imp_right fun ⟨hnone, hstate, hmem⟩ => ?_⟩
        exact ⟨hnone, hstate, List.mem_append_right _ hmem⟩
      · have hpid := Nat.lt_of_lt_of_le (h.tame pid p hp).2 hcalled.nextPid_le
        obtain ⟨hnone, hchosen⟩ := hs.gone_afterCalls hrest hgone hpid
        refine ⟨p, ?_, .inr ⟨hnone, hstate, List.mem_append_left _ hmem⟩⟩
        rw [outcomes, houtcomes]
        exact p.lived_of_not_chosen hchosen

end Scheduler

end Timeshare
