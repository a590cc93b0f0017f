import Timeshare.Proofs.Scheduler.Calls

/-!
# Processes that were killed

A process that is killed is marked, ready and queued. As long as no tick chooses it, nothing
takes the mark from it or moves it out of the ready state, and the tick that chooses it
terminates it before it reaches the processor (`Process.Lived.killed`). So it does not run
again, whatever the scheduler is called for in between
(`Scheduler.killed_processes_do_not_run`).
-/

namespace Timeshare

/-! ## The record of a process that was killed -/

namespace Process

variable {pid : ProcessId} {p q : Process} {outcome : TickOutcome} {outcomes : List TickOutcome}

/-- What nothing but a run changes of a process. -/
def work (p : Process) : Context × Nat × Nat := (p.context, p.cpuTime, p.dispatches)

/-- The process is to be terminated by the tick that chooses it. -/
structure Marked (p : Process) : Prop where
  ready : p.state = .ready
  killRequested : p.killRequested = true

/-- The process was terminated because it was killed. -/
structure Ended (p : Process) : Prop where
  terminated : p.state = .terminated
  killed : p.fault = some .killed

theorem Marked.raised (h : p.Marked) (hr : p.Raised q) : q.Marked ∧ q.work = p.work := by
  cases hr with
  | kept => exact ⟨h, rfl⟩
  | raised => exact ⟨⟨h.ready, h.killRequested⟩, rfl⟩

theorem Marked.handled (h : p.Marked) (hh : p.Handled q) : q.Marked ∧ q.work = p.work := by
  cases hh with
  | kept => exact ⟨h, rfl⟩
  | readied hwaiting =>
      have hready := h.ready
      rw [hwaiting] at hready
      cases hready
  | marked hready => exact ⟨⟨hready, rfl⟩, rfl⟩

theorem Marked.dispatched (h : p.Marked) (hd : p.Dispatched pid outcome q) :
    outcome = .ran pid 0 .terminated ∧ q.Ended ∧ q.work = p.work := by
  have hkill := h.killRequested
  cases hd with
  | killed => exact ⟨rfl, ⟨rfl, rfl⟩, rfl⟩
  | putBack hready hnot | ran hready hnot =>
      rw [hkill] at hnot
      cases hnot

/-- A process that is marked stays so, with the work that it has done, until a tick chooses
it; this tick ends it, and no later one chooses it again. -/
theorem Lived.killed (h : p.Lived pid outcomes q) (hp : p.Marked) :
    (outcomes.filter (·.chosen? == some pid) = [] ∧ q.Marked ∧ q.work = p.work) ∨
    (outcomes.filter (·.chosen? == some pid) = [.ran pid 0 .terminated] ∧ q.Ended ∧
      q.work = p.work) := by
  induction h with
  | refl => exact .inl ⟨rfl, hp, rfl⟩
  | handled hlived hh ih =>
      obtain ⟨hchoices, hq, hwork⟩ | ⟨hchoices, hq, hwork⟩ := ih
      · obtain ⟨hr, hsame⟩ := hq.handled hh
        exact .inl ⟨hchoices, hr, hsame.trans hwork⟩
      · rw [hh.eq_of_terminated hq.terminated]
        exact .inr ⟨hchoices, hq, hwork⟩
  | @ticked outcomes outcome q r hlived ht ih =>
      rw [List.filter_append]
      have hnone : outcome.chosen? ≠ some pid →
          [outcome].filter (·.chosen? == some pid) = [] := by
        intro hpassed
        simp [hpassed]
      obtain ⟨hchoices, hq, hwork⟩ | ⟨hchoices, hq, hwork⟩ := ih
      · rw [hchoices]
        cases ht with
        | passed hraised hpassed =>
            obtain ⟨hr, hsame⟩ := hq.raised hraised
            exact .inl ⟨hnone hpassed, hr, hsame.trans hwork⟩
        | chosen hraised hd =>
            obtain ⟨hmarked, hsame⟩ := hq.raised hraised
            obtain ⟨rfl, hr, hsame'⟩ := hmarked.dispatched hd
            refine .inr ⟨?_, hr, hsame'.trans (hsame.trans hwork)⟩
            simp [TickOutcome.chosen?]
      · obtain ⟨rfl, hpassed⟩ := ht.eq_of_not_ready (by simp [hq.terminated])
        rw [hchoices, hnone hpassed, List.append_nil]
        exact .inr ⟨rfl, hq, hwork⟩

end Process

/-! ## The scheduler after a kill -/

namespace Scheduler

variable {s : Scheduler} {pid : ProcessId} {p q : Process}

theorem kill_of_terminated (hp : s.processes.get? pid = some p) (hstate : p.state = .terminated) :
    s.kill pid = ⟨.ok (), s, #[]⟩ := by
  simp only [kill, hp, hstate]

/-- A process that is live when it is killed is marked then, and it does not move in its queue
if it was ready before. -/
theorem kill_of_live (h : s.Settled) (hp : s.processes.get? pid = some p)
    (hlive : p.state ≠ .terminated) :
    (s.kill pid).result = .ok () ∧ (p.state = .ready → (s.kill pid).state.queues = s.queues) ∧
      ∃ q, (s.kill pid).state.processes.get? pid = some q ∧ q.Marked ∧ q.work = p.work := by
  obtain ⟨hnone, -⟩ | ⟨p', hp', hw, hresult, hstate⟩ | ⟨p', hp', hnot, -, hresult, hstate⟩ :=
    kill_cases s pid
  · exact absurd (hnone p hp) hlive
  · rw [hp] at hp'
    cases hp'
    rw [hstate]
    refine ⟨hresult, fun hready => ?_, _, Table.get?_insert_self .., ⟨rfl, rfl⟩, rfl⟩
    rw [hw] at hready
    cases hready
  · rw [hp] at hp'
    cases hp'
    have hready := h.ready_of_live hp hnot hlive
    rw [hstate]
    exact ⟨hresult, fun _ => rfl, _, Table.get?_insert_self .., ⟨hready, rfl⟩, rfl⟩

/-- The process waits in its queue for the tick that terminates it. It is there once; to wake
it or to kill it again changes nothing; and a tick at which the policy chooses it terminates
it whatever the processor is like. -/
structure Condemned (pid : ProcessId) (q : Process) (s : Scheduler) : Prop where
  get?_eq : s.processes.get? pid = some q
  marked : q.Marked
  queued : s.queues.occurrences pid = 1 ∧ pid ∈ s.queues.level q.priority
  wake_eq : s.wake pid = ⟨.error (.invalidTransition pid .ready .ready), s, #[]⟩
  kill_eq : s.kill pid = ⟨.ok (), s, #[.processMarked pid]⟩
  chosen : ∀ (cpu : Cpu) (memory : Memory),
    let m : Machine := { scheduler := s, cpu, memory }
    s.honourStop.state.started = true → m.begun.scheduler.choice? = some pid →
      m.tick.result = .ran pid 0 .terminated

theorem kill_of_marked (hq : s.processes.get? pid = some q) (hmarked : q.Marked) :
    s.kill pid = ⟨.ok (), s, #[.processMarked pid]⟩ := by
  have hsame : ({ q with state := .ready, killRequested := true } : Process) = q := by
    rw [← hmarked.ready, ← hmarked.killRequested]
  simp only [kill, hq, hmarked.ready, hsame, setProcess, Table.insert_of_get? hq]

theorem tick_of_marked {m : Machine} (h : m.scheduler.Settled)
    (hq : m.scheduler.processes.get? pid = some q) (hmarked : q.Marked)
    (hstarted : m.scheduler.honourStop.state.started = true)
    (hchoice : m.begun.scheduler.choice? = some pid) :
    m.tick.result = .ran pid 0 .terminated := by
  obtain ⟨hstopped, -⟩ | ⟨-, hd⟩ := Machine.ticked_tick m
  · rw [hstarted] at hstopped
    cases hstopped
  · obtain ⟨r, hr, hraised⟩ := (Machine.begun_get? h).exists_get? hq
    have hmarked' := (hmarked.raised hraised).1
    generalize m.tick.state = m', m.tick.result = outcome at hd ⊢
    cases hd with
    | idle hother =>
        rw [hchoice] at hother
        cases hother
    | discarded hother hnot =>
        cases hchoice.symm.trans hother
        exact absurd hmarked'.ready (hnot r hr)
    | killed hother =>
        cases hchoice.symm.trans hother
        rfl
    | putBack hother hp hready hkill | ran hother hp hready hkill =>
        -- The process that is chosen is marked.
        cases hchoice.symm.trans hother
        cases hr.symm.trans hp
        rw [hmarked'.killRequested] at hkill
        cases hkill

theorem Settled.condemned (h : s.Settled) (hq : s.processes.get? pid = some q)
    (hmarked : q.Marked) : s.Condemned pid q where
  get?_eq := hq
  marked := hmarked
  queued := ⟨h.accounts.occurrences_of_ready hq hmarked.ready,
    h.accounts.mem_level_iff.2 ⟨q, hq, hmarked.ready, rfl⟩⟩
  wake_eq := by simp [Scheduler.wake, hq, hmarked.ready]
  kill_eq := kill_of_marked hq hmarked
  chosen := fun cpu memory =>
    tick_of_marked (m := { scheduler := s, cpu, memory }) h hq hmarked

/-- To kill a process that has terminated changes nothing. A process that is killed while it
is live never runs again, whatever the scheduler is called for afterwards and whatever
processor it finds. The kill is answered with a success, and a process that was ready keeps
its place. Until a tick chooses it, the process is condemned, and it keeps its context and
its counts. The one tick that chooses it terminates it as killed without running it, and its
last record, which is reaped at some time, still has the same context and the same counts. -/
theorem killed_processes_do_not_run (h : s.Reachable) :
    (∀ pid p, s.processes.get? pid = some p → p.state = .terminated →
      s.kill pid = ⟨.ok (), s, #[]⟩) ∧
    ∀ pid p, s.processes.get? pid = some p → p.state ≠ .terminated →
      (s.kill pid).result = .ok () ∧
      (p.state = .ready → (s.kill pid).state.queues = s.queues) ∧
      ∀ calls : List Call, (∀ call ∈ calls, call.AgesByRule) →
        let killed := (s.kill pid).state
        let s' := killed.afterCalls calls
        let choices := (killed.outcomes calls).filter (·.chosen? == some pid)
        (choices = [] ∧ ∃ q, s'.Condemned pid q ∧ q.work = p.work) ∨
        (choices = [.ran pid 0 .terminated] ∧ ∃ q : Process, q.Ended ∧ q.work = p.work ∧
          (s'.processes.get? pid = some q ∨
            s'.processes.get? pid = none ∧ q.snapshot pid ∈ killed.reaped calls)) := by
  refine ⟨fun pid p => kill_of_terminated, fun pid p hp hlive => ?_⟩
  obtain ⟨hresult, hqueues, q, hq, hmarked, hwork⟩ := kill_of_live h.settled hp hlive
  refine ⟨hresult, hqueues, ?_⟩
  intro calls hcalls killed s' choices
  have hkilled : killed.Settled := h.settled.kill pid
  obtain ⟨r, hlived, hr⟩ := hkilled.exists_lived hcalls hq
  obtain ⟨hchoices, hmarked', hwork'⟩ | ⟨hchoices, hended, hwork'⟩ := hlived.killed hmarked
  · obtain hr | ⟨-, hstate, -⟩ := hr
    · exact .inl ⟨hchoices, r, (hkilled.afterCalls hcalls).condemned hr hmarked',
        hwork'.trans hwork⟩
    · rw [hmarked'.ready] at hstate
      cases hstate
  · exact .inr ⟨hchoices, r, hended, hwork'.trans hwork, hr.imp_right fun hr => ⟨hr.1, hr.2.2⟩⟩

/-- A process is killed while it waits. It is woken and killed in vain, keeps its mark under
another policy and after a stop, and is terminated by a tick without power. -/
theorem killed_processes_do_not_run_of_waiting :
    let s := (new (PolicyKind.priorityAging.build {})).afterCalls
      [{ request := .submit (.ofList [.loadImm 0 7, .wait, .jump 0]) }, { request := .start },
        { request := .tick, cpu := { powered := true } }]
    let calls : List Call :=
      [{ request := .wake 1 }, { request := .kill 1 }, { request := .stop }, { request := .tick },
        { request := .setPolicy (PolicyKind.realTime.build {}) }, { request := .start },
        { request := .run 2 }, { request := .reap }]
    let killed := (s.kill 1).state
    s.Reachable ∧ (∀ call ∈ calls, call.AgesByRule) ∧
      (killed.outcomes calls).filter (·.chosen? == some 1) = [.ran 1 0 .terminated] ∧
      ∃ p, s.processes.get? 1 = some p ∧ p.state = .waiting ∧ p.cpuTime = 2 ∧
        (s.kill 1).result = .ok () ∧
        ∃ q : Process, q.Ended ∧ q.work = p.work ∧ q.snapshot 1 ∈ killed.reaped calls := by
  intro s calls killed
  have hs : s.Reachable := by
    refine Reachable.afterCalls (.new (PolicyKind.agesByRule_build ..)) fun call hcall => ?_
    simp only [List.mem_cons, List.not_mem_nil, or_false] at hcall
    rcases hcall with rfl | rfl | rfl <;> trivial
  have hcalls : ∀ call ∈ calls, call.AgesByRule := by
    intro call hcall
    simp only [calls, List.mem_cons, List.not_mem_nil, or_false] at hcall
    rcases hcall with rfl | rfl | rfl | rfl | rfl | rfl | rfl | rfl <;> try trivial
    exact PolicyKind.agesByRule_build .realTime {}
  have hchoices : (killed.outcomes calls).filter (·.chosen? == some 1) =
      [.ran 1 0 .terminated] := by decide +kernel
  have hrecord : (s.processes.get? 1).map (fun p => (p.state, p.cpuTime)) =
      some (.waiting, 2) := by decide +kernel
  obtain ⟨p, hp, hsame⟩ := Option.map_eq_some_iff.1 hrecord
  obtain ⟨hwaiting, htime⟩ := Prod.mk.inj hsame
  have hlive : p.state ≠ .terminated := by simp [hwaiting]
  obtain ⟨hresult, -, hends⟩ := (killed_processes_do_not_run hs).2 1 p hp hlive
  refine ⟨hs, hcalls, hchoices, p, hp, hwaiting, htime, hresult, ?_⟩
  obtain ⟨hnone, -⟩ | ⟨-, q, hended, hwork, hq⟩ := hends calls hcalls
  · rw [hchoices] at hnone
    cases hnone
  · obtain hq | ⟨-, hreaped⟩ := hq
    · have hgone : ((killed.afterCalls calls).processes.get? 1).isSome = false := by
        decide +kernel
      rw [hq] at hgone
      cases hgone
    · exact ⟨q, hended, hwork, hreaped⟩

end Scheduler

end Timeshare
