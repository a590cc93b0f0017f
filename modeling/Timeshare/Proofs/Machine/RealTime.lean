import Timeshare.Proofs.Machine.Served

/-!
# The real-time band keeps the processor

Under real time a process of the highest level whose slice expired goes back to the head of its
queue, and so does one that found the processor without power. Whoever is at the head there
stays there until it leaves the queues for good (`ReadyQueues.Served.keeps_head`), and meanwhile
what arrives lines up behind it. So nothing else is dispatched before
(`Machine.Serves.head_is_chosen`), and the arrivals are dispatched in their order
(`Machine.Serves.runs_of_enqueues`).
-/

namespace Timeshare

/-- Whether the request may bring a process into a queue. -/
def MachineRequest.arrives : MachineRequest → Bool
  | .submit _ | .submitAt _ _ | .wake _ | .kill _ => true
  | _ => false

/-- The request brings the process into the queue of the level. -/
def Machine.Enqueues (m : Machine) (request : MachineRequest) (level : Priority)
    (pid : ProcessId) : Prop :=
  request.arrives = true ∧ pid ∉ m.scheduler.queues.level level ∧
    pid ∈ (m.after request).scheduler.queues.level level

theorem Priority.highest_le (level : Priority) : .highest ≤ level := Nat.zero_le level.val

namespace ReadyQueues

variable {q q' : ReadyQueues} {keeps : Priority → Bool} {outcome : TickOutcome} {level : Priority}
  {pid : ProcessId} {rest : List ProcessId}

theorem headAt_highest (h : q.level .highest = pid :: rest) : q.HeadAt .highest pid rest :=
  ⟨h, fun _ hlt => absurd hlt (Nat.not_lt_zero _)⟩

theorem HeadAt.eq_of_highest {other : ProcessId} {others : List ProcessId}
    (h : q.HeadAt level other others) (hhead : q.level .highest = pid :: rest) :
    level = .highest ∧ other = pid ∧ others = rest := by
  have hmem : pid ∈ q.level .highest := (headAt_highest hhead).mem
  have hlevel : level = .highest := Fin.le_antisymm (h.le_of_mem hmem) (Priority.highest_le level)
  subst hlevel
  have hsame := h.level_eq.symm.trans hhead
  exact ⟨rfl, List.cons.inj hsame⟩

/-- The head of the highest queue is chosen whenever a tick is not stopped, and it keeps its
place if it stays ready. -/
theorem Served.keeps_head (h : q.Served keeps outcome q') (hkeeps : keeps .highest = true)
    (hhead : q.level .highest = pid :: rest) :
    (outcome = .stopped ∨ outcome.chosen? = some pid) ∧
      ((∀ retired state, outcome = .ran pid retired state → state = .ready) →
        q'.level .highest = pid :: rest) := by
  cases h with
  | stopped => exact ⟨.inl rfl, fun _ => hhead⟩
  | idle hempty =>
      rw [hempty] at hhead
      cases hhead
  | putBack hat =>
      obtain ⟨-, rfl, -⟩ := hat.eq_of_highest hhead
      exact ⟨.inr rfl, fun _ => hhead⟩
  | left hat hstate retired =>
      obtain ⟨-, rfl, -⟩ := hat.eq_of_highest hhead
      exact ⟨.inr rfl, fun hready => absurd (hready retired _ rfl) hstate⟩
  | requeued hat =>
      obtain ⟨rfl, rfl, rfl⟩ := hat.eq_of_highest hhead
      refine ⟨.inr rfl, fun _ => ?_⟩
      rw [level_setLevel_self, if_pos hkeeps]

end ReadyQueues

namespace Machine

variable {m : Machine} {keeps : Priority → Bool} {params : PolicyParams} {level : Priority}
  {pid x y : ProcessId} {rest : List ProcessId} {request first second : MachineRequest}
  {requests between later : List MachineRequest}

/-! ## Who has the processor -/

/-- The head of the highest queue is all that the ticks choose until it is dispatched and does
not stay ready. -/
theorem Serves.head_is_chosen (h : m.Serves keeps) (hkeeps : keeps .highest = true)
    (hr : ∀ request ∈ requests, request.isStep = true)
    (hhead : m.scheduler.queues.level .highest = pid :: rest)
    {before after : List TickOutcome} {outcome : TickOutcome}
    (hsplit : m.outcomes requests = before ++ outcome :: after)
    (hbefore : ∀ o ∈ before, ∀ retired state, o = .ran pid retired state → state = .ready) :
    outcome = .stopped ∨ outcome.chosen? = some pid := by
  -- By induction on the history: until then the process is at the head, whoever else arrives.
  induction requests generalizing m rest before with
  | nil => exact absurd hsplit.symm (List.append_ne_nil_of_right_ne_nil _ (List.cons_ne_nil _ _))
  | cons request requests ih =>
      obtain ⟨hfirst, hrest⟩ := List.forall_mem_cons.1 hr
      rw [outcomes] at hsplit
      obtain rfl | ⟨hnone, hlevels⟩ := h.step hfirst
      · obtain ⟨hchosen, hkept⟩ := h.served_tick.keeps_head hkeeps hhead
        rw [outcomesOf, List.singleton_append] at hsplit
        cases before with
        | nil =>
            obtain ⟨rfl, -⟩ := List.cons.inj hsplit
            exact hchosen
        | cons o before =>
            obtain ⟨rfl, hlater⟩ := List.cons.inj hsplit
            obtain ⟨hready, hbefore⟩ := List.forall_mem_cons.1 hbefore
            exact ih (h.after hfirst) hrest (hkept hready) hlater hbefore
      · obtain ⟨arrived, harrived⟩ := hlevels .highest
        rw [hhead, List.cons_append] at harrived
        rw [hnone, List.nil_append] at hsplit
        exact ih (h.after hfirst) hrest harrived.symm hsplit hbefore

/-! ## The order of arrivals -/

/-- What arrives is behind what is queued. -/
theorem Serves.inOrder_of_enqueues (h : m.Serves keeps) (hr : request.isStep = true)
    (hx : x ∈ m.scheduler.queues.level level) (hy : m.Enqueues request level y) :
    (m.after request).scheduler.queues.InOrder level [x, y] := by
  obtain ⟨harrives, hnot, hmem⟩ := hy
  obtain rfl | ⟨-, hlevels⟩ := h.step hr
  · cases harrives
  · obtain ⟨arrived, harrived⟩ := hlevels level
    rw [← harrived] at hmem
    have hnew : y ∈ arrived := (List.mem_append.1 hmem).resolve_left hnot
    rw [ReadyQueues.InOrder, ← harrived]
    exact (List.singleton_sublist.2 hx).append (List.singleton_sublist.2 hnew)

/-- A process that arrived later is not chosen before one that arrived earlier was
dispatched. -/
theorem Serves.runs_of_enqueues (h : m.Serves keeps)
    (hr : ∀ request ∈ first :: between ++ second :: later, request.isStep = true)
    (hx : m.Enqueues first level x)
    (hy : ((m.after first).afterAll between).Enqueues second level y)
    (hchosen : ((m.after first).afterAll (between ++ second :: later)).tick.result.chosen? =
      some y) :
    ∃ outcome ∈ (m.after first).outcomes (between ++ second :: later), outcome.runs x = true := by
  cases hruns : ((m.after first).outcomes (between ++ second :: later)).any (·.runs x) with
  | true => exact List.any_eq_true.1 hruns
  | false =>
      exfalso
      have hnever : ∀ outcome ∈ (m.after first).outcomes (between ++ second :: later),
          outcome.runs x = false := by
        simpa using hruns
      obtain ⟨hfirst, hr⟩ := List.forall_mem_cons.1 hr
      obtain ⟨hbetween, hr⟩ := List.forall_mem_append.1 hr
      obtain ⟨hsecond, hlater⟩ := List.forall_mem_cons.1 hr
      rw [outcomes_append] at hnever
      obtain ⟨hnever₁, hnever⟩ := List.forall_mem_append.1 hnever
      obtain ⟨-, hnever₂⟩ := List.forall_mem_append.1 hnever
      have hthere := ((h.after hfirst).inOrder_afterAll hbetween
        (ReadyQueues.inOrder_singleton.2 hx.2.2) hnever₁).1
      have hserves := (h.after hfirst).afterAll hbetween
      have horder := hserves.inOrder_of_enqueues hsecond
        (ReadyQueues.inOrder_singleton.1 hthere) hy
      have hlast := ((hserves.after hsecond).inOrder_afterAll hlater horder hnever₂).1
      have hthen := (hserves.after hsecond).afterAll hlater
      rw [afterAll_append, afterAll_cons] at hchosen
      obtain ⟨other, rest, hhead⟩ := hthen.served_tick.exists_headAt hchosen
      exact hhead.not_mem_of_inOrder hthen.settled.accounts hlast (List.mem_singleton_self y)

/-! ## Real time -/

/-- Under real time nothing below the highest level is chosen while a process is ready there. A
process of the highest level that was dispatched and stays ready is all that is chosen until it
is dispatched and does not stay ready. And those that are submitted, woken or killed into the
queue of the highest level are dispatched in the order in which they came. -/
theorem realTime_keeps_processor (h : m.scheduler.Reachable)
    (hpolicy : m.scheduler.policy = .realTime params)
    (hr : ∀ request ∈ requests, request.isStep = true) :
    let m' := m.afterAll requests
    (∀ pid other r, m'.tick.result.chosen? = some pid →
      m'.scheduler.processes.get? other = some r → r.state = .ready → r.priority = .highest →
      ∃ p, m'.scheduler.processes.get? pid = some p ∧ p.priority = .highest) ∧
    (∀ pid p retired, m'.scheduler.processes.get? pid = some p → p.priority = .highest →
      m'.tick.result = .ran pid retired .ready →
      ∀ rest : List MachineRequest, (∀ request ∈ rest, request.isStep = true) →
      ∀ before outcome after, m'.tick.state.outcomes rest = before ++ outcome :: after →
        (∀ o ∈ before, ∀ retired state, o = .ran pid retired state → state = .ready) →
        outcome = .stopped ∨ outcome.chosen? = some pid) ∧
    ∀ first between second later x y,
      (∀ request ∈ first :: between ++ second :: later, request.isStep = true) →
      m'.Enqueues first .highest x →
      ((m'.after first).afterAll between).Enqueues second .highest y →
      ((m'.after first).afterAll (between ++ second :: later)).tick.result.chosen? = some y →
      ∃ outcome ∈ (m'.after first).outcomes (between ++ second :: later),
        outcome.runs x = true := by
  intro m'
  have hserves : m'.Serves Priority.isRealTime := by
    refine Serves.afterAll ⟨h.settled, ?_⟩ hr
    rw [hpolicy]
    exact Policy.headFirst_realTime params
  have haccounts := hserves.settled.accounts
  refine ⟨?_, ?_, ?_⟩
  · intro pid other r hchosen hother hready hlevel
    obtain ⟨p, hp, -, hle⟩ := hserves.le_of_chosen hchosen
    have hhighest := hle other r hother hready
    rw [hlevel] at hhighest
    exact ⟨p, hp, Fin.le_antisymm hhighest (Priority.highest_le _)⟩
  · intro pid p retired hp hlevel hran rest hrest before outcome after hsplit hbefore
    obtain ⟨p', hp', hready, -⟩ := hserves.le_of_chosen (congrArg TickOutcome.chosen? hran)
    rw [hp] at hp'
    cases hp'
    obtain ⟨others, hhead⟩ : ∃ others, m'.scheduler.queues.level .highest = pid :: others := by
      obtain ⟨level, others, hat⟩ :=
        hserves.served_tick.exists_headAt (congrArg TickOutcome.chosen? hran)
      have hmem := haccounts.mem_level_iff.2 ⟨p, hp, hready, hlevel⟩
      obtain rfl := haccounts.level_unique hat.mem hmem
      exact ⟨others, hat.level_eq⟩
    have hkept : m'.tick.state.scheduler.queues.level .highest = pid :: others := by
      refine (hserves.served_tick.keeps_head rfl hhead).2 fun n state heq => ?_
      rw [hran] at heq
      cases heq
      rfl
    have hticked : (m'.after .tick).Serves Priority.isRealTime := hserves.after rfl
    exact hticked.head_is_chosen rfl hrest hkept hsplit hbefore
  · intro first between second later x y hr hx hy hchosen
    exact hserves.runs_of_enqueues hr hx hy hchosen

/-- A process that waits is woken while another one has the processor, and a third one is
submitted after that. -/
theorem realTime_keeps_processor_of_arrivals :
    let loop : Program := .ofList [.jump 0]
    let start : Machine := { scheduler := .new (.realTime { baseQuantum := 1 }) }
    let requests : List MachineRequest :=
      [.power true, .start, .submitAt (.ofList [.wait, .halt]) .highest, .tick,
        .submitAt loop .highest, .submit (.ofList [.halt])]
    let m := start.afterAll requests
    let rest : List MachineRequest :=
      [.wake 1, .power false, .tick, .power true, .requestStop, .tick, .start, .tick]
    let later : List MachineRequest := [.kill 2, .tick, .tick]
    m.tick.result = .ran 2 5 .ready ∧
      (∃ p, m.scheduler.processes.get? 2 = some p ∧ p.priority = .highest) ∧
      m.tick.state.outcomes rest = [.cpuUnavailable 2, .stopped, .ran 2 5 .ready] ∧
      (TickOutcome.ran 2 5 .ready = .stopped ∨
        (TickOutcome.ran 2 5 .ready).chosen? = some 2) ∧
      m.Enqueues (.wake 1) .highest 1 ∧
      ((m.after (.wake 1)).afterAll [.tick]).Enqueues (.submitAt loop .highest) .highest 4 ∧
      ∃ outcome ∈ (m.after (.wake 1)).outcomes ([.tick] ++ .submitAt loop .highest :: later),
        outcome.runs 1 = true := by
  intro loop start requests m rest later
  have hr : ∀ request ∈ requests, request.isStep = true := by decide
  have hrest : ∀ request ∈ rest, request.isStep = true := by decide
  have hsteps : ∀ request ∈ MachineRequest.wake 1 :: [.tick] ++ .submitAt loop .highest :: later,
      request.isStep = true := by decide
  obtain ⟨habove, hkeeps, horder⟩ := realTime_keeps_processor (m := start)
    (.new (PolicyKind.agesByRule_build .realTime _)) rfl hr
  have hready : (m.scheduler.processes.get? 2).map (fun p => (p.state, p.priority)) =
      some (.ready, .highest) := by decide +kernel
  obtain ⟨p, hp, hpair⟩ := Option.map_eq_some_iff.1 hready
  obtain ⟨hstate, hlevel⟩ := Prod.mk.inj hpair
  have hran : m.tick.result = .ran 2 5 .ready := by decide +kernel
  have hsplit : m.tick.state.outcomes rest =
      [.cpuUnavailable 2, .stopped] ++ .ran 2 5 .ready :: [] := by decide +kernel
  have hwoken : m.Enqueues (.wake 1) .highest 1 := ⟨rfl, by decide +kernel, by decide +kernel⟩
  have hsubmitted : ((m.after (.wake 1)).afterAll [.tick]).Enqueues
      (.submitAt loop .highest) .highest 4 := ⟨rfl, by decide +kernel, by decide +kernel⟩
  exact ⟨hran, habove 2 2 p (congrArg TickOutcome.chosen? hran) hp hstate hlevel, hsplit,
    hkeeps 2 p 5 hp hlevel hran rest hrest _ _ _ hsplit (by simp), hwoken, hsubmitted,
    horder _ _ _ _ _ _ hsteps hwoken hsubmitted (by decide +kernel)⟩

end Machine

end Timeshare
