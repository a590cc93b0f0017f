import Mathlib.Data.List.Induction
import Timeshare.Proofs.History
import Timeshare.Proofs.Machine.Interrupted
import Timeshare.Proofs.Machine.Paced
import Timeshare.Proofs.Scheduler.Calls

/-!
# The last word

A scheduler is told to start and to stop by its owner, and to stop by anyone with a handle.
`Scheduler.said` lists these words in a history of turns, together with the answers of the
ticks, in the order in which they reach the flag that the handles share; a turn is an operation
of the owner that may be interrupted by requests. The words alone decide what a tick answers:
it is stopped unless there was a start and no word against it since (`Word.Running`), and a
request is pending until the next start or the next tick (`Word.Pending`).

`Scheduler.Heeds` says this of a scheduler and the words up to now. Every operation keeps it,
so it holds of any history (`Scheduler.last_word_decides`).
-/

namespace Timeshare

/-- A word to a scheduler, or the answer of one of its ticks. -/
inductive Word
  | start
  | stop
  | requestStop
  | ticked (outcome : TickOutcome)

namespace Word

/-- The words that tell the scheduler to stop. -/
def Halts : Word → Prop
  | .stop | .requestStop => True
  | _ => False

/-- The words after which no request is pending. -/
def Settles : Word → Prop
  | .start | .ticked _ => True
  | _ => False

/-- There was a start, and neither a stop nor a request to stop since. -/
def Running (words : List Word) : Prop := History.Since (· = .start) Halts words

/-- There was a request to stop, and neither a start nor a tick since. -/
def Pending (words : List Word) : Prop :=
  History.Since (· = .requestStop) Settles words

/-- Each tick is stopped if and only if the words before it did not leave the scheduler
running. -/
def Answered (words : List Word) : Prop :=
  ∀ before outcome after, words = before ++ .ticked outcome :: after →
    (outcome = .stopped ↔ ¬ Running before)

/-- The word of a request that is made in the middle of an operation, if it is. -/
def request (asked : Bool) : List Word := if asked then [.requestStop] else []

variable {words before mid : List Word} {word : Word} {outcome : TickOutcome}

@[simp] theorem running_start : Running (words ++ [.start]) := History.since_concat.2 (.inl rfl)

@[simp] theorem not_running_stop : ¬ Running (words ++ [.stop]) := by
  simp [Running, History.since_concat, Halts]

@[simp] theorem not_running_requestStop : ¬ Running (words ++ [.requestStop]) := by
  simp [Running, History.since_concat, Halts]

@[simp] theorem running_ticked : Running (words ++ [.ticked outcome]) ↔ Running words := by
  simp [Running, History.since_concat, Halts]

@[simp] theorem not_pending_start : ¬ Pending (words ++ [.start]) := by
  simp [Pending, History.since_concat, Settles]

@[simp] theorem pending_stop : Pending (words ++ [.stop]) ↔ Pending words := by
  simp [Pending, History.since_concat, Settles]

@[simp] theorem pending_requestStop : Pending (words ++ [.requestStop]) :=
  History.since_concat.2 (.inl rfl)

@[simp] theorem not_pending_ticked : ¬ Pending (words ++ [.ticked outcome]) := by
  simp [Pending, History.since_concat, Settles]

@[simp] theorem ticked_notMem_request {asked : Bool} : .ticked outcome ∉ request asked := by
  cases asked <;> simp [request]

theorem answered_nil : Answered [] := by
  intro before outcome after heq
  simp at heq

theorem Answered.concat (h : Answered words)
    (hlast : ∀ outcome, word = .ticked outcome → (outcome = .stopped ↔ ¬ Running words)) :
    Answered (words ++ [word]) := by
  have hall := History.forall_concat
    (P := fun before word => ∀ outcome, word = .ticked outcome →
      (outcome = .stopped ↔ ¬ Running before)) ?_ hlast
  · intro before outcome after heq
    exact hall before _ after heq outcome rfl
  · rintro before _ after heq outcome rfl
    exact h before outcome after heq

/-- A word against it keeps the scheduler from running until there is a start. -/
theorem not_running_of_halts (h : word.Halts) (hmid : .start ∉ mid) :
    ¬ Running (before ++ word :: mid) := by
  induction mid using List.reverseRecOn with
  | nil =>
      rw [Running, History.since_concat]
      rintro (rfl | ⟨hnot, -⟩)
      · exact h
      · exact hnot h
  | append_singleton mid last ih =>
      rw [List.mem_append, List.mem_singleton, not_or] at hmid
      rw [← List.cons_append, ← List.append_assoc, Running, History.since_concat]
      rintro (rfl | ⟨-, hrunning⟩)
      · exact hmid.2 rfl
      · exact ih hmid.1 hrunning

end Word

/-! ## What a tick makes of the flag -/

theorem Scheduler.started_honourStop_iff (s : Scheduler) :
    s.honourStop.state.started = true ↔ s.started = true ∧ s.stopRequested = false := by
  simp [state_honourStop]

namespace Machine

variable {m : Machine}

theorem Dispatched.ne_stopped {m' : Machine} {outcome : TickOutcome}
    (h : m.Dispatched outcome m') : outcome ≠ .stopped := by
  cases h <;> simp

/-- A tick is stopped unless the scheduler is started and no stop is requested. -/
theorem tick_stopped_iff (m : Machine) :
    m.tick.result = .stopped ↔
      ¬ (m.scheduler.started = true ∧ m.scheduler.stopRequested = false) := by
  rw [← Scheduler.started_honourStop_iff]
  obtain ⟨hstarted, hresult, -⟩ | ⟨hstarted, hd⟩ := ticked_tick m
  · simp [hstarted, hresult]
  · simp [hstarted, hd.ne_stopped]

/-- A tick leaves no request behind, and it leaves the scheduler started if it was not
stopped itself. -/
theorem heed_tick (m : Machine) :
    m.tick.state.scheduler.stopRequested = false ∧
      (m.tick.state.scheduler.started = true ↔
        m.scheduler.started = true ∧ m.scheduler.stopRequested = false) := by
  rw [← Scheduler.started_honourStop_iff]
  obtain ⟨hstarted, -, hstate⟩ | ⟨hstarted, hd⟩ := ticked_tick m
  · rw [hstate]
    exact ⟨by simp [Scheduler.state_honourStop], Iff.rfl⟩
  · obtain ⟨-, hkept, hstop, -⟩ := hd.kept
    rw [hkept, hstop, begun]
    exact ⟨by simp [Scheduler.beginTick, Scheduler.state_honourStop], Iff.rfl⟩

/-- A tick that is stopped changes nothing but the two marks of the scheduler. -/
theorem state_tick_of_stopped (h : m.tick.result = .stopped) :
    m.tick.state =
      { m with
        scheduler := { m.scheduler with started := false, stopRequested := false } } := by
  obtain ⟨hstarted, -, hstate⟩ | ⟨-, hd⟩ := ticked_tick m
  · rw [hstate]
    rw [Scheduler.state_honourStop] at hstarted ⊢
    rw [show (m.scheduler.started && !m.scheduler.stopRequested) = false from hstarted]
  · exact absurd h hd.ne_stopped

/-- The answers of the ticks of a run, and the requests that are made during them. -/
def saidInRun (asked : List Bool) : Nat → Machine → List Word
  | 0, _ => []
  | maxTicks + 1, m =>
    let reply := m.tickInterrupted (asked.headD false)
    [.ticked reply.result] ++ Word.request (asked.headD false) ++
      match reply.result.exit? with
      | some _ => []
      | none => saidInRun asked.tail maxTicks reply.state

/-- A run answers that it was stopped if one of its ticks was. -/
theorem runInterrupted_stopped_iff (asked : List Bool) (maxTicks : Nat) (m : Machine) :
    (m.runInterrupted asked maxTicks).1 = .stopped ↔
      .ticked .stopped ∈ m.saidInRun asked maxTicks := by
  induction maxTicks generalizing m asked with
  | zero => simp [runInterrupted, saidInRun]
  | succ n ih =>
      rw [runInterrupted, saidInRun]
      cases hresult : (m.tickInterrupted (asked.headD false)).result with
      | stopped | idle | cpuUnavailable => simp [TickOutcome.exit?]
      | ran pid retired state =>
          have hrest := ih asked.tail (m.tickInterrupted (asked.headD false)).state
          simpa [TickOutcome.exit?] using hrest

theorem run_of_stopped (h : m.tick.result = .stopped) (n : Nat) :
    (m.run (n + 1)).result = .stopped ∧ (m.run (n + 1)).state = m.tick.state := by
  have hexit : m.tick.result.exit? = some .stopped := by
    rw [h]
    rfl
  rw [run, runAfter_succ_of_exit hexit]
  exact ⟨rfl, rfl⟩

/-- A run whose first tick is stopped has no further tick, whatever is requested meanwhile. -/
theorem runInterrupted_of_stopped (h : m.tick.result = .stopped) (asked : List Bool) (n : Nat) :
    m.runInterrupted asked (n + 1) =
      (.stopped, (m.tickInterrupted (asked.headD false)).state) := by
  have hresult : (m.tickInterrupted (asked.headD false)).result = .stopped := by
    rw [tickInterrupted_eq]
    exact h
  rw [runInterrupted, hresult]
  rfl

end Machine

namespace Scheduler

/-- An operation of the owner, with the processor and the memory that it finds. A stop is
requested, through whichever handle, in the middle of a start or a tick, and of those ticks of
a run that are marked. -/
structure Turn where
  call : Call
  asked : List Bool := []

/-- The scheduler after a turn. No operation but a start and a tick has to do with the flag,
so there is no point in interrupting another one. -/
def afterTurn (s : Scheduler) (turn : Turn) : Scheduler :=
  match turn.call.request with
  | .start => s.startInterrupted (turn.asked.headD false)
  | .tick => ((s.on turn.call).tickInterrupted (turn.asked.headD false)).state.scheduler
  | .run maxTicks => ((s.on turn.call).runInterrupted turn.asked maxTicks).2.scheduler
  | _ => s.afterCall turn.call

/-- The scheduler after a history of turns. -/
def afterTurns (s : Scheduler) (turns : List Turn) : Scheduler := turns.foldl afterTurn s

theorem afterTurn_of_call (s : Scheduler) (call : Call) :
    s.afterTurn { call } = s.afterCall call := by
  obtain ⟨request, cpu, memory⟩ := call
  cases request with
  | start => exact s.startInterrupted_eq false
  | tick =>
      exact congrArg (·.state.scheduler)
        (Machine.tickInterrupted_eq (s.on ⟨.tick, cpu, memory⟩) false)
  | run maxTicks =>
      exact congrArg (·.2.scheduler)
        (Machine.runInterrupted_nil (s.on ⟨.run maxTicks, cpu, memory⟩) maxTicks)
  | _ => rfl

/-- A history without interruptions is one of calls. -/
theorem afterTurns_of_calls (s : Scheduler) (calls : List Call) :
    s.afterTurns (calls.map fun call => { call }) = s.afterCalls calls := by
  rw [afterTurns, List.foldl_map]
  exact congrArg (fun step => calls.foldl step s) (funext fun s => funext s.afterTurn_of_call)

/-- The words of a turn. -/
def saidIn (s : Scheduler) (turn : Turn) : List Word :=
  let asked := turn.asked.headD false
  match turn.call.request with
  | .start => [.start] ++ Word.request asked
  | .stop => [.stop]
  | .requestStop => [.requestStop]
  | .tick => [.ticked ((s.on turn.call).tickInterrupted asked).result] ++ Word.request asked
  | .run maxTicks => (s.on turn.call).saidInRun turn.asked maxTicks
  | _ => []

/-- The words of a history of turns. -/
def said (s : Scheduler) : List Turn → List Word
  | [] => []
  | turn :: rest => s.saidIn turn ++ (s.afterTurn turn).said rest

/-- The scheduler is as the words up to now have left it. -/
structure Heeds (s : Scheduler) (words : List Word) : Prop where
  running_iff : s.started = true ∧ s.stopRequested = false ↔ Word.Running words
  pending_iff : s.stopRequested = true ↔ Word.Pending words
  answered : Word.Answered words

variable {s s' : Scheduler} {words : List Word} {m : Machine}

/-! ## What the operations keep -/

theorem marks_wake (s : Scheduler) (pid : ProcessId) :
    (s.wake pid).state.started = s.started ∧
      (s.wake pid).state.stopRequested = s.stopRequested := by
  obtain ⟨-, hstate⟩ | ⟨p, -, -, -, hstate⟩ := s.wake_cases pid <;> rw [hstate] <;>
    exact ⟨rfl, rfl⟩

theorem marks_kill (s : Scheduler) (pid : ProcessId) :
    (s.kill pid).state.started = s.started ∧
      (s.kill pid).state.stopRequested = s.stopRequested := by
  obtain ⟨-, hstate⟩ | ⟨p, -, -, -, hstate⟩ | ⟨p, -, -, -, -, hstate⟩ := s.kill_cases pid <;>
    rw [hstate] <;> exact ⟨rfl, rfl⟩

theorem heeds_new (policy : Policy) : (new policy).Heeds [] where
  running_iff := iff_of_false (by simp [new]) History.not_since_nil
  pending_iff := iff_of_false (by simp [new]) History.not_since_nil
  answered := Word.answered_nil

theorem Heeds.quiet (h : s.Heeds words) (hstarted : s'.started = s.started)
    (hstop : s'.stopRequested = s.stopRequested) : s'.Heeds words where
  running_iff := by rw [hstarted, hstop, h.running_iff]
  pending_iff := by rw [hstop, h.pending_iff]
  answered := h.answered

theorem Heeds.start (h : s.Heeds words) : s.start.state.Heeds (words ++ [.start]) where
  running_iff := by simp [state_start]
  pending_iff := by simp [state_start]
  answered := h.answered.concat (by rintro outcome ⟨⟩)

theorem Heeds.stop (h : s.Heeds words) : s.stop.state.Heeds (words ++ [.stop]) where
  running_iff := by simp [state_stop]
  pending_iff := by simp [state_stop, h.pending_iff]
  answered := h.answered.concat (by rintro outcome ⟨⟩)

theorem Heeds.requestStop (h : s.Heeds words) :
    s.requestStop.Heeds (words ++ [.requestStop]) where
  running_iff := by simp [Scheduler.requestStop]
  pending_iff := by simp [Scheduler.requestStop]
  answered := h.answered.concat (by rintro outcome ⟨⟩)

theorem Heeds.interrupted (h : s.Heeds words) (asked : Bool) :
    (s.interrupted asked).Heeds (words ++ Word.request asked) := by
  cases asked with
  | false => exact (words.append_nil).symm ▸ h
  | true =>
      rw [interrupted_true]
      exact h.requestStop

theorem Heeds.tick (h : m.scheduler.Heeds words) :
    m.tick.state.scheduler.Heeds (words ++ [.ticked m.tick.result]) where
  running_iff := by
    rw [m.heed_tick.2, Word.running_ticked, ← h.running_iff]
    simp [m.heed_tick.1]
  pending_iff := by simp [m.heed_tick.1]
  answered := by
    refine h.answered.concat ?_
    rintro outcome ⟨⟩
    rw [m.tick_stopped_iff, h.running_iff]

theorem Heeds.tickInterrupted (h : m.scheduler.Heeds words) (asked : Bool) :
    (m.tickInterrupted asked).state.scheduler.Heeds
      (words ++ ([.ticked (m.tickInterrupted asked).result] ++ Word.request asked)) := by
  rw [m.tickInterrupted_eq, ← List.append_assoc]
  exact h.tick.interrupted asked

theorem Heeds.runInterrupted (h : m.scheduler.Heeds words) (asked : List Bool)
    (maxTicks : Nat) :
    (m.runInterrupted asked maxTicks).2.scheduler.Heeds
      (words ++ m.saidInRun asked maxTicks) := by
  induction maxTicks generalizing m words asked with
  | zero => exact (words.append_nil).symm ▸ h
  | succ n ih =>
      have htick := h.tickInterrupted (asked.headD false)
      rw [Machine.runInterrupted, Machine.saidInRun]
      cases (m.tickInterrupted (asked.headD false)).result.exit? with
      | some exit => exact (List.append_nil _).symm ▸ htick
      | none => exact List.append_assoc .. ▸ ih htick asked.tail

/-- Every turn keeps the scheduler with the words. -/
theorem Heeds.afterTurn (h : s.Heeds words) (turn : Turn) :
    (s.afterTurn turn).Heeds (words ++ s.saidIn turn) := by
  obtain ⟨⟨request, cpu, memory⟩, asked⟩ := turn
  cases request with
  | start =>
      have hstart := h.start.interrupted (asked.headD false)
      rw [← startInterrupted_eq, List.append_assoc] at hstart
      exact hstart
  | stop => exact h.stop
  | requestStop => exact h.requestStop
  | tick => exact Heeds.tickInterrupted (m := s.on ⟨.tick, cpu, memory⟩) h _
  | run maxTicks =>
      exact Heeds.runInterrupted (m := s.on ⟨.run maxTicks, cpu, memory⟩) h asked maxTicks
  | wake pid =>
      obtain ⟨hstarted, hstop⟩ := s.marks_wake pid
      exact (words.append_nil).symm ▸ h.quiet hstarted hstop
  | kill pid =>
      obtain ⟨hstarted, hstop⟩ := s.marks_kill pid
      exact (words.append_nil).symm ▸ h.quiet hstarted hstop
  | _ => exact (words.append_nil).symm ▸ h.quiet rfl rfl

theorem Heeds.afterTurns (h : s.Heeds words) (turns : List Turn) :
    (s.afterTurns turns).Heeds (words ++ s.said turns) := by
  induction turns generalizing s words with
  | nil => exact (words.append_nil).symm ▸ h
  | cons turn rest ih =>
      rw [said, ← List.append_assoc]
      exact ih (h.afterTurn turn)

/-- The last word decides. After any history of turns, in which stops may be requested at any
time: a tick was stopped if and only if the words before it did not leave the scheduler
running, and a request is pending if there was neither a start nor a tick since. The next tick
follows the same rule; if it is stopped, it changes nothing but the two marks of the scheduler,
and if a request is pending it is, be it taken directly or by a run, which then ends. No
request outlives a tick or a start. -/
theorem last_word_decides (policy : Policy) (turns : List Turn) :
    let s := (new policy).afterTurns turns
    let words := (new policy).said turns
    Word.Answered words ∧
      (s.stopRequested = true ↔ Word.Pending words) ∧
      (∀ before mid outcome after,
        words = before ++ .requestStop :: mid ++ .ticked outcome :: after → .start ∉ mid →
          outcome = .stopped) ∧
      (∀ cpu memory,
        let m : Machine := { scheduler := s, cpu, memory }
        (m.tick.result = .stopped ↔ ¬ Word.Running words) ∧
          (m.tick.result = .stopped →
            m.tick.state =
              { m with scheduler := { s with started := false, stopRequested := false } }) ∧
          (Word.Pending words → m.tick.result = .stopped ∧
            (∀ n, (m.run (n + 1)).result = .stopped ∧ (m.run (n + 1)).state = m.tick.state) ∧
            ∀ asked n, m.runInterrupted asked (n + 1) =
              (.stopped, (m.tickInterrupted (asked.headD false)).state)) ∧
          (∀ asked n, (m.runInterrupted asked n).1 = .stopped ↔
            .ticked .stopped ∈ m.saidInRun asked n) ∧
          m.tick.state.scheduler.stopRequested = false) ∧
      s.start.state.started = true ∧ s.start.state.stopRequested = false := by
  intro s words
  have hheeds : s.Heeds words := (heeds_new policy).afterTurns turns
  refine ⟨hheeds.answered, hheeds.pending_iff, ?_, ?_, by simp [state_start],
    by simp [state_start]⟩
  · intro before mid outcome after heq hmid
    refine (hheeds.answered _ _ _ heq).2 ?_
    exact Word.not_running_of_halts trivial hmid
  · intro cpu memory m
    have hnext : m.tick.result = .stopped ↔ ¬ Word.Running words := by
      rw [m.tick_stopped_iff, ← hheeds.running_iff]
    refine ⟨hnext, Machine.state_tick_of_stopped, fun hpending => ?_,
      fun asked n => m.runInterrupted_stopped_iff asked n, m.heed_tick.1⟩
    have hstopped : m.tick.result = .stopped := by
      rw [m.tick_stopped_iff]
      rintro ⟨-, hnone⟩
      rw [← hheeds.pending_iff, hnone] at hpending
      cases hpending
    exact ⟨hstopped, fun n => Machine.run_of_stopped hstopped n,
      fun asked n => Machine.runInterrupted_of_stopped hstopped asked n⟩

/-- A request during the only tick of a run is still pending afterwards; the next tick takes
it, and a start is then obeyed. -/
example :
    (new (.roundRobin {})).said
        [⟨{ request := .start }, []⟩, ⟨{ request := .run 5 }, [true]⟩,
          ⟨{ request := .tick }, []⟩, ⟨{ request := .start }, []⟩, ⟨{ request := .tick }, []⟩] =
      [.start, .ticked .idle, .requestStop, .ticked .stopped, .start, .ticked .idle] :=
  rfl

end Scheduler

end Timeshare
