import Timeshare.Proofs.Cpu.Tracks
import Timeshare.Proofs.Machine.Settled
import Timeshare.Proofs.Scheduler.Moved

/-!
# Processes in step with their programs

A process is in step with its program if its context and the pages of the program are
what they are after the program ran alone (`Process.InStep`). A tick of a machine
keeps all processes in step as long as no program writes to a page of another.

The invariant of the machine is `Machine.Faithful`. It keeps the list of the programs that were
submitted, so that the program of a process is found by its number, and says that a
page to which none of them writes is still as it was at the start. A program that is
submitted later than others have run therefore finds its own pages untouched, and a
process that runs leaves the pages of the others alone.
-/

namespace Timeshare

namespace Program

/-- Neither program writes to a page that the other one reads or writes. -/
def Independent (p q : Program) : Prop :=
  (∀ page ∈ p.stores, page ∉ q.pages) ∧ ∀ page ∈ q.stores, page ∉ p.pages

instance (p q : Program) : Decidable (p.Independent q) :=
  inferInstanceAs (Decidable (_ ∧ _))

variable {programs : List Program} {p q : Program} {i j : Nat}

theorem Independent.symm (h : p.Independent q) : q.Independent p := ⟨h.2, h.1⟩

theorem independent_of_pairwise (h : programs.Pairwise Independent) (hi : programs[i]? = some p)
    (hj : programs[j]? = some q) (hne : i ≠ j) : p.Independent q := by
  obtain ⟨hi', rfl⟩ := List.getElem?_eq_some_iff.1 hi
  obtain ⟨hj', rfl⟩ := List.getElem?_eq_some_iff.1 hj
  rcases Nat.lt_or_gt_of_ne hne with hlt | hlt
  · exact List.pairwise_iff_getElem.1 h i j hi' hj' hlt
  · exact (List.pairwise_iff_getElem.1 h j i hj' hi' hlt).symm

end Program

/-! ## One process -/

/-- The process is in step with its program run alone on the memory `start`. -/
structure Process.InStep (start memory : Memory) (p : Process) : Prop where
  fresh : p.dispatches = 0 → p.context = {} ∧ memory.SameOn p.program.pages start
  reaches : 0 < p.dispatches → p.program.Reaches start ⟨p.context, memory⟩
  started : 0 < p.dispatches → p.state ≠ .terminated → p.context.started = true
  unfaulted : p.state ≠ .terminated → p.fault = none
  ends : ∀ exit, p.exit? = some exit →
    0 < p.dispatches ∧ p.program.EndsAlone start p.context.retired exit

namespace Process.InStep

variable {start memory memory' : Memory} {p p' : Process}

theorem moved (h : p.InStep start memory) (hm : p.Moved p') : p'.InStep start memory where
  fresh := by
    rw [hm.dispatches_eq, hm.context_eq, hm.program_eq]
    exact h.fresh
  reaches := by
    rw [hm.dispatches_eq, hm.context_eq, hm.program_eq]
    exact h.reaches
  started := by
    rw [hm.dispatches_eq, hm.context_eq]
    exact fun hd hlive => h.started hd (hm.live hlive).1
  unfaulted := by
    intro hlive
    obtain ⟨hlive, hfault⟩ := hm.live hlive
    rw [hfault]
    exact h.unfaulted hlive
  ends := by
    rw [hm.exit?_eq, hm.dispatches_eq, hm.context_eq, hm.program_eq]
    exact h.ends

theorem congr (h : p.InStep start memory) (hm : memory'.SameOn p.program.pages memory) :
    p.InStep start memory' where
  fresh := fun hd => ⟨(h.fresh hd).1, hm.trans (h.fresh hd).2⟩
  reaches := fun hd => (h.reaches hd).congr hm
  started := h.started
  unfaulted := h.unfaulted
  ends := h.ends

theorem submitted (program : Program) (priority : Priority) (now : Nat)
    (h : memory.SameOn program.pages start) :
    (Process.submitted program priority now).InStep start memory where
  fresh := fun _ => ⟨rfl, h⟩
  reaches := fun hd => absurd hd (Nat.lt_irrefl 0)
  started := fun hd => absurd hd (Nat.lt_irrefl 0)
  unfaulted := fun _ => rfl
  ends := by
    intro exit hexit
    cases hexit

theorem tracks (h : p.InStep start memory) (hlive : p.state ≠ .terminated) (n : Nat) :
    p.program.Tracks start (p.program.resume n ⟨p.context, memory⟩).1
      (p.program.resume n ⟨p.context, memory⟩).2 := by
  rcases Nat.eq_zero_or_pos p.dispatches with hd | hd
  · obtain ⟨hcontext, hsame⟩ := h.fresh hd
    exact Program.tracks_resume_of_fresh ⟨hcontext, hsame⟩ n
  · exact (h.reaches hd).tracks_resume (h.started hd hlive) n

/-- A slice that is tracked leaves the process in step, however it is filed. -/
theorem filed (s : Scheduler) {exit : Exit} {w : Workspace}
    (h : p.program.Tracks start exit w) (hfault : p.fault = none) :
    (s.filed (p.afterRun w.context) exit).InStep start w.memory := by
  have hpos : 0 < (s.filed (p.afterRun w.context) exit).dispatches := by
    rw [Scheduler.dispatches_filed]
    exact Nat.succ_pos _
  have hprogram : (s.filed (p.afterRun w.context) exit).program = p.program :=
    s.program_filed _ exit
  have hcontext : (s.filed (p.afterRun w.context) exit).context = w.context :=
    s.context_filed _ exit
  refine ⟨fun hd => absurd hd (Nat.ne_of_gt hpos), ?_, ?_, ?_, ?_⟩
  · intro _
    rw [hprogram, hcontext]
    exact h.reaches
  · intro _ hlive
    rw [hcontext]
    apply h.started
    rcases exit with e | outcome
    · exact absurd rfl hlive
    · cases outcome with
      | halted => exact absurd rfl hlive
      | sliceExpired => exact .inl rfl
      | waiting => exact .inr rfl
  · intro hlive
    rcases exit with e | outcome
    · exact absurd rfl hlive
    · cases outcome with
      | halted => exact absurd rfl hlive
      | sliceExpired =>
          obtain ⟨level, expirations, heq⟩ := s.exists_afterExpiry (p.afterRun w.context)
          rw [Scheduler.filed, heq]
          exact hfault
      | waiting => exact hfault
  · intro exit' hexit'
    have hstop := Process.stops_of_exit? hexit'
    have hsame : exit = exit' := by
      rcases exit with e | outcome
      · simpa [Scheduler.filed, Process.exit?] using hexit'
      · cases outcome with
        | halted =>
            simpa [Scheduler.filed, Process.exit?, Process.afterRun, hfault] using hexit'
        | sliceExpired | waiting => simp [Scheduler.filed, Process.exit?] at hexit'
    rw [hprogram, hcontext]
    subst hsame
    exact ⟨hpos, h.ends hstop.1 hstop.2⟩

end Process.InStep

/-! ## The machine -/

/-- The machine after the given programs were submitted to it, when its memory was
`start` before any of them. -/
structure Machine.Faithful (start : Memory) (programs : List Program) (m : Machine) : Prop where
  settled : m.scheduler.Settled
  nextPid_eq : m.scheduler.nextPid = programs.length + 1
  program_eq : ∀ pid p, m.scheduler.processes.get? pid = some p →
    ∃ i, pid = i + 1 ∧ programs[i]? = some p.program
  untouched : ∀ pages, (∀ q ∈ programs, ∀ page ∈ q.stores, page ∉ pages) →
    m.memory.SameOn pages start
  inStep : ∀ pid p, m.scheduler.processes.get? pid = some p → p.InStep start m.memory

namespace Machine

variable {start : Memory} {programs : List Program} {m m' : Machine} {outcome : TickOutcome}

theorem faithful_new {policy : Policy} (h : policy.AgesByRule) (cpu : Cpu) (memory : Memory) :
    Faithful memory [] { scheduler := .new policy, cpu, memory } where
  settled := Scheduler.settled_new h
  nextPid_eq := rfl
  program_eq := by
    intro pid p hp
    cases hp
  untouched := fun pages _ => .refl pages memory
  inStep := by
    intro pid p hp
    cases hp

theorem Faithful.moved (h : m.Faithful start programs) (hs : m'.scheduler.Settled)
    (hmoved : m.scheduler.Moved m'.scheduler) (hmemory : m'.memory = m.memory) :
    m'.Faithful start programs where
  settled := hs
  nextPid_eq := hmoved.nextPid_eq.trans h.nextPid_eq
  program_eq := by
    intro pid p' hp'
    obtain ⟨p, hp, hpp'⟩ := hmoved.moves pid p' hp'
    rw [hpp'.program_eq]
    exact h.program_eq pid p hp
  untouched := by
    rw [hmemory]
    exact h.untouched
  inStep := by
    intro pid p' hp'
    obtain ⟨p, hp, hpp'⟩ := hmoved.moves pid p' hp'
    rw [hmemory]
    exact (h.inStep pid p hp).moved hpp'

theorem Faithful.submitAt (h : m.Faithful start programs) {program : Program}
    (hi : (programs ++ [program]).Pairwise Program.Independent) (priority : Priority) :
    (m.after (.submitAt program priority)).Faithful start (programs ++ [program]) where
  settled := h.settled.submitAt program priority
  nextPid_eq := by
    rw [List.length_append, List.length_singleton, ← h.nextPid_eq]
    rfl
  program_eq := by
    refine Table.forall_get?_insert ?_ ⟨programs.length, h.nextPid_eq, ?_⟩
    · intro pid p hp
      obtain ⟨i, hpid, hprogram⟩ := h.program_eq pid p hp
      obtain ⟨hlt, -⟩ := List.getElem?_eq_some_iff.1 hprogram
      exact ⟨i, hpid, (List.getElem?_append_left hlt).trans hprogram⟩
    · exact List.getElem?_concat_length
  untouched := fun pages hpages =>
    h.untouched pages fun q hq => hpages q (List.mem_append_left _ hq)
  inStep := by
    refine Table.forall_get?_insert h.inStep (.submitted program priority _ ?_)
    -- The processes before it have left its pages alone.
    refine h.untouched program.pages fun q hq => ?_
    exact ((List.pairwise_append.1 hi).2.2 q hq program (List.mem_singleton.2 rfl)).1

theorem Faithful.ran (h : m.Faithful start programs) (hi : programs.Pairwise Program.Independent)
    {pid : ProcessId} {p : Process} (hp : m.scheduler.processes.get? pid = some p)
    (hready : p.state = .ready) (hpower : m.cpu.powered = true)
    (hm' : m' =
      { scheduler := ((m.scheduler.take pid).settle pid
          (p.afterRun (m.slice p).workspace.context) (m.sliceExit p)).state
        cpu := (m.slice p).cpu
        memory := (m.slice p).workspace.memory })
    (hs : m'.scheduler.Settled) : m'.Faithful start programs := by
  obtain ⟨i, hpid, hprogram⟩ := h.program_eq pid p hp
  have hlive : p.state ≠ .terminated := by simp [hready]
  have htracks := (h.inStep pid p hp).tracks hlive
    (m.scheduler.policy.timeSlice { p with state := .running })
  rw [← workspace_slice hpower, ← sliceExit_eq hpower] at htracks
  have hsame : ∀ pages, (∀ page ∈ p.program.stores, page ∉ pages) →
      (m.slice p).workspace.memory.SameOn pages m.memory := by
    intro pages hpages
    rw [workspace_slice hpower]
    exact Program.sameOn_resume hpages _ _
  -- All ways of settling file one record, and only the run has touched the memory.
  subst hm'
  rw [Scheduler.state_settle] at hs ⊢
  refine ⟨hs, h.nextPid_eq, ?_, ?_, ?_⟩
  · refine Table.forall_get?_insert h.program_eq ⟨i, hpid, ?_⟩
    rw [Scheduler.program_filed]
    exact hprogram
  · intro pages hpages
    have hmem : p.program ∈ programs := List.mem_of_getElem? hprogram
    exact (hsame pages (hpages p.program hmem)).trans (h.untouched pages hpages)
  · intro pid' p' hp'
    obtain ⟨rfl, rfl⟩ | ⟨hne, hp'⟩ := Table.get?_insert_eq_some_iff.1 hp'
    · exact Process.InStep.filed _ htracks ((h.inStep _ p hp).unfaulted hlive)
    · obtain ⟨j, hpid', hprogram'⟩ := h.program_eq pid' p' hp'
      have hij : i ≠ j := by
        rintro rfl
        exact hne (hpid.trans hpid'.symm)
      -- Another process: what ran has no store to a page of it.
      have hindependent := Program.independent_of_pairwise hi hprogram hprogram' hij
      exact (h.inStep pid' p' hp').congr (hsame p'.program.pages hindependent.1)

theorem Faithful.dispatched (h : m.Faithful start programs)
    (hi : programs.Pairwise Program.Independent) (hd : m.Dispatched outcome m') :
    m'.Faithful start programs := by
  have hs := settled_dispatched h.settled hd
  cases hd with
  | idle hchoice => exact h.moved hs ⟨.refl _, rfl⟩ rfl
  | discarded hchoice hready hqueues => exact h.moved hs ⟨.refl _, rfl⟩ rfl
  | killed hchoice hp hready hkill =>
      exact h.moved hs (Scheduler.moved_terminateMarked hp hready) rfl
  | putBack hchoice hp hready hkill hpower =>
      exact h.moved hs (Scheduler.moved_putBack hp hready) rfl
  | ran hchoice hp hready hkill hpower => exact h.ran hi hp hready hpower rfl hs

theorem Faithful.tick (h : m.Faithful start programs)
    (hi : programs.Pairwise Program.Independent) : m.tick.state.Faithful start programs := by
  have hstop := Scheduler.moved_honourStop m.scheduler
  have hs := h.settled.honourStop
  rcases ticked_tick m with ⟨-, -, hstate⟩ | ⟨-, hd⟩
  · rw [hstate]
    exact h.moved hs hstop rfl
  · have hbegun : m.begun.Faithful start programs :=
      h.moved hs.beginTick (hstop.trans (Scheduler.moved_beginTick hs.agesByRule)) rfl
    exact hbegun.dispatched hi hd

end Machine

end Timeshare
