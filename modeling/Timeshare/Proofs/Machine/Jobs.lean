import Timeshare.Proofs.Cpu.Halting
import Timeshare.Proofs.Machine.Balanced

/-!
# Jobs

A job is a program that halts after a known number of instructions. `Process.OnCourse`
says that a process stands where it has to on the way of its job: it is ready with the
rest of the job ahead of it, or it terminated at the end of the job. A slice keeps it on
its course, whatever its length (`Process.OnCourse.filed`).

What is left of a job is measured in two ways: in instructions (`Job.left`) and in
slices of at least `quantum` instructions (`Job.slices`). A slice of a process takes as
much from the first as it retires, and at least one from the second
(`Process.OnCourse.slices_filed`). A job needs a slice of its own even when nothing is
left to retire, because the halt is not retired.
-/

namespace Timeshare

/-- A program to be submitted at a level, and the number of instructions that it retires
alone. -/
structure Job where
  program : Program
  priority : Priority
  length : Nat

/-- The process stands on the way of the job, on the given memory. -/
structure Process.OnCourse (memory : Memory) (job : Job) (p : Process) : Prop where
  program_eq : p.program = job.program
  fault_eq : p.fault = none
  unmarked : p.killRequested = false
  cpuTime_eq : p.cpuTime = p.context.retired
  course : p.state = .ready ∧ job.program.HaltsAt ⟨p.context, memory⟩ job.length ∨
    p.state = .terminated ∧ p.context.retired = job.length

namespace Job

/-- The instructions of the job that a process has not retired. -/
def left (job : Job) (p : Process) : Nat := job.length - p.context.retired

/-- The slices of at least `quantum` instructions that the job still needs at most. -/
def slices (quantum : Nat) (job : Job) (p : Process) : Nat :=
  if p.isTerminated then 0 else job.left p / quantum + 1

end Job

namespace Process.OnCourse

variable {memory : Memory} {job : Job} {p p' : Process} {exit : Exit} {w : Workspace}
  {quantum slice : Nat}

theorem of_core (h : p.OnCourse memory job) (hcore : p'.core = p.core) :
    p'.OnCourse memory job := by
  have hprogram : p'.program = p.program := (congrArg Process.program hcore :)
  have hfault : p'.fault = p.fault := (congrArg Process.fault hcore :)
  have hkill : p'.killRequested = p.killRequested := (congrArg Process.killRequested hcore :)
  have htime : p'.cpuTime = p.cpuTime := (congrArg Process.cpuTime hcore :)
  have hcontext : p'.context = p.context := (congrArg Process.context hcore :)
  have hstate : p'.state = p.state := (congrArg Process.state hcore :)
  constructor
  · exact hprogram.trans h.program_eq
  · exact hfault.trans h.fault_eq
  · exact hkill.trans h.unmarked
  · rw [htime, hcontext]
    exact h.cpuTime_eq
  · rw [hstate, hcontext]
    exact h.course

theorem submitted (h : job.program.HaltsAt ⟨{}, memory⟩ job.length) (now : Nat) :
    (Process.submitted job.program job.priority now).OnCourse memory job :=
  ⟨rfl, rfl, rfl, rfl, .inl ⟨rfl, h⟩⟩

/-- A job that names no page is on its course on every memory or on none. -/
theorem withMemory (h : p.OnCourse memory job) (hpages : job.program.pages = [])
    (memory' : Memory) : p.OnCourse memory' job := by
  refine ⟨h.program_eq, h.fault_eq, h.unmarked, h.cpuTime_eq, ?_⟩
  obtain ⟨hready, hhalts⟩ | hended := h.course
  · exact .inl ⟨hready, hhalts.withMemory hpages memory'⟩
  · exact .inr hended

theorem haltsAt (h : p.OnCourse memory job) (hready : p.state = .ready) :
    job.program.HaltsAt ⟨p.context, memory⟩ job.length := by
  obtain ⟨-, hhalts⟩ | ⟨hterminated, -⟩ := h.course
  · exact hhalts
  · rw [hready] at hterminated
    cases hterminated

/-- A slice of a process on its course has come to the end of the job or has left the rest
of it. -/
inductive Sliced (memory : Memory) (job : Job) (p : Process) (slice : Nat) (w : Workspace) :
    Exit → Prop
  | halted (hlt : job.left p < slice) (hretired : w.context.retired = job.length) :
      Sliced memory job p slice w (.ok .halted)
  | expired (hle : slice ≤ job.left p) (hretired : w.context.retired = p.context.retired + slice)
      (hrest : job.program.HaltsAt ⟨w.context, memory⟩ job.length) :
      Sliced memory job p slice w (.ok .sliceExpired)

theorem sliced (h : p.OnCourse memory job) (hready : p.state = .ready)
    (hpages : job.program.pages = []) (slice : Nat) :
    Sliced memory job p slice (p.program.resume slice ⟨p.context, memory⟩).2
      (p.program.resume slice ⟨p.context, memory⟩).1 := by
  rw [h.program_eq]
  have hmemory := Program.memory_resume_of_pages_eq_nil hpages slice ⟨p.context, memory⟩
  have hcases := (h.haltsAt hready).resume slice
  generalize job.program.resume slice ⟨p.context, memory⟩ = reply at hmemory hcases ⊢
  obtain ⟨exit, context, memory'⟩ := reply
  obtain rfl : memory' = memory := hmemory
  obtain ⟨hlt, hexit, hretired⟩ | ⟨hle, hexit, hretired, hrest⟩ := hcases
  · obtain rfl : exit = .ok .halted := hexit
    exact .halted hlt hretired
  · obtain rfl : exit = .ok .sliceExpired := hexit
    exact .expired hle hretired hrest

theorem Sliced.retired_le (h : p.OnCourse memory job) (hready : p.state = .ready)
    (hs : Sliced memory job p slice w exit) : p.context.retired ≤ w.context.retired := by
  cases hs with
  | halted hlt hretired =>
      rw [hretired]
      exact (h.haltsAt hready).retired_le
  | expired hle hretired hrest =>
      rw [hretired]
      exact Nat.le_add_right ..

theorem filed (s : Scheduler) (h : p.OnCourse memory job) (hready : p.state = .ready)
    (hs : Sliced memory job p slice w exit) :
    (s.filed (p.afterRun w.context) exit).OnCourse memory job := by
  have hle := hs.retired_le h hready
  have htime := h.cpuTime_eq
  have hsum : p.cpuTime + (w.context.retired - p.context.retired) = w.context.retired := by omega
  cases hs with
  | halted hlt hretired => exact ⟨h.program_eq, h.fault_eq, h.unmarked, hsum, .inr ⟨rfl, hretired⟩⟩
  | expired hslice hretired hrest =>
      obtain ⟨level, expirations, heq⟩ := s.exists_afterExpiry (p.afterRun w.context)
      rw [Scheduler.filed, heq]
      exact ⟨h.program_eq, h.fault_eq, h.unmarked, hsum, .inl ⟨rfl, hrest⟩⟩

/-- What a slice retires is no longer left. -/
theorem left_filed (s : Scheduler) (h : p.OnCourse memory job) (hready : p.state = .ready)
    (hs : Sliced memory job p slice w exit) :
    job.left (s.filed (p.afterRun w.context) exit) +
      (w.context.retired - p.context.retired) = job.left p := by
  have hle := hs.retired_le h hready
  have hbound : w.context.retired ≤ job.length := by
    cases hs with
    | halted hlt hretired => exact Nat.le_of_eq hretired
    | expired hslice hretired hrest => exact hrest.retired_le
  rw [Job.left, Job.left, Scheduler.context_filed]
  simp only [Process.afterRun]
  omega

/-- A slice that is not shorter than the quantum is one less to come. -/
theorem slices_filed (s : Scheduler) (h : p.OnCourse memory job) (hready : p.state = .ready)
    (hs : Sliced memory job p slice w exit) (hquantum : 0 < quantum) (hslice : quantum ≤ slice) :
    job.slices quantum (s.filed (p.afterRun w.context) exit) + 1 ≤ job.slices quantum p := by
  have hleft := h.left_filed s hready hs
  have hlive : p.isTerminated = false := by simp [isTerminated, hready]
  cases hs with
  | halted hlt hretired =>
      have hend : (s.filed (p.afterRun w.context) (.ok .halted)).isTerminated = true := rfl
      rw [Job.slices, Job.slices, hlive, hend]
      exact Nat.le_add_left ..
  | expired hle hretired hrest =>
      have hgoes : (s.filed (p.afterRun w.context) (.ok .sliceExpired)).isTerminated = false := rfl
      have hsome : job.left (s.filed (p.afterRun w.context) (.ok .sliceExpired)) + quantum ≤
          job.left p := by omega
      rw [Job.slices, Job.slices, hlive, hgoes]
      calc job.left (s.filed (p.afterRun w.context) (.ok .sliceExpired)) / quantum + 1 + 1
          = (job.left (s.filed (p.afterRun w.context) (.ok .sliceExpired)) + quantum) / quantum +
              1 := by rw [Nat.add_div_right _ hquantum]
        _ ≤ job.left p / quantum + 1 := Nat.add_le_add_right (Nat.div_le_div_right hsome) 1

end Process.OnCourse

end Timeshare
