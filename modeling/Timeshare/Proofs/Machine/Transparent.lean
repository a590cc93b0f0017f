import Timeshare.Proofs.Machine.Faithful

/-!
# Scheduling is invisible to programs

A new scheduler that has the processor and the memory to itself runs each of its
processes as if it were alone, as long as no program writes to a page of another
(`Machine.transparent`). Policies and slices, the order of the requests and the
times at which there is power decide how far a process gets, and nothing else.
-/

namespace Timeshare

namespace MachineRequest

/-- The program that the request submits. -/
def submits? : MachineRequest → Option Program
  | .submit program => some program
  | .submitAt program _ => some program
  | _ => none

/-- Whether the request goes to the memory itself. -/
def accessesMemory : MachineRequest → Bool
  | .memory _ => true
  | _ => false

end MachineRequest

namespace Machine

variable {start : Memory} {programs : List Program} {m : Machine} {request : MachineRequest}
  {requests : List MachineRequest}

/-- A request that submits nothing moves processes, or it ticks. -/
theorem Faithful.after_of_submits_none (h : m.Faithful start programs)
    (hi : programs.Pairwise Program.Independent) (hr : request.AgesByRule)
    (hmemory : request.accessesMemory = false) (hnone : request.submits? = none) :
    (m.after request).Faithful start programs := by
  have hs := settled_after h.settled hr
  cases request with
  | submit | submitAt => cases hnone
  | memory request => cases hmemory
  | power on => exact h.moved hs ⟨.refl _, rfl⟩ rfl
  | start => exact h.moved hs (Scheduler.moved_start _) rfl
  | stop => exact h.moved hs (Scheduler.moved_stop _) rfl
  | requestStop => exact h.moved hs ⟨.refl _, rfl⟩ rfl
  | wake pid => exact h.moved hs (Scheduler.moved_wake _ pid) rfl
  | kill pid => exact h.moved hs (Scheduler.moved_kill _ pid) rfl
  | reap => exact h.moved hs (Scheduler.moved_reap _) rfl
  | setPolicy policy => exact h.moved hs ⟨.refl _, rfl⟩ rfl
  | tick => exact h.tick hi
  | run maxTicks =>
      exact run_induction (P := Faithful start programs) (fun _ hm => hm.tick hi) h maxTicks

theorem Faithful.after (h : m.Faithful start programs) (hr : request.AgesByRule)
    (hmemory : request.accessesMemory = false)
    (hi : (programs ++ request.submits?.toList).Pairwise Program.Independent) :
    (m.after request).Faithful start (programs ++ request.submits?.toList) := by
  cases hsubmits : request.submits? with
  | none =>
      have hpairwise := (List.pairwise_append.1 hi).1
      rw [Option.toList_none, List.append_nil]
      exact h.after_of_submits_none hpairwise hr hmemory hsubmits
  | some program =>
      rw [hsubmits] at hi
      cases request with
      | submit program =>
          cases hsubmits
          exact h.submitAt hi .normal
      | submitAt program priority =>
          cases hsubmits
          exact h.submitAt hi priority
      | _ => cases hsubmits

theorem Faithful.afterAll (h : m.Faithful start programs)
    (hr : ∀ request ∈ requests, request.AgesByRule)
    (hmemory : ∀ request ∈ requests, request.accessesMemory = false)
    (hi : (programs ++ requests.filterMap MachineRequest.submits?).Pairwise
      Program.Independent) :
    (m.afterAll requests).Faithful start
      (programs ++ requests.filterMap MachineRequest.submits?) := by
  -- The list of programs grows with the requests, and it stays independent.
  induction requests generalizing m programs with
  | nil =>
      rw [List.filterMap_nil, List.append_nil]
      exact h
  | cons request rest ih =>
      obtain ⟨hr₁, hr₂⟩ := List.forall_mem_cons.1 hr
      obtain ⟨hm₁, hm₂⟩ := List.forall_mem_cons.1 hmemory
      have hsplit : programs ++ (request :: rest).filterMap MachineRequest.submits? =
          (programs ++ request.submits?.toList) ++
            rest.filterMap MachineRequest.submits? := by
        rw [List.filterMap_cons, List.append_assoc]
        cases request.submits? <;> rfl
      rw [hsplit] at hi ⊢
      exact ih (h.after hr₁ hm₁ (List.pairwise_append.1 hi).1) hr₂ hm₂ hi

/-- The requests are made of a machine with a new scheduler that nobody else uses, and
no program that they submit writes to a page of another one. -/
structure Exclusive (m : Machine) (requests : List MachineRequest) : Prop where
  new : ∃ policy : Policy, policy.AgesByRule ∧ m.scheduler = .new policy
  agesByRule : ∀ request ∈ requests, request.AgesByRule
  memory : ∀ request ∈ requests, request.accessesMemory = false
  independent : (requests.filterMap MachineRequest.submits?).Pairwise Program.Independent

theorem Exclusive.faithful (h : m.Exclusive requests) :
    (m.afterAll requests).Faithful m.memory (requests.filterMap MachineRequest.submits?) := by
  obtain ⟨policy, hpolicy, hnew⟩ := h.new
  have hm : m.Faithful m.memory [] := by
    have := faithful_new hpolicy m.cpu m.memory
    rw [← hnew] at this
    exact this
  exact hm.afterAll h.agesByRule h.memory h.independent

/-- A process that was handed to the processor has the context and the bytes that its
program has alone after as many instructions, resumed after each wait. If it ended by
itself, its program alone ends in the same way. So any two machines with the same
memory at the start take a program to the same end. -/
theorem transparent (h : m.Exclusive requests) :
    (∀ pid p, (m.afterAll requests).scheduler.processes.get? pid = some p → 0 < p.dispatches →
      p.context = (p.program.alone m.memory p.context.retired).2.context ∧
      ∀ page ∈ p.program.pages, (m.afterAll requests).memory.bytes? page =
        (p.program.alone m.memory p.context.retired).2.memory.bytes? page) ∧
    (∀ pid p exit, (m.afterAll requests).scheduler.processes.get? pid = some p →
      p.exit? = some exit → 0 < p.dispatches ∧
      ∀ n, p.context.retired < n → (p.program.alone m.memory n).1 = exit) ∧
    (∀ (m' : Machine) (requests' : List MachineRequest), m'.Exclusive requests' →
      m'.memory = m.memory → ∀ pid pid' p p' exit exit',
      (m.afterAll requests).scheduler.processes.get? pid = some p →
      (m'.afterAll requests').scheduler.processes.get? pid' = some p' →
      p'.program = p.program → p.exit? = some exit → p'.exit? = some exit' →
      exit' = exit ∧ p'.context = p.context ∧
      ∀ page ∈ p.program.pages, (m'.afterAll requests').memory.bytes? page =
        (m.afterAll requests).memory.bytes? page) := by
  have hfaithful := h.faithful
  refine ⟨?_, ?_, ?_⟩
  · intro pid p hp hd
    have halike := ((hfaithful.inStep pid p hp).reaches hd).alike
    exact ⟨halike.context_eq, fun page hpage => halike.sameOn.bytes?_eq hpage⟩
  · intro pid p exit hp hexit
    exact (hfaithful.inStep pid p hp).ends exit hexit
  · intro m' requests' h' hstart pid pid' p p' exit exit' hp hp' hprogram hexit hexit'
    have hstep := hfaithful.inStep pid p hp
    have hstep' := h'.faithful.inStep pid' p' hp'
    obtain ⟨hd, hends⟩ := hstep.ends exit hexit
    obtain ⟨hd', hends'⟩ := hstep'.ends exit' hexit'
    have hreaches' := hstep'.reaches hd'
    rw [hstart, hprogram] at hreaches' hends'
    obtain ⟨hsame, hcontext, hpages⟩ := Program.EndsAlone.unique hreaches' hends'
      (Process.stops_of_exit? hexit').1 (hstep.reaches hd) hends (Process.stops_of_exit? hexit).1
    exact ⟨hsame, hcontext, fun page hpage => hpages.bytes?_eq hpage⟩

/-- Two schedules of the same two programs: the first one waits and is woken, once
under round robin and once, submitted last, under shortest job first with slices of a
single instruction. -/
theorem transparent_of_two_schedules :
    let memory := ({} : Memory).afterAll [.reset 8192 none, .allocate 0 4096, .allocate 1 4096]
    let p := Program.ofList [.loadImm 0 7, .wait, .store 0 0 8, .load 1 0 8, .halt]
    let q := Program.ofList [.loadImm 2 9, .store 2 1 8, .halt]
    let m : Machine := { scheduler := .new (.roundRobin {}), memory }
    let requests := [.submit p, .submit q, .start, .power true, .run 8, .wake 1, .run 8]
    let m' : Machine := { scheduler := .new (.shortestJobFirst { baseQuantum := 1 }), memory }
    let requests' := [.power true, .submit q, .tick, .submit p, .start, .run 4, .kill 1,
      .run 8, .wake 2, .run 8]
    m.Exclusive requests ∧ m'.Exclusive requests' ∧
      ∃ r r', (m.afterAll requests).scheduler.processes.get? 1 = some r ∧
        (m'.afterAll requests').scheduler.processes.get? 2 = some r' ∧
        r.exit? = some (.ok .halted) ∧ r'.exit? = some (.ok .halted) ∧
        r.context = (p.alone memory r.context.retired).2.context ∧ r'.context = r.context ∧
        (m'.afterAll requests').memory.bytes? 0 = (m.afterAll requests).memory.bytes? 0 := by
  intro memory p q m requests m' requests'
  have h : m.Exclusive requests :=
    ⟨⟨_, PolicyKind.agesByRule_build .roundRobin {}, rfl⟩, by simp [requests, MachineRequest.AgesByRule],
      by simp [requests, MachineRequest.accessesMemory], by decide⟩
  have h' : m'.Exclusive requests' :=
    ⟨⟨_, PolicyKind.agesByRule_build .shortestJobFirst { baseQuantum := 1 }, rfl⟩,
      by simp [requests', MachineRequest.AgesByRule],
      by simp [requests', MachineRequest.accessesMemory], by decide⟩
  have hend : ((m.afterAll requests).scheduler.processes.get? 1).map
      (fun r => (r.state, r.fault, r.program)) = some (.terminated, none, p) := by
    decide +kernel
  have hend' : ((m'.afterAll requests').scheduler.processes.get? 2).map
      (fun r => (r.state, r.fault, r.program)) = some (.terminated, none, p) := by
    decide +kernel
  obtain ⟨r, hr, heq⟩ := Option.map_eq_some_iff.1 hend
  obtain ⟨r', hr', heq'⟩ := Option.map_eq_some_iff.1 hend'
  obtain ⟨hstate, hfault, hprogram⟩ : r.state = .terminated ∧ r.fault = none ∧ r.program = p := by
    simpa using heq
  obtain ⟨hstate', hfault', hprogram'⟩ :
      r'.state = .terminated ∧ r'.fault = none ∧ r'.program = p := by
    simpa using heq'
  have hexit := Process.exit?_of_halted hstate hfault
  have hexit' := Process.exit?_of_halted hstate' hfault'
  obtain ⟨halone, hends, hunique⟩ := transparent h
  obtain ⟨hd, -⟩ := hends 1 r _ hr hexit
  obtain ⟨-, hcontext, hbytes⟩ := hunique m' requests' h' rfl 1 2 r r' _ _ hr hr'
    (hprogram'.trans hprogram.symm) hexit hexit'
  have hreached := (halone 1 r hr hd).1
  have hpage : 0 ∈ r.program.pages := by
    rw [hprogram]
    decide
  rw [hprogram] at hreached
  exact ⟨h, h', r, r', hr, hr', hexit, hexit', hreached, hcontext, hbytes 0 hpage⟩

end Machine

end Timeshare
