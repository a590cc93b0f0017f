import Timeshare.Proofs.Cpu.Footprint
import Timeshare.Proofs.Cpu.Run

/-!
# The requests of a run

A program reaches the memory only through its loads and stores, and each of them is a
request for one word. `Cpu.requests` lists the requests that a run makes, in their
order, and the memory after the run is the memory after these requests
(`Cpu.memory_run`).

A memory is used by requests and by runs on it. `Memory.history` lists all requests of
such uses, so that a statement about any history of requests covers the runs of
programs as well (`Memory.afterUses_eq_afterAll`).
-/

namespace Timeshare

/-- The request that an instruction makes of the memory in a context. -/
def Instruction.request? (c : Context) : Instruction → Option MemoryRequest
  | .load _ page offset => some (.readWord page.toNat offset.toNat)
  | .store rs page offset => some (.writeWord page.toNat offset.toNat (c.register rs))
  | _ => none

theorem Instruction.memoryAfter_eq_afterAll (i : Instruction) (w : Workspace) :
    i.memoryAfter w = w.memory.afterAll (i.request? w.context).toList := by
  cases i with
  | load rd page offset => exact (Reply.state_map ..).symm
  | store rs page offset => exact (Reply.state_map ..).symm
  | _ => rfl

namespace Program

variable {p : Program} {w w' : Workspace} {exit : Exit}

/-- The request of the instruction at the instruction pointer. -/
def request? (p : Program) (w : Workspace) : Option MemoryRequest :=
  (p.get? w.context.ip).bind (·.request? w.context)

theorem memory_workspace_step (p : Program) (w : Workspace) :
    (p.step w).workspace.memory = w.memory.afterAll (p.request? w).toList := by
  rw [step, request?]
  cases p.get? w.context.ip with
  | none => rfl
  | some i => exact (i.memory_execute p.size w).trans (i.memoryAfter_eq_afterAll w)

/-- The requests of up to `budget` instructions. -/
def requestsFor (p : Program) : Nat → Workspace → List MemoryRequest
  | 0, _ => []
  | budget + 1, w =>
    (p.request? w).toList ++
      match p.step w with
      | .next w' => p.requestsFor budget w'
      | .stop _ _ => []

theorem memory_runFor (p : Program) (budget : Nat) (w : Workspace) :
    (p.runFor budget w).2.memory = w.memory.afterAll (p.requestsFor budget w) := by
  induction budget generalizing w with
  | zero => rfl
  | succ budget ih =>
      have hstep := p.memory_workspace_step w
      rw [requestsFor, Memory.afterAll_append, ← hstep]
      cases hs : p.step w with
      | next w' =>
          rw [runFor_succ_of_next hs, ih]
          rfl
      | stop exit w' =>
          rw [runFor_succ_of_stop hs]
          rfl

/-- The requests of a run that continues the context of the workspace. -/
def requests (p : Program) (budget : Nat) (w : Workspace) : List MemoryRequest :=
  match w.context.enter p with
  | .error _ => []
  | .ok context => p.requestsFor budget { w with context }

theorem memory_resume (p : Program) (budget : Nat) (w : Workspace) :
    (p.resume budget w).2.memory = w.memory.afterAll (p.requests budget w) := by
  rw [resume, requests]
  cases w.context.enter p with
  | error e => rfl
  | ok context => exact p.memory_runFor budget { w with context }

end Program

namespace Cpu

/-- The requests of a run of the processor; without power there are none. -/
def requests (cpu : Cpu) (p : Program) (w : Workspace) (budget : Option Nat) :
    List MemoryRequest :=
  if cpu.powered then p.requests (budget.getD unlimited) w else []

theorem memory_run (cpu : Cpu) (p : Program) (w : Workspace) (budget : Option Nat) :
    (cpu.run p w budget).workspace.memory = w.memory.afterAll (cpu.requests p w budget) := by
  rw [requests]
  cases hp : cpu.powered with
  | false => simp [run, hp]
  | true =>
      rw [workspace_run hp]
      exact p.memory_resume (budget.getD unlimited) w

end Cpu

/-! ## Uses of a memory -/

/-- A use of a memory: a request, or a run of a program on it. -/
inductive MemoryUse
  | request (request : MemoryRequest)
  | run (cpu : Cpu) (program : Program) (context : Context) (budget : Option Nat)

namespace Memory

/-- The memory after a use. -/
def afterUse (m : Memory) : MemoryUse → Memory
  | .request request => m.after request
  | .run cpu program context budget => (cpu.run program ⟨context, m⟩ budget).workspace.memory

/-- The requests that a use makes. -/
def requestsOf (m : Memory) : MemoryUse → List MemoryRequest
  | .request request => [request]
  | .run cpu program context budget => cpu.requests program ⟨context, m⟩ budget

/-- The memory after some uses. -/
def afterUses (m : Memory) (uses : List MemoryUse) : Memory := uses.foldl afterUse m

/-- All requests of some uses. -/
def history (m : Memory) : List MemoryUse → List MemoryRequest
  | [] => []
  | use :: rest => m.requestsOf use ++ (m.afterUse use).history rest

theorem afterUse_eq_afterAll (m : Memory) (use : MemoryUse) :
    m.afterUse use = m.afterAll (m.requestsOf use) := by
  cases use with
  | request request => rfl
  | run cpu program context budget => exact cpu.memory_run program ⟨context, m⟩ budget

theorem afterUses_eq_afterAll (m : Memory) (uses : List MemoryUse) :
    m.afterUses uses = m.afterAll (m.history uses) := by
  induction uses generalizing m with
  | nil => rfl
  | cons use rest ih =>
      rw [history, afterAll_append, ← afterUse_eq_afterAll, ← ih]
      rfl

end Memory

end Timeshare
