import Timeshare.Proofs.Cpu.Slices
import Timeshare.Proofs.Memory.Visible

/-!
# The pages of a program

A program reaches only the pages that its instructions name. Its run cannot tell
memories apart that show the same at these pages (`Program.alike_runFor`), and it
leaves every page to which it has no store as it was (`Program.sameOn_resume`).
-/

namespace Timeshare

namespace Instruction

/-- The page that the instruction reads. -/
def loads? : Instruction → Option PageNumber
  | .load _ page _ => some page.toNat
  | _ => none

/-- The page to which the instruction writes. -/
def stores? : Instruction → Option PageNumber
  | .store _ page _ => some page.toNat
  | _ => none

end Instruction

namespace Program

/-- The pages that are named in a load of the program. -/
def loads (p : Program) : List PageNumber := p.toList.filterMap Instruction.loads?

/-- The pages that are named in a store of the program. -/
def stores (p : Program) : List PageNumber := p.toList.filterMap Instruction.stores?

/-- The pages that the program reads or writes. -/
def pages (p : Program) : List PageNumber := p.loads ++ p.stores

variable {p : Program} {n : Nat} {i : Instruction} {page : PageNumber}

theorem mem_pages_of_loads? (h : p.get? n = some i) (hi : i.loads? = some page) :
    page ∈ p.pages := by
  have hmem : i ∈ p.toList := List.mem_of_getElem? (get?_eq_some_iff.1 h)
  exact List.mem_append_left _ (List.mem_filterMap.2 ⟨i, hmem, hi⟩)

theorem mem_stores_of_stores? (h : p.get? n = some i) (hi : i.stores? = some page) :
    page ∈ p.stores := by
  have hmem : i ∈ p.toList := List.mem_of_getElem? (get?_eq_some_iff.1 h)
  exact List.mem_filterMap.2 ⟨i, hmem, hi⟩

theorem mem_pages_of_mem_stores (h : page ∈ p.stores) : page ∈ p.pages :=
  List.mem_append_right _ h

end Program

/-! ## Runs that see the same -/

/-- The contexts are the same, and the memories show the same at the given pages. -/
structure Workspace.Alike (pages : List PageNumber) (w w' : Workspace) : Prop where
  context_eq : w.context = w'.context
  sameOn : w.memory.SameOn pages w'.memory

/-- The steps come to the same as far as the given pages show. -/
inductive Step.Alike (pages : List PageNumber) : Step → Step → Prop
  | next {w w' : Workspace} (h : w.Alike pages w') : Alike pages (.next w) (.next w')
  | stop (exit : Exit) {w w' : Workspace} (h : w.Alike pages w') :
      Alike pages (.stop exit w) (.stop exit w')

section alike

variable {pages : List PageNumber} {w w' : Workspace}

theorem Workspace.alike_mk {context context' : Context} {memory memory' : Memory}
    (hc : context = context') (hm : memory.SameOn pages memory') :
    Workspace.Alike pages ⟨context, memory⟩ ⟨context', memory'⟩ :=
  ⟨hc, hm⟩

theorem Workspace.Alike.trans {w₁ : Workspace} (h : w.Alike pages w')
    (h₁ : w'.Alike pages w₁) : w.Alike pages w₁ :=
  ⟨h.context_eq.trans h₁.context_eq, h.sameOn.trans h₁.sameOn⟩

theorem Workspace.Alike.retire (h : w.Alike pages w') : w.retire.Alike pages w'.retire := by
  refine ⟨?_, h.sameOn⟩
  rw [Workspace.retire, Workspace.retire, h.context_eq]

theorem Workspace.Alike.setRegister (h : w.Alike pages w') (r : Register) (value : UInt32) :
    (w.setRegister r value).Alike pages (w'.setRegister r value) := by
  refine ⟨?_, h.sameOn⟩
  rw [Workspace.setRegister, Workspace.setRegister, h.context_eq]

theorem Workspace.Alike.branch (h : w.Alike pages w') (target : UInt32) (length : Nat) :
    Step.Alike pages (w.branch target length) (w'.branch target length) := by
  rw [Workspace.branch, Workspace.branch]
  cases branchTarget target length with
  | ok ip => exact .next ⟨by rw [h.context_eq], h.sameOn⟩
  | error e => exact .stop _ h

theorem Instruction.alike_execute {i : Instruction} (h : w.Alike pages w')
    (hloads : ∀ page, i.loads? = some page → page ∈ pages)
    (hstores : ∀ page, i.stores? = some page → page ∈ pages) (length : Nat) :
    Step.Alike pages (i.execute length w) (i.execute length w') := by
  cases i with
  | nop => exact .next h.retire
  | loadImm rd imm => exact .next (h.setRegister rd imm).retire
  | load rd page offset =>
      have hpage := hloads _ rfl
      have hresult := h.sameOn.result_read hpage offset.toNat 4
      have hstate := h.sameOn.state_read page.toNat offset.toNat 4
      have halike := Workspace.alike_mk h.context_eq hstate
      simp only [execute, Memory.readWord, Reply.result_map, Reply.state_map, hresult]
      cases (w'.memory.read page.toNat offset.toNat 4).result with
      | ok bytes => exact .next (halike.setRegister rd _).retire
      | error e => exact .stop _ halike
  | store rs page offset =>
      have hpage := hstores _ rfl
      simp only [execute, Memory.writeWord, h.context_eq]
      rw [h.sameOn.result_write hpage]
      have hstate := h.sameOn.state_write hpage offset.toNat
        (Memory.wordBytes (w'.context.register rs))
      have halike := Workspace.alike_mk (Eq.refl w'.context) hstate
      cases (w'.memory.write page.toNat offset.toNat
          (Memory.wordBytes (w'.context.register rs))).result with
      | ok _ => exact .next halike.retire
      | error e => exact .stop _ halike
  | alu op rd ra rb =>
      simp only [execute, h.context_eq]
      exact .next (h.setRegister rd _).retire
  | jump target => exact h.branch target length
  | branchZero rs target =>
      simp only [execute, h.context_eq]
      split
      · exact h.branch target length
      · exact .next h.retire
  | branchNonZero rs target =>
      simp only [execute, h.context_eq]
      split
      · exact .next h.retire
      · exact h.branch target length
  | wait => exact .stop _ h.retire
  | halt => exact .stop _ h

namespace Program

variable {p : Program}

theorem alike_step (h : w.Alike p.pages w') : Step.Alike p.pages (p.step w) (p.step w') := by
  rw [step, step, h.context_eq]
  cases hi : p.get? w'.context.ip with
  | none => exact .stop _ h
  | some i =>
      refine Instruction.alike_execute h ?_ ?_ p.size
      · exact fun page hpage => mem_pages_of_loads? hi hpage
      · exact fun page hpage => mem_pages_of_mem_stores (mem_stores_of_stores? hi hpage)

theorem alike_runFor (h : w.Alike p.pages w') (n : Nat) :
    (p.runFor n w).1 = (p.runFor n w').1 ∧
      (p.runFor n w).2.Alike p.pages (p.runFor n w').2 := by
  induction n generalizing w w' with
  | zero => exact ⟨rfl, h⟩
  | succ n ih =>
      have hstep := alike_step h
      cases hs : p.step w with
      | next w₁ =>
          rw [hs] at hstep
          cases hs' : p.step w' with
          | next w₁' =>
              rw [hs'] at hstep
              cases hstep with
              | next h₁ =>
                  rw [runFor_succ_of_next hs, runFor_succ_of_next hs']
                  exact ih h₁
          | stop exit w₁' =>
              rw [hs'] at hstep
              cases hstep
      | stop exit w₁ =>
          rw [hs] at hstep
          cases hs' : p.step w' with
          | next w₁' =>
              rw [hs'] at hstep
              cases hstep
          | stop exit' w₁' =>
              rw [hs'] at hstep
              cases hstep with
              | stop _ h₁ =>
                  rw [runFor_succ_of_stop hs, runFor_succ_of_stop hs']
                  exact ⟨rfl, h₁⟩

end Program

end alike

/-! ## What a run leaves alone -/

/-- The workspace that a step leaves. -/
def Step.workspace : Step → Workspace
  | .next w => w
  | .stop _ w => w

section frame

variable {w : Workspace} {pages : List PageNumber}

/-- The memory after an instruction; only loads and stores touch it. -/
def Instruction.memoryAfter (i : Instruction) (w : Workspace) : Memory :=
  match i with
  | .load _ page offset => (w.memory.readWord page.toNat offset.toNat).state
  | .store rs page offset =>
    (w.memory.writeWord page.toNat offset.toNat (w.context.register rs)).state
  | _ => w.memory

theorem Workspace.memory_branch (w : Workspace) (target : UInt32) (length : Nat) :
    (w.branch target length).workspace.memory = w.memory := by
  rw [Workspace.branch]
  split <;> rfl

theorem Instruction.memory_execute (i : Instruction) (length : Nat) (w : Workspace) :
    (i.execute length w).workspace.memory = i.memoryAfter w := by
  cases i with
  | nop | loadImm | alu | wait | halt => rfl
  | load rd page offset =>
      simp only [execute]
      split <;> rfl
  | store rs page offset =>
      simp only [execute]
      split <;> rfl
  | jump target => exact w.memory_branch target length
  | branchZero rs target =>
      simp only [execute]
      split
      · exact w.memory_branch target length
      · rfl
  | branchNonZero rs target =>
      simp only [execute]
      split
      · rfl
      · exact w.memory_branch target length

/-- An instruction changes no page but the one that it stores to. -/
theorem Instruction.sameOn_execute (i : Instruction) (length : Nat) (w : Workspace)
    (hi : ∀ page, i.stores? = some page → page ∉ pages) :
    (i.execute length w).workspace.memory.SameOn pages w.memory := by
  rw [memory_execute]
  cases i with
  | load rd page offset =>
      exact ⟨Memory.initialized_read .., fun other _ => Memory.visible_read ..⟩
  | store rs page offset =>
      refine ⟨Memory.initialized_write .., fun other hother => ?_⟩
      rw [memoryAfter, Memory.writeWord, Memory.visible_write, if_neg]
      rintro ⟨rfl, -⟩
      exact hi _ rfl hother
  | _ => exact .refl pages w.memory

/-- An instruction that stops has changed no page at all. -/
theorem Instruction.sameOn_of_stop {i : Instruction} {length : Nat} {exit : Exit}
    {w' : Workspace} (h : i.execute length w = .stop exit w') (pages : List PageNumber) :
    w'.memory.SameOn pages w.memory := by
  have hmemory := i.memory_execute length w
  rw [h] at hmemory
  change w'.memory = i.memoryAfter w at hmemory
  rw [hmemory]
  cases i with
  | load rd page offset =>
      exact ⟨Memory.initialized_read .., fun other _ => Memory.visible_read ..⟩
  | store rs page offset =>
      -- It stopped, so the write was refused.
      refine ⟨Memory.initialized_write .., fun other _ => ?_⟩
      simp only [execute, Memory.writeWord, Memory.result_write] at h
      split at h
      · cases h
      next e he =>
        rw [memoryAfter, Memory.writeWord, Memory.visible_write, he, if_neg]
        simp [Except.isOk, Except.toBool]
  | _ => exact .refl pages w.memory

namespace Program

variable {p : Program}

theorem sameOn_of_stop {exit : Exit} {w' : Workspace} (h : p.step w = .stop exit w')
    (pages : List PageNumber) : w'.memory.SameOn pages w.memory := by
  obtain ⟨-, -, rfl⟩ | ⟨i, -, hstop⟩ := execute_of_stop h
  · exact .refl pages _
  · exact Instruction.sameOn_of_stop hstop pages

theorem sameOn_step (hp : ∀ page ∈ p.stores, page ∉ pages) (w : Workspace) :
    (p.step w).workspace.memory.SameOn pages w.memory := by
  rw [step]
  cases hi : p.get? w.context.ip with
  | none => exact .refl pages w.memory
  | some i =>
      exact Instruction.sameOn_execute i p.size w
        fun page hpage => hp page (mem_stores_of_stores? hi hpage)

theorem sameOn_runFor (hp : ∀ page ∈ p.stores, page ∉ pages) (n : Nat) (w : Workspace) :
    (p.runFor n w).2.memory.SameOn pages w.memory := by
  induction n generalizing w with
  | zero => exact .refl pages w.memory
  | succ n ih =>
      have hstep := sameOn_step hp w
      cases hs : p.step w with
      | next w₁ =>
          rw [hs] at hstep
          rw [runFor_succ_of_next hs]
          exact (ih w₁).trans hstep
      | stop exit w₁ =>
          rw [hs] at hstep
          rw [runFor_succ_of_stop hs]
          exact hstep

/-- A run leaves every page alone that no store of the program names. -/
theorem sameOn_resume (hp : ∀ page ∈ p.stores, page ∉ pages) (n : Nat) (w : Workspace) :
    (p.resume n w).2.memory.SameOn pages w.memory := by
  cases he : w.context.enter p with
  | error e =>
      rw [resume_of_enter_error he]
      exact .refl pages w.memory
  | ok context =>
      rw [resume_of_enter_ok he]
      exact sameOn_runFor hp n { w with context }

end Program

end frame

end Timeshare
