import Timeshare.Proofs.Cpu.Faults

/-!
# Where the instruction pointer can be

An instruction leaves the instruction pointer where it is, or at an instruction to which it
jumps, or behind itself if it is not a halt (`Instruction.ip_execute`). So a bound that is
right above no instruction but a halt is never reached (`Program.Confined`). The length of a
program that ends with a halt is such a bound, and every program that is read from bytes ends
with one (`Program.confined_of_ofBytes`); for any program it is one more than its length
(`Program.confined_succ_size`).

A context that is resumed again and again may find another processor, another memory and
another budget each time. `Program.contextAfter` is the context after such a sequence of
turns, and it stays below the bound as well (`Program.Confined.contextAfter`).
-/

namespace Timeshare

/-! ## One instruction -/

namespace Instruction

variable {i : Instruction} {length : Nat} {w w' : Workspace} {e : CpuError} {target : UInt32}

/-- The target of the instruction, if it is a jump or a branch that is taken in the
context. -/
def target? (c : Context) : Instruction → Option UInt32
  | .jump target => some target
  | .branchZero rs target => if c.register rs = 0 then some target else none
  | .branchNonZero rs target => if c.register rs = 0 then none else some target
  | _ => none

theorem execute_of_target? (h : i.target? w.context = some target) :
    i.execute length w = w.branch target length := by
  cases i with
  | jump =>
      cases h
      rfl
  | branchZero rs target' =>
      simp only [target?] at h
      split at h <;> cases h
      next hzero => exact if_pos hzero
  | branchNonZero rs target' =>
      simp only [target?] at h
      split at h <;> cases h
      next hzero => exact if_neg hzero
  | _ => cases h

/-- A taken branch goes to an instruction, or it fails and does not move. -/
theorem ip_branch (w : Workspace) (target : UInt32) (length : Nat) :
    (w.branch target length).workspace.context.ip = w.context.ip ∨
      (w.branch target length).workspace.context.ip < length := by
  rw [Workspace.branch, branchTarget]
  by_cases h : target.toNat < length
  · rw [if_pos h]
    exact .inr h
  · rw [if_neg h]
    exact .inl rfl

/-- An instruction without a target moves on and does not fail, or it does not move and fails
for the memory if at all. -/
theorem execute_of_no_target (length : Nat) (h : i.target? w.context = none) :
    (i ≠ .halt ∧ (i.execute length w).workspace.context.ip = w.context.ip + 1 ∧
      ∀ e w', i.execute length w ≠ .stop (.error e) w') ∨
    ((i.execute length w).workspace.context.ip = w.context.ip ∧
      ∀ e w', i.execute length w = .stop (.error e) w' → ∃ cause, e = .memory cause) := by
  cases i with
  | nop | loadImm | alu | wait => exact .inl ⟨by simp, rfl, by simp [execute]⟩
  | load | store =>
      simp only [execute]
      split
      · exact .inl ⟨by simp, rfl, by simp⟩
      next cause _ =>
        refine .inr ⟨rfl, ?_⟩
        rintro e w' ⟨⟩
        exact ⟨cause, rfl⟩
  | jump => cases h
  | branchZero rs target =>
      have hnot : w.context.register rs ≠ 0 := by simpa [target?] using h
      rw [execute, if_neg hnot]
      exact .inl ⟨by simp, rfl, by simp⟩
  | branchNonZero rs target =>
      have hzero : w.context.register rs = 0 := by simpa [target?] using h
      rw [execute, if_pos hzero]
      exact .inl ⟨by simp, rfl, by simp⟩
  | halt => exact .inr ⟨rfl, by simp [execute]⟩

/-- An instruction does not move, goes to another instruction, or is no halt and moves on to
what follows it. -/
theorem ip_execute (i : Instruction) (length : Nat) (w : Workspace) :
    (i.execute length w).workspace.context.ip = w.context.ip ∨
      (i.execute length w).workspace.context.ip < length ∨
      (i ≠ .halt ∧ (i.execute length w).workspace.context.ip = w.context.ip + 1) := by
  cases h : i.target? w.context with
  | some target =>
      rw [execute_of_target? h]
      exact (ip_branch w target length).imp_right .inl
  | none =>
      obtain ⟨hhalt, hnext, -⟩ | ⟨hstays, -⟩ := execute_of_no_target length h
      · exact .inr (.inr ⟨hhalt, hnext⟩)
      · exact .inl hstays

/-- An instruction fails for its target or for the memory. -/
theorem failed_execute (h : i.execute length w = .stop (.error e) w') :
    (∃ target, i.target? w.context = some target ∧ length ≤ target.toNat ∧
      e = .invalidJump target.toNat length) ∨
    ∃ cause, e = .memory cause := by
  cases ht : i.target? w.context with
  | some target =>
      rw [execute_of_target? ht, Workspace.branch, branchTarget] at h
      by_cases hlt : target.toNat < length
      · rw [if_pos hlt] at h
        cases h
      · rw [if_neg hlt] at h
        cases h
        exact .inl ⟨target, rfl, Nat.le_of_not_lt hlt, rfl⟩
  | none =>
      obtain ⟨-, -, hnever⟩ | ⟨-, hmemory⟩ := execute_of_no_target length ht
      · exact absurd h (hnever e w')
      · exact .inr (hmemory e w' h)

end Instruction

namespace Program

variable {p : Program} {n ip length target : Nat} {w w' : Workspace} {bytes : List UInt8}

/-! ## Bounds that are never reached -/

/-- No instruction leads from below `n` to `n` or above it. -/
structure Confined (p : Program) (n : Nat) : Prop where
  pos : 0 < n
  size_le : p.size ≤ n
  next_lt : ∀ ip i, p.get? ip = some i → i ≠ .halt → ip + 1 < n

theorem lt_size_of_get? {i : Instruction} (h : p.get? ip = some i) : ip < p.size := by
  refine Nat.lt_of_not_le fun hle => ?_
  rw [get?_eq_none_iff.2 hle] at h
  cases h

theorem confined_succ_size (p : Program) : p.Confined (p.size + 1) where
  pos := Nat.succ_pos _
  size_le := Nat.le_succ _
  next_lt := fun _ _ h _ => Nat.succ_lt_succ (lt_size_of_get? h)

/-- Right under the length of the program there is nothing but the halt at its end. -/
theorem confined_of_getLast? (h : p.toList.getLast? = some .halt) : p.Confined p.size where
  pos := List.length_pos_of_mem (List.mem_of_getLast? h)
  size_le := Nat.le_refl _
  next_lt := by
    intro ip i hi hhalt
    refine Nat.lt_of_le_of_ne (lt_size_of_get? hi) fun hlast => hhalt ?_
    have hlength : p.toList.length - 1 = ip := by
      rw [← size_eq_length, ← hlast, Nat.add_sub_cancel]
    rw [List.getLast?_eq_getElem?, hlength, get?_eq_some_iff.1 hi] at h
    exact Option.some.inj h

/-- What is read from bytes starts at its first instruction and ends with a halt. -/
theorem entry_of_ofBytes (h : ofBytes bytes = .ok p) :
    p.entry = 0 ∧ p.toList.getLast? = some .halt := by
  rw [ofBytes] at h
  cases hcode : Instruction.decodeAll 0 bytes with
  | error e =>
      rw [hcode] at h
      cases h
  | ok code =>
      rw [hcode] at h
      cases h
      refine ⟨rfl, ?_⟩
      rw [toList_ofList, haltTerminated]
      split
      next hlast => exact hlast
      next => exact List.getLast?_concat

theorem confined_of_ofBytes (h : ofBytes bytes = .ok p) : p.Confined p.size :=
  confined_of_getLast? (entry_of_ofBytes h).2

namespace Confined

theorem step (h : p.Confined n) (hip : w.context.ip < n) :
    (p.step w).workspace.context.ip < n := by
  rw [Program.step]
  cases hi : p.get? w.context.ip with
  | none => exact hip
  | some i =>
      obtain hsame | hlt | ⟨hhalt, hnext⟩ := i.ip_execute p.size w
      · exact hsame ▸ hip
      · exact Nat.lt_of_lt_of_le hlt h.size_le
      · exact hnext ▸ h.next_lt _ i hi hhalt

theorem runFor (h : p.Confined n) (hip : w.context.ip < n) (budget : Nat) :
    (p.runFor budget w).2.context.ip < n := by
  induction budget generalizing w with
  | zero => exact hip
  | succ budget ih =>
      have hstep := h.step hip
      cases hs : p.step w with
      | next w₁ =>
          rw [hs] at hstep
          rw [runFor_succ_of_next hs]
          exact ih hstep
      | stop exit w₁ =>
          rw [hs] at hstep
          rw [runFor_succ_of_stop hs]
          exact hstep

theorem enter (h : p.Confined n) {c c' : Context} (hip : c.ip < n) (he : c.enter p = .ok c') :
    c'.ip < n := by
  obtain ⟨-, rfl⟩ | ⟨-, hentry, rfl⟩ := enter_cases he
  · exact hip
  · exact Nat.lt_of_lt_of_le hentry h.size_le

theorem resume (h : p.Confined n) (hip : w.context.ip < n) (budget : Nat) :
    (p.resume budget w).2.context.ip < n := by
  cases he : w.context.enter p with
  | error e =>
      rw [resume_of_enter_error he]
      exact hip
  | ok context =>
      rw [resume_of_enter_ok he]
      exact h.runFor (h.enter hip he) budget

end Confined

/-! ## The errors that depend on where a program is -/

theorem FailsAt.outOfProgram (h : p.FailsAt w (.outOfProgram ip length)) :
    ip = w.context.ip ∧ length = p.size ∧ p.size ≤ ip := by
  obtain ⟨hnone, heq⟩ | ⟨i, -, hexecute⟩ := h
  · cases heq
    exact ⟨rfl, rfl, get?_eq_none_iff.1 hnone⟩
  · obtain ⟨target, -, -, heq⟩ | ⟨cause, heq⟩ := Instruction.failed_execute hexecute <;> cases heq

/-- An invalid jump is that of an executed jump or of a branch that was taken. -/
theorem FailsAt.invalidJump (h : p.FailsAt w (.invalidJump target length)) :
    length = p.size ∧ length ≤ target ∧
      ∃ i jump, p.get? w.context.ip = some i ∧ i.target? w.context = some jump ∧
        jump.toNat = target ∧
        i.execute p.size w = .stop (.error (.invalidJump target length)) w := by
  obtain ⟨-, heq⟩ | ⟨i, hi, hexecute⟩ := h
  · cases heq
  · obtain ⟨jump, hjump, hle, heq⟩ | ⟨cause, heq⟩ := Instruction.failed_execute hexecute <;>
      cases heq
    exact ⟨rfl, hle, i, jump, hi, hjump, rfl, hexecute⟩

/-- A run that fails was not started because of its entry, or it fails where it stands. -/
theorem failsAt_of_resume {budget : Nat} {e : CpuError}
    (h : p.resume budget w = (.error e, w')) :
    (w.context.started = false ∧ p.size ≤ p.entry ∧ e = .invalidJump p.entry p.size) ∨
    ∃ w₁, w₁.context.started = true ∧ w' = w₁.failed e ∧ p.FailsAt w₁ e := by
  cases he : w.context.enter p with
  | error cause =>
      rw [resume_of_enter_error he] at h
      cases h
      exact .inl (enter_eq_error_iff.1 he)
  | ok context =>
      obtain ⟨k, w₁, -, -, hstarted, hstop⟩ := exists_step_of_resume he h (by simp)
      obtain ⟨hw', hfails⟩ := failsAt_of_step hstop
      exact .inr ⟨w₁, hstarted, hw', hfails⟩

theorem Confined.outOfProgram_of_resume (h : p.Confined n) (hip : w.context.ip < n)
    {budget : Nat} (hexit : (p.resume budget w).1 = .error (.outOfProgram ip length)) :
    length = p.size ∧ p.size ≤ ip ∧ ip < n := by
  have hlast := h.resume hip budget
  obtain ⟨-, -, heq⟩ | ⟨w₁, -, hw', hfails⟩ := failsAt_of_resume (Prod.ext hexit rfl)
  · cases heq
  · obtain ⟨rfl, rfl, hle⟩ := hfails.outOfProgram
    have hcontext : (p.resume budget w).2.context = w₁.context := congrArg Workspace.context hw'
    rw [hcontext] at hlast
    exact ⟨rfl, hle, hlast⟩

/-- A program that is halted at its end does not run off it. -/
theorem Confined.ne_outOfProgram (h : p.Confined p.size) (hip : w.context.ip < p.size)
    (budget ip length : Nat) : (p.resume budget w).1 ≠ .error (.outOfProgram ip length) := by
  intro hexit
  obtain ⟨-, hle, hlt⟩ := h.outOfProgram_of_resume hip hexit
  exact absurd hlt (Nat.not_lt.2 hle)

end Program

/-! ## Sequences of runs -/

/-- What a context finds when it is resumed: a processor, a memory and a budget. -/
structure Turn where
  cpu : Cpu
  memory : Memory
  budget : Option Nat := none

namespace Program

variable {p : Program} {n ip length target : Nat} {c : Context} {t : Turn}

/-- Resumes a context of the program. -/
def turn (p : Program) (c : Context) (t : Turn) : Cpu.Run := t.cpu.run p ⟨c, t.memory⟩ t.budget

/-- The context after a sequence of turns. -/
def contextAfter (p : Program) (c : Context) (turns : List Turn) : Context :=
  turns.foldl (fun c t => (p.turn c t).workspace.context) c

theorem turn_of_unpowered (h : t.cpu.powered = false) :
    p.turn c t = ⟨.error .notReady, t.cpu, ⟨c, t.memory⟩, #[]⟩ := by
  simp [turn, Cpu.run, h]

/-- A turn that fails for another reason than the power is a run that failed. -/
theorem resume_of_turn {e : CpuError} (h : (p.turn c t).result = .error e) (he : e ≠ .notReady) :
    p.resume (t.budget.getD Cpu.unlimited) ⟨c, t.memory⟩ =
      (.error e, (p.turn c t).workspace) := by
  cases hpower : t.cpu.powered with
  | false =>
      rw [turn_of_unpowered hpower] at h
      cases h
      exact absurd rfl he
  | true => exact Cpu.exists_resume_of_error hpower h

theorem Confined.turn (h : p.Confined n) (hip : c.ip < n) (t : Turn) :
    (p.turn c t).workspace.context.ip < n := by
  cases hpower : t.cpu.powered with
  | false =>
      rw [turn_of_unpowered hpower]
      exact hip
  | true =>
      rw [Program.turn, Cpu.workspace_run hpower]
      exact h.resume hip _

theorem Confined.contextAfter (h : p.Confined n) (hip : c.ip < n) (turns : List Turn) :
    (p.contextAfter c turns).ip < n := by
  induction turns generalizing c with
  | nil => exact hip
  | cons t rest ih => exact ih (h.turn hip t)

theorem Confined.outOfProgram_of_turn (h : p.Confined n) (hip : c.ip < n)
    (hresult : (p.turn c t).result = .error (.outOfProgram ip length)) :
    length = p.size ∧ p.size ≤ ip ∧ ip < n := by
  have hresume := resume_of_turn hresult (by simp)
  exact h.outOfProgram_of_resume hip (congrArg Prod.fst hresume)

/-- A program with a valid entry meets an invalid jump only where it executes one. -/
theorem invalidJump_of_turn (hentry : p.entry < p.size)
    (hresult : (p.turn c t).result = .error (.invalidJump target length)) :
    let last := (p.turn c t).workspace
    last.context.started = true ∧ length = p.size ∧ length ≤ target ∧
      ∃ i jump, p.get? last.context.ip = some i ∧ i.target? last.context = some jump ∧
        jump.toNat = target ∧
        i.execute p.size last = .stop (.error (.invalidJump target length)) last := by
  intro last
  obtain ⟨-, hle, -⟩ | ⟨w₁, hstarted, hlast, hfails⟩ :=
    failsAt_of_resume (resume_of_turn hresult (by simp))
  · exact absurd hentry (Nat.not_lt.2 hle)
  · -- Only a page fault is counted by the memory, so the run ends where the jump was executed.
    have hlast : last = w₁ := hlast
    rw [hlast]
    exact ⟨hstarted, hfails.invalidJump⟩

/-- No program runs further than to its end, wherever it starts and whatever each turn finds,
and if it leaves its instructions it does so there. -/
theorem outOfProgram_at_end (p : Program) (turns : List Turn) :
    let c := p.contextAfter {} turns
    c.ip ≤ p.size ∧ ∀ (t : Turn) (ip length : Nat),
      (p.turn c t).result = .error (.outOfProgram ip length) → ip = p.size ∧ length = p.size := by
  intro c
  have hp := p.confined_succ_size
  have hc : c.ip < p.size + 1 := hp.contextAfter hp.pos turns
  refine ⟨Nat.le_of_lt_succ hc, fun t ip length hresult => ?_⟩
  obtain ⟨hlength, hle, hlt⟩ := hp.outOfProgram_of_turn hc hresult
  exact ⟨Nat.le_antisymm (Nat.le_of_lt_succ hlt) hle, hlength⟩

/-- A program that was read from bytes stays at its instructions, whatever each turn finds. -/
theorem inside_of_ofBytes {bytes : List UInt8} (h : ofBytes bytes = .ok p) (turns : List Turn) :
    let c := p.contextAfter {} turns
    c.ip < p.size ∧ ∀ t : Turn,
      (∀ ip length, (p.turn c t).result ≠ .error (.outOfProgram ip length)) ∧
      ∀ target length, (p.turn c t).result = .error (.invalidJump target length) →
        let last := (p.turn c t).workspace
        last.context.started = true ∧ length = p.size ∧ length ≤ target ∧
          ∃ i jump, p.get? last.context.ip = some i ∧ i.target? last.context = some jump ∧
            jump.toNat = target ∧
            i.execute p.size last = .stop (.error (.invalidJump target length)) last := by
  intro c
  have hp := confined_of_ofBytes h
  have hc : c.ip < p.size := hp.contextAfter hp.pos turns
  refine ⟨hc, fun t => ⟨fun ip length hresult => ?_, fun target length => invalidJump_of_turn ?_⟩⟩
  · obtain ⟨-, hle, hlt⟩ := hp.outOfProgram_of_turn hc hresult
    exact absurd hlt (Nat.not_lt.2 hle)
  · rw [(entry_of_ofBytes h).1]
    exact hp.pos

end Program

end Timeshare
