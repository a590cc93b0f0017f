import Timeshare.Proofs.Cpu.Step

/-!
# Slices of a run

A run that is cut into slices is the same run. `Program.runFor_add_of_expired`
says that the budget of a slice that expired can be used up first and the rest
afterwards, and `Program.runFor_add_of_stopped` that a run that stopped within its
budget does not notice a larger one.

`Program.RunsTo` and `Program.Completes` describe a run without any budget: it
goes on until an instruction stops it, and it has no result if none does. A
budget that is greater than the number of instructions that such a run retires
makes no difference to it.
-/

namespace Timeshare

namespace Program

variable {p : Program} {w w' : Workspace} {exit : Exit}

/-- A run without a budget, from its next instruction on. -/
inductive RunsTo (p : Program) : Workspace → Exit → Workspace → Prop
  | stop {w w' : Workspace} {exit : Exit} (h : p.step w = .stop exit w') : RunsTo p w exit w'
  | next {w w₁ w' : Workspace} {exit : Exit} (h : p.step w = .next w₁)
      (rest : RunsTo p w₁ exit w') : RunsTo p w exit w'

/-- A run without a budget that starts or continues the context of the workspace
and comes to an end. -/
def Completes (p : Program) (w : Workspace) (exit : Exit) (w' : Workspace) : Prop :=
  match w.context.enter p with
  | .error e => exit = .error e ∧ w' = w
  | .ok context => p.RunsTo { w with context } exit w'

/-! ## The loop -/

theorem runFor_add_of_expired {a : Nat} (b : Nat)
    (h : p.runFor a w = (.ok .sliceExpired, w')) : p.runFor (a + b) w = p.runFor b w' := by
  induction a generalizing w with
  | zero =>
      cases h
      rw [Nat.zero_add]
  | succ a ih =>
      rw [Nat.succ_add]
      cases hs : p.step w with
      | next w₁ =>
          rw [runFor_succ_of_next hs] at h ⊢
          exact ih h
      | stop exit w₁ =>
          rw [runFor_succ_of_stop hs] at h
          have hexit : exit = .ok .sliceExpired := congrArg Prod.fst h
          exact absurd hexit (stopped_of_step hs).exit_ne_sliceExpired

theorem runFor_add_of_stopped {a : Nat} (b : Nat)
    (h : (p.runFor a w).1 ≠ .ok .sliceExpired) : p.runFor (a + b) w = p.runFor a w := by
  induction a generalizing w with
  | zero => exact absurd rfl h
  | succ a ih =>
      rw [Nat.succ_add]
      cases hs : p.step w with
      | next w₁ =>
          rw [runFor_succ_of_next hs] at h ⊢
          rw [runFor_succ_of_next hs, ih h]
      | stop exit w₁ => rw [runFor_succ_of_stop hs, runFor_succ_of_stop hs]

theorem started_runFor (a : Nat) (w : Workspace) :
    (p.runFor a w).2.context.started = w.context.started := by
  induction a generalizing w with
  | zero => rfl
  | succ a ih =>
      cases hs : p.step w with
      | next w₁ => rw [runFor_succ_of_next hs, ih, (step_eq_next hs).2]
      | stop exit w₁ => rw [runFor_succ_of_stop hs, (stopped_of_step hs).started_eq]

theorem retired_le_runFor (a : Nat) (w : Workspace) :
    w.context.retired ≤ (p.runFor a w).2.context.retired := by
  induction a generalizing w with
  | zero => exact Nat.le_refl _
  | succ a ih =>
      cases hs : p.step w with
      | next w₁ =>
          have h₁ := (step_eq_next hs).1
          have h₂ := ih w₁
          rw [runFor_succ_of_next hs]
          omega
      | stop exit w₁ =>
          rw [runFor_succ_of_stop hs]
          exact (stopped_of_step hs).retired_le

/-! ## The loop without a budget -/

theorem RunsTo.retired_le (h : p.RunsTo w exit w') :
    w.context.retired ≤ w'.context.retired := by
  induction h with
  | stop hs => exact (stopped_of_step hs).retired_le
  | next hs rest ih =>
      have := (step_eq_next hs).1
      omega

/-- A run without a budget is the run for any budget greater than the number of
instructions that it retires. -/
theorem runFor_of_runsTo (h : p.RunsTo w exit w') {n : Nat}
    (hn : w'.context.retired - w.context.retired < n) : p.runFor n w = (exit, w') := by
  induction h generalizing n with
  | stop hs =>
      obtain ⟨n, rfl⟩ := Nat.exists_eq_add_one_of_ne_zero (Nat.ne_zero_of_lt hn)
      exact runFor_succ_of_stop hs n
  | next hs rest ih =>
      obtain ⟨n, rfl⟩ := Nat.exists_eq_add_one_of_ne_zero (Nat.ne_zero_of_lt hn)
      have h₁ := (step_eq_next hs).1
      have h₂ := rest.retired_le
      rw [runFor_succ_of_next hs]
      exact ih (by omega)

theorem runsTo_of_runFor {n : Nat} (h : p.runFor n w = (exit, w'))
    (hexit : exit ≠ .ok .sliceExpired) : p.RunsTo w exit w' := by
  induction n generalizing w with
  | zero =>
      cases h
      exact absurd rfl hexit
  | succ n ih =>
      cases hs : p.step w with
      | next w₁ =>
          rw [runFor_succ_of_next hs] at h
          exact .next hs (ih h)
      | stop exit₁ w₁ =>
          rw [runFor_succ_of_stop hs] at h
          cases h
          exact .stop hs

/-! ## Starting and continuing -/

theorem enter_of_started {c : Context} (h : c.started = true) : c.enter p = .ok c := by
  simp [Context.enter, h]

theorem enter_of_valid {c : Context} (h : c.started = true ∨ p.entry < p.size) :
    ∃ context, c.enter p = .ok context := by
  obtain hstarted | hentry := h
  · exact ⟨c, enter_of_started hstarted⟩
  · rw [Context.enter, if_pos hentry]
    split <;> exact ⟨_, rfl⟩

/-- A context that was started is left as it is, and a fresh one is put at the entry. -/
theorem enter_cases {c c' : Context} (h : c.enter p = .ok c') :
    (c.started = true ∧ c' = c) ∨
    (c.started = false ∧ p.entry < p.size ∧
      c' = { c with ip := p.entry, started := true }) := by
  rw [Context.enter] at h
  split at h
  next hstarted =>
    cases h
    exact .inl ⟨hstarted, rfl⟩
  next hfresh =>
    split at h
    next hentry =>
      cases h
      exact .inr ⟨by simpa using hfresh, hentry, rfl⟩
    next => cases h

theorem enter_eq_error_iff {c : Context} {e : CpuError} :
    c.enter p = .error e ↔
      c.started = false ∧ p.size ≤ p.entry ∧ e = .invalidJump p.entry p.size := by
  cases hstarted : c.started with
  | true => simp [Context.enter, hstarted]
  | false =>
      obtain hentry | hentry := Nat.lt_or_ge p.entry p.size
      · simp [Context.enter, hstarted, hentry, Nat.not_le_of_lt hentry]
      · simp [Context.enter, hstarted, hentry, Nat.not_lt_of_le hentry, eq_comm]

theorem started_of_enter {c c' : Context} (h : c.enter p = .ok c') : c'.started = true := by
  obtain ⟨hstarted, rfl⟩ | ⟨-, -, rfl⟩ := enter_cases h
  · exact hstarted
  · rfl

theorem retired_of_enter {c c' : Context} (h : c.enter p = .ok c') : c'.retired = c.retired := by
  obtain ⟨-, rfl⟩ | ⟨-, -, rfl⟩ := enter_cases h <;> rfl

theorem resume_of_enter_error {e : CpuError} (h : w.context.enter p = .error e) (n : Nat) :
    p.resume n w = (.error e, w) := by
  simp [resume, h]

theorem resume_of_enter_ok {context : Context} (h : w.context.enter p = .ok context) (n : Nat) :
    p.resume n w = p.runFor n { w with context } := by
  simp [resume, h]

theorem resume_of_started (h : w.context.started = true) (n : Nat) :
    p.resume n w = p.runFor n w :=
  resume_of_enter_ok (enter_of_started h) n

theorem retired_le_resume (n : Nat) (w : Workspace) :
    w.context.retired ≤ (p.resume n w).2.context.retired := by
  cases h : w.context.enter p with
  | error e =>
      have hresume := resume_of_enter_error h n
      exact Nat.le_of_eq (congrArg (·.2.context.retired) hresume).symm
  | ok context =>
      have hr := retired_of_enter h
      have hle := retired_le_runFor (p := p) n { w with context }
      rw [resume_of_enter_ok h]
      exact hr ▸ hle

theorem resume_add_of_expired {a : Nat} (b : Nat)
    (h : p.resume a w = (.ok .sliceExpired, w')) : p.resume (a + b) w = p.resume b w' := by
  cases he : w.context.enter p with
  | error e =>
      rw [resume_of_enter_error he] at h
      cases h
  | ok context =>
      rw [resume_of_enter_ok he] at h ⊢
      have hs : w'.context.started = true := by
        have := started_runFor (p := p) a { w with context }
        rw [h] at this
        rw [this]
        exact started_of_enter he
      rw [resume_of_started hs, runFor_add_of_expired b h]

theorem resume_add_of_stopped {a : Nat} (b : Nat)
    (h : (p.resume a w).1 ≠ .ok .sliceExpired) : p.resume (a + b) w = p.resume a w := by
  cases he : w.context.enter p with
  | error e => rw [resume_of_enter_error he, resume_of_enter_error he]
  | ok context =>
      rw [resume_of_enter_ok he] at h ⊢
      rw [resume_of_enter_ok he, runFor_add_of_stopped b h]

theorem resume_of_completes (h : p.Completes w exit w') {n : Nat}
    (hn : w'.context.retired - w.context.retired < n) : p.resume n w = (exit, w') := by
  rw [Completes] at h
  cases he : w.context.enter p with
  | error e =>
      rw [he] at h
      obtain ⟨rfl, rfl⟩ := h
      exact resume_of_enter_error he n
  | ok context =>
      rw [he] at h
      rw [resume_of_enter_ok he]
      exact runFor_of_runsTo h (retired_of_enter he ▸ hn)

theorem completes_of_resume {n : Nat} (h : p.resume n w = (exit, w'))
    (hexit : exit ≠ .ok .sliceExpired) : p.Completes w exit w' := by
  rw [Completes]
  cases he : w.context.enter p with
  | error e =>
      rw [resume_of_enter_error he] at h
      cases h
      exact ⟨rfl, rfl⟩
  | ok context =>
      rw [resume_of_enter_ok he] at h
      exact runsTo_of_runFor h hexit

end Program

end Timeshare
