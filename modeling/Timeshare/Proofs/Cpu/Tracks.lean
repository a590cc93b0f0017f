import Timeshare.Proofs.Cpu.Alone

/-!
# Slices on a shared memory

A process is run in slices, on a memory that others use as well. `Program.Reaches` says
that it stands where its program stands alone after as many instructions, as far as the
program can see, and `Program.Tracks` says how a slice leaves it: further along the
same way, or at the end of it. One more slice is tracked if the process was on its way
(`Program.Reaches.tracks_resume`) or fresh (`Program.tracks_resume_of_fresh`), and there
is only one end (`Program.EndsAlone.unique`).
-/

namespace Timeshare

namespace Program

variable {p : Program} {memory : Memory} {w w' a : Workspace} {exit exit' : Exit} {e : CpuError}

/-! ## The run alone, cut in two -/

theorem alone_of_enter_error (h : ({} : Context).enter p = .error e) (memory : Memory)
    (n : Nat) : p.alone memory n = (.error e, ⟨{}, memory⟩) :=
  resumeThrough_of_enter_error (w := ⟨{}, memory⟩) h n

theorem alone_of_enter_ok {context : Context} (h : ({} : Context).enter p = .ok context)
    (memory : Memory) (n : Nat) : p.alone memory n = p.runThrough n ⟨context, memory⟩ :=
  resumeThrough_of_enter_ok (w := ⟨{}, memory⟩) h n

theorem alone_add {n : Nat} (h : p.alone memory n = (.ok .sliceExpired, a)) (k : Nat) :
    p.alone memory (n + k) = p.runThrough k a := by
  cases he : ({} : Context).enter p with
  | error e =>
      rw [alone_of_enter_error he] at h
      cases h
  | ok context =>
      rw [alone_of_enter_ok he] at h ⊢
      exact runThrough_add k h

/-- The loop that goes on after waits passes through every place at which a run stops,
and goes no further than to a halt or an error. -/
theorem exists_runThrough (p : Program) (n : Nat) (w : Workspace) :
    ∃ a, p.runThrough ((p.runFor n w).2.context.retired - w.context.retired) w =
        (.ok .sliceExpired, a) ∧
      (p.runFor n w).2.Alike p.pages a ∧
      ((p.runFor n w).1 ≠ .ok .sliceExpired → (p.runFor n w).1 ≠ .ok .waiting →
        ∀ k, (p.runThrough (k + 1) a).1 = (p.runFor n w).1) := by
  induction n generalizing w with
  | zero =>
      refine ⟨w, ?_, ⟨rfl, .refl _ _⟩, fun h => absurd rfl h⟩
      rw [runFor_zero, Nat.sub_self]
      rfl
  | succ n ih =>
      cases hs : p.step w with
      | next w₁ =>
          obtain ⟨a, hthrough, halike, hend⟩ := ih w₁
          have h₁ := (step_eq_next hs).1
          have hle := retired_le_runFor (p := p) n w₁
          have hsucc : (p.runFor n w₁).2.context.retired - w.context.retired =
              (p.runFor n w₁).2.context.retired - w₁.context.retired + 1 := by omega
          rw [runFor_succ_of_next hs]
          refine ⟨a, ?_, halike, hend⟩
          rw [hsucc, runThrough_succ_of_next hs, hthrough]
      | stop exit w₁ =>
          rw [runFor_succ_of_stop hs]
          have hsame := sameOn_of_stop hs p.pages
          cases stopped_of_step hs with
          | halted =>
              refine ⟨w, ?_, ⟨rfl, hsame⟩, fun _ hwait k => ?_⟩
              · simp only [Nat.sub_self]
                rfl
              · rw [runThrough_succ_of_stop hs hwait]
          | waiting =>
              refine ⟨w.retire, ?_, ⟨rfl, .refl _ _⟩, fun _ h => absurd rfl h⟩
              have hone : w.retire.context.retired - w.context.retired = 0 + 1 :=
                Nat.add_sub_cancel_left ..
              simp only [hone]
              rw [runThrough_succ_of_wait hs]
              rfl
          | failed e memory =>
              -- The memory has counted the fault, so the workspace is not `w` itself.
              refine ⟨w, ?_, ⟨rfl, hsame⟩, fun _ hwait k => ?_⟩
              · simp only [Nat.sub_self]
                rfl
              · rw [runThrough_succ_of_stop hs hwait]

/-! ## Where a process stands -/

/-- The workspace is where the program alone is after as many instructions, as far as
the program can see. -/
inductive Reaches (p : Program) (memory : Memory) : Workspace → Prop
  /-- The entry of the program is not one of its instructions. -/
  | refused {e : CpuError} {w : Workspace} (he : ({} : Context).enter p = .error e)
      (hw : w.Alike p.pages ⟨{}, memory⟩) : Reaches p memory w
  | along {w a : Workspace}
      (ha : p.alone memory w.context.retired = (.ok .sliceExpired, a))
      (hw : w.Alike p.pages a) : Reaches p memory w

/-- The program alone stops for good after so many instructions, and in this way. -/
def EndsAlone (p : Program) (memory : Memory) (retired : Nat) (exit : Exit) : Prop :=
  ∀ n, retired < n → (p.alone memory n).1 = exit

/-- How a slice with the given exit leaves a process. -/
structure Tracks (p : Program) (memory : Memory) (exit : Exit) (w : Workspace) : Prop where
  reaches : p.Reaches memory w
  started : exit = .ok .sliceExpired ∨ exit = .ok .waiting → w.context.started = true
  ends : exit ≠ .ok .sliceExpired → exit ≠ .ok .waiting →
    p.EndsAlone memory w.context.retired exit

theorem Reaches.alike (h : p.Reaches memory w) :
    w.Alike p.pages (p.alone memory w.context.retired).2 := by
  cases h with
  | refused he hw =>
      rw [alone_of_enter_error he]
      exact hw
  | along ha hw =>
      rw [ha]
      exact hw

/-- A change of memory that the program cannot see. -/
theorem Reaches.congr {m m' : Memory} {c : Context} (h : p.Reaches memory ⟨c, m⟩)
    (hm : m'.SameOn p.pages m) : p.Reaches memory ⟨c, m'⟩ := by
  have hw : Workspace.Alike p.pages ⟨c, m'⟩ ⟨c, m⟩ := ⟨rfl, hm⟩
  cases h with
  | refused he halike => exact .refused he (hw.trans halike)
  | along ha halike => exact .along ha (hw.trans halike)

/-! ## Slices -/

theorem tracks_runFor (ha : p.alone memory w.context.retired = (.ok .sliceExpired, a))
    (hw : w.Alike p.pages a) (hs : w.context.started = true) (n : Nat) :
    p.Tracks memory (p.runFor n w).1 (p.runFor n w).2 := by
  obtain ⟨hexit, halike⟩ := alike_runFor hw n
  obtain ⟨b, hthrough, hb, hend⟩ := exists_runThrough p n a
  have hle := retired_le_runFor (p := p) n a
  rw [← halike.context_eq, ← hw.context_eq] at hthrough hle
  have hsum : (p.runFor n w).2.context.retired =
      w.context.retired + ((p.runFor n w).2.context.retired - w.context.retired) := by omega
  have hb' : p.alone memory (p.runFor n w).2.context.retired = (.ok .sliceExpired, b) := by
    rw [hsum, alone_add ha, hthrough]
  refine ⟨.along hb' (halike.trans hb), fun _ => (started_runFor n w).trans hs, ?_⟩
  intro hexpired hwaiting k hk
  obtain ⟨d, rfl⟩ := Nat.exists_eq_add_of_lt hk
  rw [hexit] at hexpired hwaiting ⊢
  rw [Nat.add_assoc, alone_add hb', hend hexpired hwaiting]

theorem Reaches.tracks_resume (h : p.Reaches memory w) (hs : w.context.started = true)
    (n : Nat) : p.Tracks memory (p.resume n w).1 (p.resume n w).2 := by
  rw [resume_of_started hs]
  cases h with
  | refused he hw =>
      -- A context that was never started is not a started one.
      rw [hw.context_eq] at hs
      cases hs
  | along ha hw => exact tracks_runFor ha hw hs n

theorem tracks_resume_of_fresh (h : w.Alike p.pages ⟨{}, memory⟩) (n : Nat) :
    p.Tracks memory (p.resume n w).1 (p.resume n w).2 := by
  cases he : ({} : Context).enter p with
  | error e =>
      have hw : w.context.enter p = .error e := h.context_eq ▸ he
      rw [resume_of_enter_error hw]
      refine ⟨.refused he h, ?_, fun _ _ k _ => ?_⟩
      · rintro (h | h) <;> cases h
      · rw [alone_of_enter_error he]
  | ok context =>
      have hw : w.context.enter p = .ok context := h.context_eq ▸ he
      have hzero : context.retired = 0 := retired_of_enter he
      have ha : p.alone memory context.retired = (.ok .sliceExpired, ⟨context, memory⟩) := by
        rw [alone_of_enter_ok he, hzero]
        rfl
      rw [resume_of_enter_ok hw]
      exact tracks_runFor (w := { w with context }) ha ⟨rfl, h.sameOn⟩ (started_of_enter he) n

/-! ## The end of a program -/

/-- A process that has ended stands where every other process with the same program
and the same memory at the start ends, and it ended in the same way. -/
theorem EndsAlone.unique (h : p.Reaches memory w) (hend : p.EndsAlone memory w.context.retired exit)
    (hexit : exit ≠ .ok .sliceExpired) (h' : p.Reaches memory w')
    (hend' : p.EndsAlone memory w'.context.retired exit') (hexit' : exit' ≠ .ok .sliceExpired) :
    exit = exit' ∧ w.context = w'.context ∧ w.memory.SameOn p.pages w'.memory := by
  have hlate : exit = exit' := by
    have h₁ := hend (max w.context.retired w'.context.retired + 1) (by omega)
    have h₂ := hend' (max w.context.retired w'.context.retired + 1) (by omega)
    exact h₁.symm.trans h₂
  refine ⟨hlate, ?_⟩
  have hretired : w.context.retired = w'.context.retired := by
    cases h with
    | refused he hw =>
        cases h' with
        | refused he' hw' => rw [hw.context_eq, hw'.context_eq]
        | along ha hw' =>
            rw [alone_of_enter_error he] at ha
            cases ha
    | along ha hw =>
        cases h' with
        | refused he' hw' =>
            rw [alone_of_enter_error he'] at ha
            cases ha
        | along ha' hw' =>
            -- Neither can have gone past the end of the other.
            apply Nat.le_antisymm
            · refine Nat.le_of_not_lt fun hlt => hexit' ?_
              rw [← hend' _ hlt, ha]
            · refine Nat.le_of_not_lt fun hlt => hexit ?_
              rw [← hend _ hlt, ha']
  have halike := h.alike
  have halike' := h'.alike
  rw [hretired] at halike
  exact ⟨halike.context_eq.trans halike'.context_eq.symm,
    halike.sameOn.trans halike'.sameOn.symm⟩

end Program

end Timeshare
