import Timeshare.Proofs.Policy.Aging
import Timeshare.Proofs.Table

/-!
# The books of the processes

The records of all processes that were ever submitted are the books of a machine:
`Books charged n records` says that they are the records of the processes 1 to `n`, that
each of them is sound, and that their charges add up to `charged`. To replace a record
changes a total by what the new record is charged more than the old one
(`Books.insert`). A record that leaves the table is kept in front of it.
-/

namespace Timeshare

/-- What is counted of every process and of the machine as a whole. -/
inductive Charge
  /-- The instructions that were retired. -/
  | time
  /-- The dispatches that reached the processor. -/
  | dispatches
  /-- The terminations by a fault of the processor. -/
  | faults
  /-- The terminations by request. -/
  | kills

namespace Process

/-- Whether the process was terminated by a fault of the processor. -/
def failed (p : Process) : Bool :=
  match p.fault with
  | some (.cpu _) => true
  | _ => false

/-- Whether the process was terminated by request. -/
def wasKilled (p : Process) : Bool :=
  match p.fault with
  | some .killed => true
  | _ => false

/-- What is counted of one process. -/
def charge (p : Process) : Charge → Nat
  | .time => p.cpuTime
  | .dispatches => p.dispatches
  | .faults => p.failed.toNat
  | .kills => p.wasKilled.toNat

/-- The record apart from the place in the queues that it asks for. -/
def core (p : Process) : Process :=
  { p with priority := .highest, readySince := 0, consecutiveExpirations := 0 }

/-- The record counts what its context counts, and a process that lives has no fault. -/
structure Sound (p : Process) : Prop where
  cpuTime_eq : p.cpuTime = p.context.retired
  fault_eq : p.state ≠ .terminated → p.fault = none

/-- A process that lived, in whatever state it is now. -/
theorem Sound.of_live {p p' : Process} (h : p.Sound) (hlive : p.state ≠ .terminated)
    (hcontext : p'.context = p.context) (htime : p'.cpuTime = p.cpuTime)
    (hfault : p'.fault = p.fault) : p'.Sound := by
  constructor
  · rw [htime, hcontext]
    exact h.cpuTime_eq
  · intro _
    rw [hfault]
    exact h.fault_eq hlive

theorem Sound.of_core {p p' : Process} (h : p.Sound) (hcore : p'.core = p.core) : p'.Sound := by
  have htime : p'.cpuTime = p.cpuTime := (congrArg Process.cpuTime hcore :)
  have hcontext : p'.context = p.context := (congrArg Process.context hcore :)
  have hstate : p'.state = p.state := (congrArg Process.state hcore :)
  have hfault : p'.fault = p.fault := (congrArg Process.fault hcore :)
  constructor
  · rw [htime, hcontext]
    exact h.cpuTime_eq
  · rw [hstate, hfault]
    exact h.fault_eq

theorem not_failed_of_fault {p : Process} (h : p.fault = none) : p.failed = false := by
  rw [failed, h]

theorem not_killed_of_fault {p : Process} (h : p.fault = none) : p.wasKilled = false := by
  rw [wasKilled, h]

end Process

/-- The records are those of the processes 1 to `submitted`, and they add up to what is
charged. -/
structure Books (charged : Charge → Nat) (submitted : Nat)
    (records : List (ProcessId × Process)) : Prop where
  sum_eq : ∀ c, (records.map (·.2.charge c)).sum = charged c
  sound : ∀ e ∈ records, e.2.Sound
  numbers : (records.map (·.1)).Perm (List.range' 1 submitted)

namespace Books

variable {charged charged' : Charge → Nat} {n : Nat} {records records' : List (ProcessId × Process)}
  {gone : List (ProcessId × Process)} {t u : ProcessTable} {pid : ProcessId} {p p' : Process}

theorem perm (h : Books charged n records) (hperm : records.Perm records') :
    Books charged n records' where
  sum_eq := fun c => ((hperm.map _).sum_nat).symm.trans (h.sum_eq c)
  sound := fun e he => h.sound e (hperm.mem_iff.2 he)
  numbers := (hperm.map _).symm.trans h.numbers

theorem replace (h : Books charged n ((pid, p) :: records)) (hsound : p'.Sound)
    (hcharged : ∀ c, charged' c + p.charge c = charged c + p'.charge c) :
    Books charged' n ((pid, p') :: records) where
  sum_eq := by
    intro c
    have hsum := h.sum_eq c
    have hc := hcharged c
    rw [List.map_cons, List.sum_cons] at hsum ⊢
    simp only at hsum ⊢
    omega
  sound := List.forall_mem_cons.2 ⟨hsound, (List.forall_mem_cons.1 h.sound).2⟩
  numbers := h.numbers

/-- A process that is submitted has used nothing yet. -/
theorem cons_submitted (h : Books charged n records) (program : Program) (priority : Priority)
    (now : Nat) :
    Books charged (n + 1) ((n + 1, .submitted program priority now) :: records) where
  sum_eq := by
    intro c
    have hzero : (Process.submitted program priority now).charge c = 0 := by
      cases c <;> rfl
    rw [List.map_cons, List.sum_cons, h.sum_eq, hzero, Nat.zero_add]
  sound := List.forall_mem_cons.2 ⟨⟨rfl, fun _ => rfl⟩, h.sound⟩
  numbers := by
    rw [List.map_cons, List.range'_concat, Nat.one_mul, Nat.add_comm 1 n]
    exact (h.numbers.cons _).trans (List.perm_append_singleton ..).symm

theorem of_core (h : Books charged n records)
    (hcore : records'.map (fun e => (e.1, e.2.core)) = records.map fun e => (e.1, e.2.core)) :
    Books charged n records' := by
  have hcharge : ∀ (l : List (ProcessId × Process)) (c : Charge), l.map (·.2.charge c) =
      (l.map fun e => (e.1, e.2.core)).map (·.2.charge c) := by
    intro l c
    rw [List.map_map]
    rfl
  have hnumber : ∀ l : List (ProcessId × Process), l.map (·.1) =
      (l.map fun e => (e.1, e.2.core)).map (·.1) := by
    intro l
    rw [List.map_map]
    rfl
  refine ⟨fun c => ?_, fun e he => ?_, ?_⟩
  · rw [hcharge, hcore, ← hcharge]
    exact h.sum_eq c
  · have hmem : (e.1, e.2.core) ∈ records.map fun e => (e.1, e.2.core) := by
      rw [← hcore]
      exact List.mem_map_of_mem he
    obtain ⟨e', he', heq⟩ := List.mem_map.1 hmem
    exact (h.sound e' he').of_core (Prod.mk.inj heq).2.symm
  · rw [hnumber, hcore, ← hnumber]
    exact h.numbers

theorem sum_toNat (f : Process → Bool) (records : List (ProcessId × Process)) :
    (records.map fun e => (f e.2).toNat).sum = records.countP fun e => f e.2 := by
  induction records with
  | nil => rfl
  | cons e rest ih =>
      rw [List.map_cons, List.sum_cons, ih, List.countP_cons, Nat.add_comm]
      cases f e.2 <;> rfl

/-- Only a process that was terminated has a fault. -/
theorem countP_terminated (h : Books charged n records) {f : Process → Bool}
    (hf : ∀ p : Process, p.fault = none → f p = false) :
    records.countP (fun e => e.2.isTerminated && f e.2) =
      (records.map fun e => (f e.2).toNat).sum := by
  rw [sum_toNat]
  refine List.countP_congr fun e he => ?_
  rw [Bool.and_eq_true, and_iff_right_iff_imp]
  intro hfault
  by_contra hlive
  have hstate : e.2.state ≠ .terminated := by simpa [Process.isTerminated] using hlive
  rw [hf e.2 ((h.sound e he).fault_eq hstate)] at hfault
  cases hfault

/-! ## The records of a table -/

theorem insert (h : Books charged n (gone ++ t.entries)) (hp : t.get? pid = some p)
    (hsound : p'.Sound) (hcharged : ∀ c, charged' c + p.charge c = charged c + p'.charge c) :
    Books charged' n (gone ++ (t.insert pid p').entries) := by
  have hold := (Table.entries_perm_of_get? hp).append_left gone
  have hnew := (t.entries_insert_perm pid p').append_left gone
  have hfirst := h.perm (hold.trans List.perm_middle)
  exact (hfirst.replace hsound hcharged).perm (hnew.trans List.perm_middle).symm

theorem sound_of_get? (h : Books charged n (gone ++ t.entries)) (hp : t.get? pid = some p) :
    p.Sound :=
  h.sound (pid, p) (List.mem_append_right _ (t.mem_entries_iff.2 hp))

/-- Another record of a process that lived and was not run. -/
theorem insert_of_live (h : Books charged n (gone ++ t.entries)) (hp : t.get? pid = some p)
    (hlive : p.state ≠ .terminated) (hcontext : p'.context = p.context)
    (htime : p'.cpuTime = p.cpuTime) (hdispatches : p'.dispatches = p.dispatches)
    (hfault : p'.fault = p.fault) : Books charged n (gone ++ (t.insert pid p').entries) := by
  have hsound := (h.sound_of_get? hp).of_live hlive hcontext htime hfault
  refine h.insert hp hsound fun c => ?_
  cases c <;> simp only [Process.charge, Process.failed, Process.wasKilled, htime, hdispatches, hfault]

theorem submit (h : Books charged n (gone ++ t.entries)) (habsent : t.get? (n + 1) = none)
    (program : Program) (priority : Priority) (now : Nat) :
    Books charged (n + 1)
      (gone ++ (t.insert (n + 1) (.submitted program priority now)).entries) := by
  have hnew := (t.entries_insert_perm (n + 1) (.submitted program priority now)).append_left gone
  rw [Table.erase_of_absent habsent] at hnew
  exact (h.cons_submitted program priority now).perm (hnew.trans List.perm_middle).symm

/-- Records that leave the table remain in the books. -/
theorem reap (h : Books charged n (gone ++ t.entries)) (leaves : ProcessId → Process → Bool) :
    Books charged n ((gone ++ (t.filter leaves).entries) ++
      (t.filter fun pid p => !leaves pid p).entries) := by
  rw [List.append_assoc]
  have hparts := List.filter_append_perm (fun e : ProcessId × Process => leaves e.1 e.2) t.entries
  exact h.perm (hparts.symm.append_left gone)

theorem table_of_core (h : Books charged n (gone ++ t.entries))
    (hcore : ∀ pid, (u.get? pid).map Process.core = (t.get? pid).map Process.core) :
    Books charged n (gone ++ u.entries) := by
  have htables : u.map Process.core = t.map Process.core := Table.map_eq_map hcore
  have hentries : u.entries.map (fun e => (e.1, e.2.core)) =
      t.entries.map fun e => (e.1, e.2.core) := congrArg Table.entries htables
  exact h.of_core (by rw [List.map_append, List.map_append, hentries])

end Books

end Timeshare
