import Timeshare.Proofs.Policy.BuiltIn
import Timeshare.Proofs.Policy.HeadFirst

/-!
# Policies that do not look at the time

A process table shows the time only in the ticks at which its processes became ready. The
policies that do not age look at nothing of that (`Policy.IgnoresTime`): on two tables that are
the same but for the time they decide the same (`ProcessTable.SameUpToTime`).

Whether the order within the queues matters depends on the policy. Shortest job first looks for
the least estimate in the table and uses the queues only to see who is ready. The others serve
the queues from their heads, so that a head that is taken out and put back changes nothing.
-/

namespace Timeshare

namespace Process

/-- The process without the tick at which it became ready. -/
def timeless (p : Process) : Process := { p with readySince := 0 }

/-- What two processes that are the same but for the time differ in. -/
theorem exists_of_timeless_eq {p p' : Process} (h : p.timeless = p'.timeless) :
    ∃ since, p' = { p with readySince := since } := by
  cases p
  cases p'
  simp only [timeless, mk.injEq] at h
  obtain ⟨rfl, rfl, rfl, rfl, rfl, rfl, rfl, -, rfl, rfl, rfl⟩ := h
  exact ⟨_, rfl⟩

end Process

/-! ## Tables that are the same but for the time -/

/-- The tables hold the same processes, which became ready at any ticks. -/
def ProcessTable.SameUpToTime (t t' : ProcessTable) : Prop :=
  t.map Process.timeless = t'.map Process.timeless

namespace ProcessTable.SameUpToTime

variable {t t' : ProcessTable} {pid : ProcessId} {p p' : Process}

theorem map_timeless_get? (h : t.SameUpToTime t') (pid : ProcessId) :
    (t.get? pid).map Process.timeless = (t'.get? pid).map Process.timeless := by
  rw [← Table.get?_map, h, Table.get?_map]

theorem get? (h : t.SameUpToTime t') (hp : t.get? pid = some p) :
    ∃ p', t'.get? pid = some p' ∧ p.timeless = p'.timeless := by
  have heq := h.map_timeless_get? pid
  rw [hp] at heq
  obtain ⟨p', hp', htimeless⟩ := Option.map_eq_some_iff.1 heq.symm
  exact ⟨p', hp', htimeless.symm⟩

theorem get?_eq_none (h : t.SameUpToTime t') (hp : t.get? pid = none) : t'.get? pid = none := by
  have heq := h.map_timeless_get? pid
  rw [hp] at heq
  exact Option.map_eq_none_iff.1 heq.symm

theorem insert (h : t.SameUpToTime t') (pid : ProcessId) (hp : p.timeless = p'.timeless) :
    ProcessTable.SameUpToTime (t.insert pid p) (t'.insert pid p') := by
  rw [SameUpToTime, Table.map_insert, Table.map_insert, h, hp]

theorem filter (h : t.SameUpToTime t') {f : Process → Bool}
    (hf : ∀ p, f p.timeless = f p) :
    ProcessTable.SameUpToTime (t.filter fun _ p => f p) (t'.filter fun _ p => f p) := by
  have hfilter : ∀ u : ProcessTable, (u.filter fun _ p => f p).map Process.timeless =
      (u.map Process.timeless).filter fun _ p => f p := by
    intro u
    apply Table.ext_get?
    intro k
    rw [Table.get?_map, Table.get?_filter, Table.get?_filter, Table.get?_map, Option.filter_map]
    simp only [Function.comp_def, hf]
  rw [SameUpToTime, hfilter, hfilter, h]

theorem snapshots_eq (h : t.SameUpToTime t') : t.snapshots = t'.snapshots := by
  have hsnapshots : ∀ u : ProcessTable,
      u.snapshots = ProcessTable.snapshots (u.map Process.timeless) := by
    intro u
    rw [snapshots, snapshots, Table.map, List.map_map]
    rfl
  rw [hsnapshots, h, ← hsnapshots]

end ProcessTable.SameUpToTime

/-! ## Policies -/

/-- The policy does not look at the time. The order within the queues may matter to it only if
`ordered` holds, and then it chooses a head, which can be put back to its place. -/
structure Policy.IgnoresTime (ordered : Prop) (policy : Policy) : Prop where
  age_eq : policy.age = Aging.idle
  timeSlice_eq : ∀ p, policy.timeSlice p.timeless = policy.timeSlice p
  level_eq : ∀ p, policy.levelAfterExpiry p.timeless = policy.levelAfterExpiry p
  requeue_eq : ∀ p, policy.requeueAtHead p.timeless = policy.requeueAtHead p
  select_eq : ∀ {q q' : ReadyQueues} {t t' : ProcessTable}, q.Accounts t → q'.Accounts t' →
    t.SameUpToTime t' → (ordered → q = q') → policy.select q t = policy.select q' t'
  mem_level : ∀ {q t pid}, policy.select q t = some pid → ∃ level, pid ∈ q.level level
  putBack_eq : ordered → ∀ {q : ReadyQueues} {t : ProcessTable} {pid p}, q.Accounts t →
    policy.select q t = some pid → t.get? pid = some p →
    (q.remove pid).pushFront p.priority pid = q

namespace Policy.IgnoresTime

variable {ordered : Prop} {policy : Policy} {p p' : Process}

theorem timeSlice_congr (h : policy.IgnoresTime ordered) (hp : p.timeless = p'.timeless) :
    policy.timeSlice p = policy.timeSlice p' := by
  rw [← h.timeSlice_eq p, hp, h.timeSlice_eq]

theorem level_congr (h : policy.IgnoresTime ordered) (hp : p.timeless = p'.timeless) :
    policy.levelAfterExpiry p = policy.levelAfterExpiry p' := by
  rw [← h.level_eq p, hp, h.level_eq]

theorem requeue_congr (h : policy.IgnoresTime ordered) (hp : p.timeless = p'.timeless) :
    policy.requeueAtHead p = policy.requeueAtHead p' := by
  rw [← h.requeue_eq p, hp, h.requeue_eq]

end Policy.IgnoresTime

/-- Of the images, the one with the least value is the image of the one with the least value. -/
theorem minOn?_map {α β : Type} (g : α → β) (f : β → Nat) (l : List α) :
    (l.map g).minOn? f = (l.minOn? fun a => f (g a)).map g := by
  cases l with
  | nil => rfl
  | cons a rest =>
      have hmin : ∀ a b, minOn f (g a) (g b) = g (minOn (fun a => f (g a)) a b) := by
        intro a b
        simp only [minOn, apply_ite g]
      simp only [List.map_cons, List.minOn?, List.foldl_map, Option.map_some]
      exact congrArg some (List.foldl_hom g hmin)

/-- Queues that account for the same table but for the time hold the same processes. -/
theorem ReadyQueues.Accounts.contains_eq {q q' : ReadyQueues} {t t' : ProcessTable}
    (h : q.Accounts t) (h' : q'.Accounts t') (ht : t.SameUpToTime t') (pid : ProcessId) :
    q.contains pid = q'.contains pid := by
  have hcount : ∀ level, t.share level pid = t'.share level pid := by
    intro level
    have hshare : ∀ u : ProcessTable, u.share level pid =
        ((u.get? pid).map Process.timeless).elim 0 (·.share level) := by
      intro u
      rw [ProcessTable.share, Option.elim_map]
      rfl
    rw [hshare, ht.map_timeless_get?, ← hshare]
  have hmem : ∀ level, pid ∈ q.level level ↔ pid ∈ q'.level level := by
    intro level
    rw [← List.count_pos_iff, ← List.count_pos_iff, h, h', hcount]
  rw [Bool.eq_iff_iff]
  constructor
  · intro hc
    obtain ⟨level, hlevel⟩ := mem_level_of_contains hc
    exact contains_of_mem_level ((hmem level).1 hlevel)
  · intro hc
    obtain ⟨level, hlevel⟩ := mem_level_of_contains hc
    exact contains_of_mem_level ((hmem level).2 hlevel)

namespace Policy

variable {q q' : ReadyQueues} {t t' : ProcessTable}

/-- The least estimate is looked for among those that are queued, whatever their order. -/
theorem leastRemaining_congr (hq : ∀ pid, q.contains pid = q'.contains pid)
    (h : t.SameUpToTime t') : leastRemaining q t = leastRemaining q' t' := by
  have htimeless : ∀ u : ProcessTable,
      leastRemaining q u = leastRemaining q (u.map Process.timeless) := by
    intro u
    rw [leastRemaining, leastRemaining, Table.map, List.filter_map, minOn?_map, Option.map_map]
    rfl
  rw [htimeless t, h, ← htimeless t', leastRemaining, leastRemaining]
  simp only [hq]

theorem ignoresTime_of_headFirst {keeps : Priority → Bool} {policy : Policy}
    (h : policy.HeadFirst keeps) (htime : ∀ p, policy.timeSlice p.timeless = policy.timeSlice p) :
    policy.IgnoresTime True where
  age_eq := h.age_eq
  timeSlice_eq := htime
  level_eq p := by
    rw [h.level_eq, h.level_eq]
    rfl
  requeue_eq p := by
    rw [h.requeue_eq, h.requeue_eq]
    rfl
  select_eq := by
    intro q q' t t' _ _ _ hq
    rw [h.select_eq, h.select_eq, hq trivial]
  mem_level := by
    intro q t pid hselect
    rw [h.select_eq] at hselect
    exact ReadyQueues.mem_level_of_head? hselect
  putBack_eq := by
    intro _ q t pid p ha hselect hp
    rw [h.select_eq] at hselect
    obtain ⟨level, rest, hat⟩ := ReadyQueues.exists_headAt hselect
    obtain ⟨p', hp', -, rfl⟩ := ha.mem_level_iff.1 hat.mem
    rw [hp] at hp'
    cases hp'
    exact hat.pushFront_remove

theorem ignoresTime_shortestJobFirst (params : PolicyParams) :
    (shortestJobFirst params).IgnoresTime False where
  age_eq := rfl
  timeSlice_eq _ := rfl
  level_eq _ := rfl
  requeue_eq _ := rfl
  select_eq := fun h h' ht _ => leastRemaining_congr (h.contains_eq h' ht) ht
  mem_level := mem_level_of_leastRemaining
  putBack_eq := False.elim

end Policy

/-- Of the policies of the machine, only the one that ages looks at the time. -/
theorem PolicyKind.exists_ignoresTime_build {kind : PolicyKind} (h : kind ≠ .priorityAging)
    (params : PolicyParams) : ∃ ordered, (kind.build params).IgnoresTime ordered := by
  cases kind with
  | roundRobin =>
      exact ⟨True,
        Policy.ignoresTime_of_headFirst (Policy.headFirst_roundRobin params) fun _ => rfl⟩
  | priorityAging => exact absurd rfl h
  | shortestJobFirst => exact ⟨False, Policy.ignoresTime_shortestJobFirst params⟩
  | realTime =>
      exact ⟨True,
        Policy.ignoresTime_of_headFirst (Policy.headFirst_realTime params) fun _ => rfl⟩

end Timeshare
