import Timeshare.Policy.Standard
import Timeshare.Proofs.Scheduler.Accounts

/-!
# Policies that serve the queues from their heads

Round robin and real time choose the head of the highest queue that is not empty
(`ReadyQueues.HeadAt`), and no process changes its level under them. Such a policy is
`Policy.HeadFirst`, with the levels at which a process whose slice expired returns to the
head of its queue: none under round robin, and the highest one under real time.
-/

namespace Timeshare

/-- A search through the levels finds the highest one. -/
theorem Priority.find?_all_eq_some_iff {f : Priority → Bool} {level : Priority} :
    Priority.all.find? f = some level ↔
      f level = true ∧ ∀ other, other < level → f other = false := by
  have hforward : ∀ {found}, Priority.all.find? f = some found →
      f found = true ∧ ∀ other, other < found → f other = false := by
    intro found h
    obtain ⟨hfound, above, below, hsplit, habove⟩ := List.find?_eq_some_iff_append.1 h
    refine ⟨hfound, fun other hlt => ?_⟩
    have hsorted : (above ++ found :: below).Pairwise (· < ·) := by
      rw [← hsplit]
      exact List.pairwise_lt_finRange levelCount
    have hmem : other ∈ above ++ found :: below := by
      rw [← hsplit]
      exact Priority.mem_all other
    have hbelow := (List.pairwise_cons.1 (List.pairwise_append.1 hsorted).2.1).1
    rcases List.mem_append.1 hmem with hmem | hmem
    · simpa using habove other hmem
    · rcases List.mem_cons.1 hmem with rfl | hmem
      · exact absurd hlt (Nat.lt_irrefl _)
      · exact absurd hlt (Nat.lt_asymm (hbelow other hmem))
  refine ⟨hforward, fun ⟨hlevel, habove⟩ => ?_⟩
  obtain ⟨found, h⟩ : ∃ found, Priority.all.find? f = some found :=
    Option.isSome_iff_exists.1 (List.find?_isSome.2 ⟨level, Priority.mem_all level, hlevel⟩)
  obtain ⟨hfound, hbefore⟩ := hforward h
  have hle : ¬ found < level := fun hlt => by
    rw [habove found hlt] at hfound
    cases hfound
  have hge : ¬ level < found := fun hlt => by
    rw [hbefore level hlt] at hlevel
    cases hlevel
  rw [h, Fin.ext (Nat.le_antisymm (Nat.le_of_not_lt hge) (Nat.le_of_not_lt hle))]

namespace ReadyQueues

variable {q : ReadyQueues} {level other : Priority} {pid : ProcessId} {rest : List ProcessId}

/-! ## The head of the highest queue -/

/-- The process is at the head of a queue, and nothing is queued at a higher level. -/
structure HeadAt (q : ReadyQueues) (level : Priority) (pid : ProcessId) (rest : List ProcessId) :
    Prop where
  level_eq : q.level level = pid :: rest
  above : ∀ other, other < level → q.level other = []

theorem exists_headAt (h : q.head? = some pid) : ∃ level rest, q.HeadAt level pid rest := by
  obtain ⟨level, hlevel, hhead⟩ := Option.bind_eq_some_iff.1 h
  obtain ⟨rest, hrest⟩ := List.head?_eq_some_iff.1 hhead
  refine ⟨level, rest, hrest, fun other hlt => ?_⟩
  simpa using (Priority.find?_all_eq_some_iff.1 hlevel).2 other hlt

theorem level_eq_nil_of_head? (h : q.head? = none) (level : Priority) : q.level level = [] := by
  have hnone : q.highest? = none := by
    cases hlevel : q.highest? with
    | none => rfl
    | some found =>
        have hsome := (Priority.find?_all_eq_some_iff.1 hlevel).1
        rw [head?, hlevel, Option.bind_some, List.head?_eq_none_iff] at h
        rw [h] at hsome
        cases hsome
  simpa using List.find?_eq_none.1 hnone level (Priority.mem_all level)

theorem HeadAt.mem (h : q.HeadAt level pid rest) : pid ∈ q.level level := by
  rw [h.level_eq]
  exact List.mem_cons_self

theorem HeadAt.le_of_mem (h : q.HeadAt level pid rest) {x : ProcessId} (hx : x ∈ q.level other) :
    level ≤ other := by
  refine Nat.le_of_not_lt fun hlt => ?_
  rw [h.above other hlt] at hx
  cases hx

/-! ## Another queue at the level of the head -/

theorem setLevel_level (q : ReadyQueues) (level : Priority) :
    q.setLevel level (q.level level) = q := by
  apply ext_level
  intro other
  rw [level_setLevel]
  split
  next heq => rw [heq]
  next => rfl

theorem setLevel_setLevel (q : ReadyQueues) (level : Priority) (pids pids' : List ProcessId) :
    (q.setLevel level pids).setLevel level pids' = q.setLevel level pids' := by
  apply ext_level
  intro other
  simp only [level_setLevel]
  split <;> rfl

theorem level_setLevel_self (q : ReadyQueues) (level : Priority) (pids : List ProcessId) :
    (q.setLevel level pids).level level = pids :=
  (level_setLevel ..).trans (if_pos rfl)

theorem pushFront_setLevel (q : ReadyQueues) (level : Priority) (pids : List ProcessId)
    (pid : ProcessId) :
    (q.setLevel level pids).pushFront level pid = q.setLevel level (pid :: pids) := by
  rw [pushFront, level_setLevel_self, setLevel_setLevel]

theorem pushBack_setLevel (q : ReadyQueues) (level : Priority) (pids : List ProcessId)
    (pid : ProcessId) :
    (q.setLevel level pids).pushBack level pid = q.setLevel level (pids ++ [pid]) := by
  rw [pushBack, level_setLevel_self, setLevel_setLevel]

theorem HeadAt.remove_eq (h : q.HeadAt level pid rest) : q.remove pid = q.setLevel level rest := by
  have hlevel : q.levelOf? pid = some level := by
    refine Priority.find?_all_eq_some_iff.2 ⟨?_, fun other hlt => ?_⟩
    · simp [h.level_eq]
    · simp [h.above other hlt]
  have hqueue : (q.level level).erase pid = rest := by
    rw [h.level_eq, List.erase_cons_head]
  simp only [remove, hlevel, hqueue]

/-- A head that is taken out and put back has not moved. -/
theorem HeadAt.pushFront_remove (h : q.HeadAt level pid rest) :
    (q.remove pid).pushFront level pid = q := by
  rw [h.remove_eq, pushFront_setLevel, ← h.level_eq, setLevel_level]

end ReadyQueues

/-! ## Policies -/

/-- The policy chooses the head of the highest queue. No process changes its level, and one
whose slice expired returns to the head of its queue at the levels that are kept. -/
structure Policy.HeadFirst (keeps : Priority → Bool) (policy : Policy) : Prop where
  select_eq : ∀ q t, policy.select q t = q.head?
  level_eq : ∀ p, policy.levelAfterExpiry p = p.priority
  requeue_eq : ∀ p, policy.requeueAtHead p = keeps p.priority
  age_eq : policy.age = Aging.idle

theorem Policy.headFirst_roundRobin (params : PolicyParams) :
    (roundRobin params).HeadFirst fun _ => false :=
  ⟨fun _ _ => rfl, fun _ => rfl, fun _ => rfl, rfl⟩

theorem Policy.headFirst_realTime (params : PolicyParams) :
    (realTime params).HeadFirst Priority.isRealTime :=
  ⟨fun _ _ => rfl, fun _ => rfl, fun _ => rfl, rfl⟩

end Timeshare
