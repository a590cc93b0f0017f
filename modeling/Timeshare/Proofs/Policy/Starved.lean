import Timeshare.Proofs.Policy.Aging
import Timeshare.Proofs.Table

/-!
# Who is raised by one step of aging

If the queues account for the process table, one step of aging raises exactly the
ready processes that are starved, each by one level (`Aging.get?_step`). The queue of
the highest level only grows, at its tail (`Aging.level_highest_step`).
-/

namespace Timeshare

namespace Aging

variable {threshold now : Nat} {a : Aged} {q : ReadyQueues} {t : ProcessTable}
  {pid : ProcessId} {p : Process} {level : Priority} {entry : Priority × ProcessId}
  {entries : List (Priority × ProcessId)}

/-- A ready process below the highest level that has waited for too long. -/
def Starves (threshold now : Nat) (p : Process) : Prop :=
  p.state = .ready ∧ p.priority ≠ .highest ∧ threshold < now - p.readySince

instance (threshold now : Nat) (p : Process) : Decidable (Starves threshold now p) :=
  inferInstanceAs (Decidable (_ ∧ _ ∧ _))

/-- The record of a process after one step of aging. -/
def aged (threshold now : Nat) (p : Process) : Process :=
  if Starves threshold now p then raised p.priority.raise now p else p

@[simp] theorem state_aged (threshold now : Nat) (p : Process) :
    (aged threshold now p).state = p.state := by
  rw [aged]
  split <;> rfl

/-! ## The starved entries -/

theorem mem_starved_iff (h : q.Accounts t) :
    (level, pid) ∈ starved q t threshold now ↔
      ∃ p, t.get? pid = some p ∧ p.priority = level ∧ Starves threshold now p := by
  rw [starved, List.mem_filter, ReadyQueues.mem_entries_iff, h.mem_level_iff]
  constructor
  · rintro ⟨⟨p, hp, hready, rfl⟩, hstarved⟩
    simp only [isStarved, hp, Option.any_some, Bool.and_eq_true, bne_iff_ne, ne_eq,
      decide_eq_true_eq] at hstarved
    exact ⟨p, hp, rfl, hready, hstarved⟩
  · rintro ⟨p, hp, rfl, hready, hlevel, hwait⟩
    refine ⟨⟨p, hp, hready, rfl⟩, ?_⟩
    simp [isStarved, hp, hlevel, hwait]

theorem nodup_starved (h : q.Accounts t) (threshold now : Nat) :
    ((starved q t threshold now).map (·.2)).Nodup :=
  h.nodup_entries.sublist (List.filter_sublist.map _)

/-! ## The processes -/

theorem get?_promote_self (hp : a.processes.get? entry.2 = some p) :
    (promote now a entry).processes.get? entry.2 = some (raised entry.1.raise now p) := by
  simp [promote, hp]

theorem get?_promote_of_ne (h : entry.2 ≠ pid) :
    (promote now a entry).processes.get? pid = a.processes.get? pid := by
  rw [promote]
  cases a.processes.get? entry.2 with
  | none => rfl
  | some p => exact Table.get?_insert_of_ne _ h _

theorem get?_foldl_of_not_mem (h : pid ∉ entries.map (·.2)) :
    (entries.foldl (promote now) a).processes.get? pid = a.processes.get? pid := by
  induction entries generalizing a with
  | nil => rfl
  | cons entry rest ih =>
      rw [List.map_cons, List.mem_cons, not_or] at h
      rw [List.foldl_cons, ih h.2, get?_promote_of_ne (Ne.symm h.1)]

/-- A process that is listed once is raised once. -/
theorem get?_foldl_of_mem (hnodup : (entries.map (·.2)).Nodup) (hmem : (level, pid) ∈ entries)
    (hp : a.processes.get? pid = some p) :
    (entries.foldl (promote now) a).processes.get? pid = some (raised level.raise now p) := by
  induction entries generalizing a with
  | nil => cases hmem
  | cons entry rest ih =>
      rw [List.map_cons, List.nodup_cons] at hnodup
      rw [List.foldl_cons]
      obtain rfl | hmem := List.mem_cons.1 hmem
      · rw [get?_foldl_of_not_mem hnodup.1]
        exact get?_promote_self hp
      · have hne : entry.2 ≠ pid := by
          intro heq
          exact hnodup.1 (heq ▸ List.mem_map_of_mem hmem)
        apply ih hnodup.2 hmem
        rwa [get?_promote_of_ne hne]

/-- One step of aging raises the starved processes and no others. -/
theorem get?_step (h : q.Accounts t) (threshold now : Nat) (pid : ProcessId) :
    (step threshold q t now).processes.get? pid = (t.get? pid).map (aged threshold now) := by
  have hnot : (∀ p, t.get? pid = some p → ¬ Starves threshold now p) →
      pid ∉ (starved q t threshold now).map (·.2) := by
    intro hfine hmem
    obtain ⟨⟨level, pid⟩, hentry, rfl⟩ := List.mem_map.1 hmem
    obtain ⟨p, hp, -, hstarves⟩ := (mem_starved_iff h).1 hentry
    exact hfine p hp hstarves
  rw [step]
  cases hp : t.get? pid with
  | none =>
      rw [get?_foldl_of_not_mem (hnot (by simp [hp]))]
      exact hp
  | some p =>
      rw [Option.map_some, aged]
      split
      next hstarves =>
        exact get?_foldl_of_mem (nodup_starved h threshold now)
          ((mem_starved_iff h).2 ⟨p, hp, rfl, hstarves⟩) hp
      next hfine =>
        rw [get?_foldl_of_not_mem (hnot (by simpa [hp] using hfine))]
        exact hp

/-- What raising keeps is kept by aging. -/
theorem forall_foldl {P : Process → Prop} (hraised : ∀ level p, P p → P (raised level now p))
    (h : ∀ pid p, a.processes.get? pid = some p → P p) :
    ∀ pid p, (entries.foldl (promote now) a).processes.get? pid = some p → P p := by
  induction entries generalizing a with
  | nil => exact h
  | cons entry rest ih =>
      apply ih
      rw [promote]
      cases hp : a.processes.get? entry.2 with
      | none => exact h
      | some p => exact Table.forall_get?_insert h (hraised _ p (h entry.2 p hp))

/-! ## The highest level -/

theorem level_highest_promote (h : entry.2 ∉ a.queues.level .highest) :
    a.queues.level .highest <+: (promote now a entry).queues.level .highest := by
  rw [promote]
  cases a.processes.get? entry.2 with
  | none => exact List.prefix_rfl
  | some p =>
      simp only [ReadyQueues.level_pushBack, ReadyQueues.level_remove_of_not_mem h]
      split
      · exact List.prefix_append ..
      · exact List.prefix_rfl

theorem not_mem_promote (h : pid ∉ a.queues.level level) (hne : entry.2 ≠ pid) :
    pid ∉ (promote now a entry).queues.level level := by
  rw [promote]
  cases a.processes.get? entry.2 with
  | none => exact h
  | some p =>
      have hremove : pid ∉ (a.queues.remove entry.2).level level := by
        rw [ReadyQueues.level_remove]
        split
        · exact fun hmem => h (List.mem_of_mem_erase hmem)
        · exact h
      simp only [ReadyQueues.level_pushBack]
      split
      · simp [hremove, Ne.symm hne]
      · exact hremove

theorem level_highest_foldl (hnodup : (entries.map (·.2)).Nodup)
    (h : ∀ entry ∈ entries, entry.2 ∉ a.queues.level .highest) :
    a.queues.level .highest <+:
      (entries.foldl (promote now) a).queues.level .highest := by
  induction entries generalizing a with
  | nil => exact List.prefix_rfl
  | cons entry rest ih =>
      rw [List.map_cons, List.nodup_cons] at hnodup
      obtain ⟨hfirst, hrest⟩ := List.forall_mem_cons.1 h
      refine (level_highest_promote hfirst).trans (ih hnodup.2 fun other hmem => ?_)
      refine not_mem_promote (hrest other hmem) fun heq => ?_
      exact hnodup.1 (heq ▸ List.mem_map_of_mem hmem)

/-- Raised processes line up behind those that are at the highest level. -/
theorem level_highest_step (h : q.Accounts t) (threshold now : Nat) :
    q.level .highest <+: (step threshold q t now).queues.level .highest := by
  refine level_highest_foldl (a := { queues := q, processes := t })
    (nodup_starved h threshold now) ?_
  rintro ⟨level, pid⟩ hentry hmem
  obtain ⟨p, hp, -, hstarves⟩ := (mem_starved_iff h).1 hentry
  obtain ⟨p', hp', -, hlevel⟩ := h.mem_level_iff.1 hmem
  rw [hp] at hp'
  cases hp'
  exact hstarves.2.1 hlevel

end Aging

end Timeshare
