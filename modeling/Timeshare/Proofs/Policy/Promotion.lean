import Mathlib.Data.List.Nodup
import Timeshare.Proofs.Policy.Starved

/-!
# What one step of aging does to the queues

Queues are placed in a process table if every process is queued once, and at the level that
its record says (`ReadyQueues.Placed`). Nothing is asked of the states of the processes, or of
those that are not queued. One step of aging takes the starved entries from such queues one
after the other, and each of them goes to the tail of the next higher level. A removal does
not move the other entries, so the queue of a level is in the end what was not starved of it,
in its old order, with those that climbed to it behind (`Aging.level_foldl`). The records
of the entries that climbed are written, and no others (`Aging.step_of_placed`).
-/

namespace Timeshare

namespace ReadyQueues

variable {q : ReadyQueues} {t : ProcessTable} {level other : Priority} {pid : ProcessId}

/-- Every queued process is queued once, and at the level of its record. -/
structure Placed (q : ReadyQueues) (t : ProcessTable) : Prop where
  nodup : ∀ level, (q.level level).Nodup
  priority_eq : ∀ {level pid}, pid ∈ q.level level →
    (t.get? pid).map Process.priority = some level

theorem Placed.level_unique (h : q.Placed t) (hpid : pid ∈ q.level level)
    (hpid' : pid ∈ q.level other) : level = other :=
  Option.some.inj ((h.priority_eq hpid).symm.trans (h.priority_eq hpid'))

theorem count_le_occurrences (q : ReadyQueues) (level : Priority) (pid : ProcessId) :
    (q.level level).count pid ≤ q.occurrences pid := by
  have hsub : ((q.level level).map (level, ·)).Sublist q.entries := by
    rw [entries, List.flatMap_def]
    exact List.sublist_flatten_of_mem (List.mem_map_of_mem (Priority.mem_all level))
  have hcount := hsub.countP_le (p := (·.2 == pid))
  rwa [List.countP_map] at hcount

theorem placed_of_entries
    (h : ∀ entry ∈ q.entries, q.occurrences entry.2 = 1 ∧
      (t.get? entry.2).map Process.priority = some entry.1) : q.Placed t where
  nodup := by
    intro level
    rw [List.nodup_iff_count_eq_one]
    intro pid hpid
    have hle := q.count_le_occurrences level pid
    rw [(h (level, pid) (mem_entries_iff.2 hpid)).1] at hle
    exact Nat.le_antisymm hle (List.count_pos_iff.2 hpid)
  priority_eq := fun hpid => (h _ (mem_entries_iff.2 hpid)).2

/-- A process that is queued is queued once over all levels. -/
theorem Placed.occurrences_of_mem (h : q.Placed t) (hpid : pid ∈ q.level level) :
    q.occurrences pid = 1 := by
  rw [occurrences_eq_sum, ← sum_levels_eq_one level]
  refine congrArg List.sum (List.map_congr_left fun other _ => ?_)
  split
  next heq => rw [← heq, List.count_eq_one_of_mem (h.nodup level) hpid]
  next hne => exact List.count_eq_zero.2 fun hother => hne (h.level_unique hpid hother)

theorem occurrences_of_not_mem (h : ∀ level, pid ∉ q.level level) : q.occurrences pid = 0 := by
  rw [occurrences_eq_sum, List.sum_eq_zero_iff_forall_eq_nat]
  intro n hn
  obtain ⟨level, -, rfl⟩ := List.mem_map.1 hn
  exact List.count_eq_zero.2 (h level)

theorem Placed.nodup_entries (h : q.Placed t) : (q.entries.map (·.2)).Nodup := by
  rw [List.nodup_iff_count]
  intro pid
  rw [List.count, List.countP_map]
  change q.occurrences pid ≤ 1
  by_cases hpid : ∃ level, pid ∈ q.level level
  · obtain ⟨level, hmem⟩ := hpid
    exact Nat.le_of_eq (h.occurrences_of_mem hmem)
  · rw [occurrences_of_not_mem (not_exists.1 hpid)]
    exact Nat.zero_le 1

/-- To take a process out of its queue is to leave it out of all of them. -/
theorem Placed.level_remove (h : q.Placed t) (hpid : pid ∈ q.level level) (other : Priority) :
    (q.remove pid).level other = (q.level other).filter (· != pid) := by
  have hlevel : q.levelOf? pid = some level := by
    cases hfound : q.levelOf? pid with
    | none => exact absurd hpid (levelOf?_eq_none_iff.1 hfound level)
    | some found => rw [h.level_unique (mem_of_levelOf? hfound) hpid]
  rw [ReadyQueues.level_remove, hlevel]
  split
  · exact (h.nodup other).erase_eq_filter pid
  next hne =>
    refine (List.filter_eq_self.2 fun x hx => ?_).symm
    rw [bne_iff_ne]
    rintro rfl
    exact hne (congrArg some (h.level_unique hpid hx))

end ReadyQueues

namespace Aging

variable {threshold now : Nat} {a : Aged} {q : ReadyQueues} {t : ProcessTable}
  {pid : ProcessId} {level : Priority} {entry : Priority × ProcessId}
  {entries : List (Priority × ProcessId)}

/-! ## Promotions one after the other -/

/-- The entry that is promoted leaves its queue and lines up at the next higher level. -/
theorem level_promote (h : a.queues.Placed a.processes)
    (hentry : entry.2 ∈ a.queues.level entry.1) (now : Nat) (level : Priority) :
    (promote now a entry).queues.level level =
      (a.queues.level level).filter (· != entry.2) ++
        if entry.1.raise = level then [entry.2] else [] := by
  obtain ⟨p, hp, -⟩ := Option.map_eq_some_iff.1 (h.priority_eq hentry)
  simp only [promote, hp, ReadyQueues.level_pushBack, h.level_remove hentry]
  split
  · rfl
  · rw [List.append_nil]

theorem placed_promote (h : a.queues.Placed a.processes)
    (hentry : entry.2 ∈ a.queues.level entry.1) :
    (promote now a entry).queues.Placed (promote now a entry).processes := by
  obtain ⟨p, hp, -⟩ := Option.map_eq_some_iff.1 (h.priority_eq hentry)
  have hlevel := level_promote h hentry now
  constructor
  · intro level
    rw [hlevel]
    have hnodup := (h.nodup level).filter (· != entry.2)
    split
    · refine List.nodup_append.2 ⟨hnodup, List.nodup_singleton _, fun x hx y hy => ?_⟩
      rw [List.mem_singleton.1 hy]
      exact bne_iff_ne.1 (List.mem_filter.1 hx).2
    · rwa [List.append_nil]
  · intro level pid hpid
    rw [hlevel, List.mem_append, List.mem_filter, bne_iff_ne] at hpid
    obtain ⟨hmem, hne⟩ | hraised := hpid
    · rw [get?_promote_of_ne (Ne.symm hne)]
      exact h.priority_eq hmem
    · split at hraised
      next heq =>
        rw [List.mem_singleton.1 hraised, get?_promote_self hp, Option.map_some, ← heq]
        rfl
      next => cases hraised

theorem mem_level_promote (h : a.queues.Placed a.processes)
    (hentry : entry.2 ∈ a.queues.level entry.1) (hpid : pid ∈ a.queues.level level)
    (hne : pid ≠ entry.2) : pid ∈ (promote now a entry).queues.level level := by
  rw [level_promote h hentry]
  exact List.mem_append_left _ (List.mem_filter.2 ⟨hpid, bne_iff_ne.2 hne⟩)

/-- What the promotions leave of a queue, and what they add to it. -/
theorem level_foldl (h : a.queues.Placed a.processes)
    (hentries : ∀ entry ∈ entries, entry.2 ∈ a.queues.level entry.1)
    (hnodup : (entries.map (·.2)).Nodup) (now : Nat) :
    (entries.foldl (promote now) a).queues.Placed (entries.foldl (promote now) a).processes ∧
      ∀ level, (entries.foldl (promote now) a).queues.level level =
        (a.queues.level level).filter (· ∉ entries.map (·.2)) ++
          (entries.filter (·.1.raise = level)).map (·.2) := by
  induction entries generalizing a with
  | nil => exact ⟨h, fun level => by simp⟩
  | cons entry rest ih =>
      rw [List.map_cons, List.nodup_cons] at hnodup
      obtain ⟨hfirst, hrest⟩ := List.forall_mem_cons.1 hentries
      have hothers : ∀ other ∈ rest,
          other.2 ∈ (promote now a entry).queues.level other.1 := by
        intro other hother
        refine mem_level_promote h hfirst (hrest other hother) fun heq => ?_
        exact hnodup.1 (heq ▸ List.mem_map_of_mem hother)
      obtain ⟨hplaced, hlevel⟩ := ih (placed_promote h hfirst) hothers hnodup.2
      refine ⟨hplaced, fun level => ?_⟩
      rw [List.foldl_cons, hlevel, level_promote h hfirst, List.filter_append, List.filter_filter,
        List.append_assoc]
      have hkept : [entry.2].filter (· ∉ rest.map (·.2)) = [entry.2] :=
        List.filter_cons_of_pos (by simpa using hnodup.1)
      congr 1
      · refine List.filter_congr fun x _ => ?_
        simp only [List.map_cons, List.mem_cons, not_or, bne, Bool.decide_and, decide_not]
        exact Bool.and_comm ..
      · rw [List.filter_cons]
        by_cases heq : entry.1.raise = level
        · rw [if_pos heq, if_pos (decide_eq_true heq), hkept]
          rfl
        · rw [if_neg heq, if_neg (by simpa using heq)]
          rfl

/-- No entry is lost and none is doubled. -/
theorem occurrences_foldl (h : a.queues.Placed a.processes)
    (hentries : ∀ entry ∈ entries, entry.2 ∈ a.queues.level entry.1)
    (hnodup : (entries.map (·.2)).Nodup) (now : Nat) (pid : ProcessId) :
    (entries.foldl (promote now) a).queues.occurrences pid = a.queues.occurrences pid := by
  obtain ⟨hplaced, hlevel⟩ := level_foldl h hentries hnodup now
  by_cases hqueued : ∃ level, pid ∈ a.queues.level level
  · obtain ⟨level, hmem⟩ := hqueued
    have hfinally : ∃ level, pid ∈ (entries.foldl (promote now) a).queues.level level := by
      simp only [hlevel, List.mem_append]
      by_cases hpid : pid ∈ entries.map (·.2)
      · obtain ⟨entry, hentry, rfl⟩ := List.mem_map.1 hpid
        refine ⟨entry.1.raise, .inr (List.mem_map_of_mem ?_)⟩
        exact List.mem_filter.2 ⟨hentry, decide_eq_true rfl⟩
      · exact ⟨level, .inl (List.mem_filter.2 ⟨hmem, decide_eq_true hpid⟩)⟩
    obtain ⟨final, hfinal⟩ := hfinally
    rw [h.occurrences_of_mem hmem, hplaced.occurrences_of_mem hfinal]
  · rw [ReadyQueues.occurrences_of_not_mem (not_exists.1 hqueued)]
    refine ReadyQueues.occurrences_of_not_mem fun level hmem => hqueued ?_
    rw [hlevel, List.mem_append] at hmem
    obtain hkept | hraised := hmem
    · exact ⟨level, (List.mem_filter.1 hkept).1⟩
    · obtain ⟨entry, hentry, rfl⟩ := List.mem_map.1 hraised
      exact ⟨entry.1, hentries entry (List.mem_filter.1 hentry).1⟩

theorem promoted_foldl (hpresent : ∀ entry ∈ entries, (a.processes.get? entry.2).isSome = true) :
    (entries.foldl (promote now) a).promoted = a.promoted ++ entries.map (·.2) := by
  induction entries generalizing a with
  | nil => exact (List.append_nil _).symm
  | cons entry rest ih =>
      obtain ⟨hfirst, hrest⟩ := List.forall_mem_cons.1 hpresent
      obtain ⟨p, hp⟩ := Option.isSome_iff_exists.1 hfirst
      have hothers : ∀ other ∈ rest,
          ((promote now a entry).processes.get? other.2).isSome = true := by
        intro other hother
        have hkept := map_get?_promote (f := fun _ => ()) (fun _ _ _ => rfl) now a entry other.2
        rw [← Option.isSome_map (f := fun _ => ()), hkept, Option.isSome_map]
        exact hrest other hother
      have hpromoted : (promote now a entry).promoted = a.promoted ++ [entry.2] := by
        simp [promote, hp]
      rw [List.foldl_cons, ih hothers, hpromoted, List.append_assoc, List.map_cons,
        List.singleton_append]

/-! ## The whole step -/

/-- Whether a process has waited for more ticks than the threshold. -/
def overdue (t : ProcessTable) (threshold now : Nat) (pid : ProcessId) : Bool :=
  (t.get? pid).any fun p => threshold < now - p.readySince

theorem starved_eq_flatMap (q : ReadyQueues) (t : ProcessTable) (threshold now : Nat) :
    starved q t threshold now =
      [1, 2, 3, 4].flatMap fun level =>
        ((q.level level).filter (overdue t threshold now)).map (level, ·) := by
  have hlevel (level : Priority) :
      ((q.level level).map (level, ·)).filter (isStarved t threshold now) =
        if level = .highest then []
        else ((q.level level).filter (overdue t threshold now)).map (level, ·) := by
    rw [List.filter_map]
    split
    next heq =>
      refine congrArg _ (List.filter_eq_nil_iff.2 fun pid _ => ?_)
      simp [isStarved, heq]
    next hne =>
      refine congrArg _ (List.filter_congr fun pid _ => ?_)
      simp [isStarved, overdue, hne]
  rw [starved, ReadyQueues.entries, List.filter_flatMap]
  simp only [hlevel]
  rfl

theorem mem_starved_overdue :
    (level, pid) ∈ starved q t threshold now ↔
      level ≠ .highest ∧ pid ∈ q.level level ∧ overdue t threshold now pid = true := by
  rw [starved, List.mem_filter, ReadyQueues.mem_entries_iff, isStarved, Bool.and_eq_true,
    bne_iff_ne]
  exact and_left_comm

theorem nodup_starved_of_placed (h : q.Placed t) (threshold now : Nat) :
    ((starved q t threshold now).map (·.2)).Nodup :=
  h.nodup_entries.sublist (List.filter_sublist.map _)

/-- A process leaves its queue if it is overdue there, unless there is no higher level. -/
theorem mem_map_starved (h : q.Placed t) (hpid : pid ∈ q.level level) :
    pid ∈ (starved q t threshold now).map (·.2) ↔
      level ≠ .highest ∧ overdue t threshold now pid = true := by
  rw [List.mem_map]
  constructor
  · rintro ⟨⟨other, pid⟩, hentry, rfl⟩
    obtain ⟨hne, hother, hlate⟩ := mem_starved_overdue.1 hentry
    rw [h.level_unique hpid hother]
    exact ⟨hne, hlate⟩
  · rintro ⟨hne, hlate⟩
    exact ⟨(level, pid), mem_starved_overdue.2 ⟨hne, hpid, hlate⟩, rfl⟩

/-- Only from the next lower level does a process climb to a level. -/
theorem flatMap_ite_raise (f : Priority → List ProcessId) (level : Priority) :
    ([1, 2, 3, 4].flatMap fun old : Priority => if old.raise = level then f old else []) =
      if level = .lowest then [] else f level.lower := by
  match level with
  | 0 | 1 | 2 | 3 => exact List.append_nil _
  | 4 => rfl

theorem map_starved_raise (q : ReadyQueues) (t : ProcessTable) (threshold now : Nat)
    (level : Priority) :
    ((starved q t threshold now).filter (·.1.raise = level)).map (·.2) =
      if level = .lowest then []
      else (q.level level.lower).filter (overdue t threshold now) := by
  have hpart (old : Priority) (pids : List ProcessId) :
      ((pids.map (old, ·)).filter (·.1.raise = level)).map (·.2) =
        if old.raise = level then pids else [] := by
    rw [List.filter_map, List.map_map]
    split
    next heq => simp [Function.comp_def, heq]
    next hne => simp [Function.comp_def, hne]
  rw [starved_eq_flatMap, List.filter_flatMap, List.map_flatMap]
  simp only [hpart]
  exact flatMap_ite_raise (fun old => (q.level old).filter (overdue t threshold now)) level

/-- The step of aging at the tick `now`, for queues in which every entry is the only one of its
process and stands at the level of its record: it reports the overdue processes of the levels
below the highest in the order of the queues, moves each of them to the tail of the next higher
queue, and leaves the other entries in their order and everything else as it was. -/
theorem step_of_placed
    (h : ∀ entry ∈ q.entries, q.occurrences entry.2 = 1 ∧
      (t.get? entry.2).map Process.priority = some entry.1) (threshold now : Nat) :
    let a := step threshold q t now
    let late := overdue t threshold now
    a.promoted = ([1, 2, 3, 4].flatMap fun level => (q.level level).filter late) ∧
      (∀ level, a.queues.level level =
        (q.level level).filter (fun pid => level = .highest ∨ late pid = false) ++
          if level = .lowest then [] else (q.level level.lower).filter late) ∧
      (∀ pid ∈ a.promoted, ∃ p, t.get? pid = some p ∧ p.priority.raise.val + 1 = p.priority.val ∧
        a.processes.get? pid = some { p with
          priority := p.priority.raise, readySince := now, consecutiveExpirations := 0 }) ∧
      (∀ pid ∉ a.promoted, a.processes.get? pid = t.get? pid) ∧
      (∀ pid, a.queues.occurrences pid = q.occurrences pid) ∧
      ∀ entry ∈ a.queues.entries,
        (a.processes.get? entry.2).map Process.priority = some entry.1 := by
  have hplaced := ReadyQueues.placed_of_entries h
  have hnodup := nodup_starved_of_placed hplaced threshold now
  have hmem : ∀ entry ∈ starved q t threshold now, entry.2 ∈ q.level entry.1 := by
    rintro ⟨level, pid⟩ hentry
    exact (mem_starved_overdue.1 hentry).2.1
  obtain ⟨hplaced', hlevel⟩ := level_foldl
    (a := { queues := q, processes := t }) hplaced hmem hnodup now
  have hpromoted : (step threshold q t now).promoted =
      (starved q t threshold now).map (·.2) := by
    refine promoted_foldl (a := { queues := q, processes := t }) fun entry hentry => ?_
    obtain ⟨p, hp, -⟩ := Option.map_eq_some_iff.1 (hplaced.priority_eq (hmem entry hentry))
    exact Option.isSome_iff_exists.2 ⟨p, hp⟩
  intro a late
  have hlevels (level : Priority) : a.queues.level level =
      (q.level level).filter (fun pid => level = .highest ∨ late pid = false) ++
        if level = .lowest then [] else (q.level level.lower).filter late := by
    refine (hlevel level).trans ?_
    rw [map_starved_raise]
    refine congrArg (· ++ _) (List.filter_congr fun pid hpid => ?_)
    rw [decide_eq_decide, mem_map_starved hplaced hpid, not_and_or, not_ne_iff,
      Bool.not_eq_true]
  refine ⟨?_, hlevels, ?_, ?_, ?_, fun entry hentry => ?_⟩
  · rw [hpromoted, starved_eq_flatMap, List.map_flatMap]
    simp only [List.map_map, Function.comp_def, List.map_id_fun']
    rfl
  · rw [hpromoted]
    intro pid hpid
    obtain ⟨⟨level, pid⟩, hentry, rfl⟩ := List.mem_map.1 hpid
    obtain ⟨p, hp, rfl⟩ := Option.map_eq_some_iff.1 (hplaced.priority_eq (hmem _ hentry))
    have hne := (mem_starved_overdue.1 hentry).1
    exact ⟨p, hp, Priority.val_raise_of_ne_highest hne, get?_foldl_of_mem hnodup hentry hp⟩
  · rw [hpromoted]
    exact fun pid hpid => get?_foldl_of_not_mem hpid
  · exact occurrences_foldl (a := { queues := q, processes := t }) hplaced hmem hnodup now
  · exact hplaced'.priority_eq (ReadyQueues.mem_entries_iff.1 hentry)

/-- Two neighbours of level 2 are overdue, one of level 3 between two that are not, and one each
at the two ends; the one at the highest level stays, and the others climb by one level. -/
theorem step_of_placed_of_mixed_queues :
    let waiting (priority : Priority) (readySince : Nat) :=
      Process.submitted (.ofList [.halt]) priority readySince
    let q : ReadyQueues :=
      ⟨#v[[7], [], [2, 4], [5, 1, 6], [3]]⟩
    let t : ProcessTable :=
      ((((((({} : ProcessTable).insert 1 (waiting 3 2)).insert 2 (waiting 2 0)).insert 3
        (waiting 4 1)).insert 4 (waiting 2 3)).insert 5 (waiting 3 9)).insert 6
          (waiting 3 7)).insert 7 (waiting 0 0)
    (∀ entry ∈ q.entries, q.occurrences entry.2 = 1 ∧
      (t.get? entry.2).map Process.priority = some entry.1) ∧
    (step 5 q t 10).queues = ⟨#v[[7], [2, 4], [1], [5, 6, 3], []]⟩ ∧
    (step 5 q t 10).promoted = [2, 4, 1, 3] := by
  intro waiting q t
  have h : ∀ entry ∈ q.entries, q.occurrences entry.2 = 1 ∧
      (t.get? entry.2).map Process.priority = some entry.1 := by decide +kernel
  obtain ⟨hpromoted, hlevel, -⟩ := step_of_placed h 5 10
  refine ⟨h, ReadyQueues.ext_level fun level => (hlevel level).trans ?_, hpromoted.trans ?_⟩
  · revert level
    decide +kernel
  · decide +kernel

end Aging

end Timeshare
