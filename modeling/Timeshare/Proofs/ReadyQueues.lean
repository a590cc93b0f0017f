import Mathlib.Data.List.Sort
import Timeshare.Proofs.Policy.HeadFirst

/-!
# The ready queues as one list

The entries of the queues are a single list, ordered by level, and the list says all that
there is to know of the queues (`ReadyQueues.level_eq`). At each level it falls into the
entries above, those of the level itself, and the entries below (`ReadyQueues.exists_around`),
so a process that is queued at one end of a level is inserted where these parts meet, and a
removal takes out the first entry of the process.

`EntryList.after` says what an operation does to such a list, without any levels to look
through. The queues go through every history as the list does
(`ReadyQueues.entries_afterAll`).
-/

namespace Timeshare

/-- An operation on the ready queues. -/
inductive QueueRequest
  | pushBack (level : Priority) (pid : ProcessId)
  | pushFront (level : Priority) (pid : ProcessId)
  | remove (pid : ProcessId)

/-! ## Operations on a list of entries -/

namespace EntryList

/-- The entries after an operation: the new entry comes before the first one of a lower level,
or of a level that is not higher, and a removal deletes the first entry of the process. -/
def after (entries : List (Priority × ProcessId)) : QueueRequest → List (Priority × ProcessId)
  | .pushBack level pid => entries.orderedInsert (fun a b => a.1 < b.1) (level, pid)
  | .pushFront level pid => entries.orderedInsert (fun a b => a.1 ≤ b.1) (level, pid)
  | .remove pid => entries.eraseP (·.2 == pid)

/-- The level of the entry that an operation deletes. -/
def answer (entries : List (Priority × ProcessId)) : QueueRequest → Option Priority
  | .remove pid => (entries.find? (·.2 == pid)).map (·.1)
  | _ => none

/-- The levels of the entries that a history deletes. -/
def answers (entries : List (Priority × ProcessId)) : List QueueRequest → List (Option Priority)
  | [] => []
  | request :: rest => answer entries request :: answers (after entries request) rest

end EntryList

/-- A new entry is inserted where the entries that have to follow it begin. -/
theorem orderedInsert_append {α : Type} {r : α → α → Prop} [DecidableRel r] {a : α}
    {before behind : List α} (hbefore : ∀ b ∈ before, ¬ r a b) (hbehind : ∀ b ∈ behind, r a b) :
    (before ++ behind).orderedInsert r a = before ++ a :: behind := by
  induction before with
  | nil =>
      cases behind with
      | nil => rfl
      | cons b behind => exact List.orderedInsert_cons_of_le r behind (hbehind b List.mem_cons_self)
  | cons b before ih =>
      obtain ⟨hfirst, hrest⟩ := List.forall_mem_cons.1 hbefore
      rw [List.cons_append, List.orderedInsert_of_not_le r _ hfirst, ih hrest, List.cons_append]

namespace ReadyQueues

variable {q : ReadyQueues} {level : Priority} {pid : ProcessId}

/-- The queues after an operation. -/
def after (q : ReadyQueues) : QueueRequest → ReadyQueues
  | .pushBack level pid => q.pushBack level pid
  | .pushFront level pid => q.pushFront level pid
  | .remove pid => q.remove pid

/-- The level at which an operation removes an entry. -/
def answer (q : ReadyQueues) : QueueRequest → Option Priority
  | .remove pid => q.levelOf? pid
  | _ => none

/-- The queues after a history of operations. -/
def afterAll (q : ReadyQueues) (requests : List QueueRequest) : ReadyQueues :=
  requests.foldl after q

/-- The answers to a history of operations. -/
def answers (q : ReadyQueues) : List QueueRequest → List (Option Priority)
  | [] => []
  | request :: rest => q.answer request :: (q.after request).answers rest

/-! ## The order of the entries -/

theorem pairwise_entries (q : ReadyQueues) : q.entries.Pairwise (fun a b => a.1 ≤ b.1) := by
  refine List.pairwise_flatMap.2 ⟨fun p _ => ?_, ?_⟩
  · rw [List.pairwise_map]
    exact List.pairwise_of_forall fun _ _ => Nat.le_refl p.val
  · refine (List.pairwise_lt_finRange levelCount).imp fun {p r} hlt a ha b hb => ?_
    obtain ⟨-, -, rfl⟩ := List.mem_map.1 ha
    obtain ⟨-, -, rfl⟩ := List.mem_map.1 hb
    exact Nat.le_of_lt hlt

/-- Around a level stand the entries of higher levels and those of lower ones, whatever is
queued at the level itself. -/
theorem exists_around (q : ReadyQueues) (level : Priority) :
    ∃ above below : List (Priority × ProcessId),
      (∀ e ∈ above, e.1 < level) ∧ (∀ e ∈ below, level < e.1) ∧
        ∀ pids, (q.setLevel level pids).entries = above ++ (pids.map (level, ·) ++ below) := by
  obtain ⟨higher, lower, hall⟩ := List.append_of_mem (Priority.mem_all level)
  have hsorted : (higher ++ level :: lower).Pairwise (· < ·) := by
    rw [← hall]
    exact List.pairwise_lt_finRange levelCount
  obtain ⟨-, hlower, hcross⟩ := List.pairwise_append.1 hsorted
  have hhigher : ∀ p ∈ higher, p < level := fun p hp => hcross p hp level List.mem_cons_self
  replace hlower : ∀ p ∈ lower, level < p := (List.pairwise_cons.1 hlower).1
  refine ⟨higher.flatMap fun p => (q.level p).map (p, ·),
    lower.flatMap fun p => (q.level p).map (p, ·), ?_, ?_, fun pids => ?_⟩
  · intro e he
    obtain ⟨p, hp, hmem⟩ := List.mem_flatMap.1 he
    obtain ⟨-, -, rfl⟩ := List.mem_map.1 hmem
    exact hhigher p hp
  · intro e he
    obtain ⟨p, hp, hmem⟩ := List.mem_flatMap.1 he
    obtain ⟨-, -, rfl⟩ := List.mem_map.1 hmem
    exact hlower p hp
  · have hother : ∀ p, p ≠ level → (q.setLevel level pids).level p = q.level p := fun p hne => by
      rw [level_setLevel, if_neg (Ne.symm hne)]
    rw [entries, hall, List.flatMap_append, List.flatMap_cons, level_setLevel_self]
    congr 1
    · exact List.flatMap_congr fun p hp => by rw [hother p (Fin.ne_of_lt (hhigher p hp))]
    · congr 1
      exact List.flatMap_congr fun p hp => by rw [hother p (Fin.ne_of_gt (hlower p hp))]

/-- The queue of a level lists the processes of its entries. -/
theorem level_eq (q : ReadyQueues) (level : Priority) :
    q.level level = (q.entries.filter (·.1 == level)).map (·.2) := by
  obtain ⟨above, below, habove, hbelow, hentries⟩ := q.exists_around level
  have hnone : ∀ l : List (Priority × ProcessId), (∀ e ∈ l, e.1 ≠ level) →
      l.filter (·.1 == level) = [] := fun l hl => by
    simpa [List.filter_eq_nil_iff] using hl
  have hlevel : ((q.level level).map (level, ·)).filter (·.1 == level) =
      (q.level level).map (level, ·) := by
    simp [List.filter_eq_self]
  have hall := hentries (q.level level)
  rw [setLevel_level] at hall
  rw [hall, List.filter_append, List.filter_append, hlevel,
    hnone above fun e he => Fin.ne_of_lt (habove e he),
    hnone below fun e he => Fin.ne_of_gt (hbelow e he), List.nil_append, List.append_nil,
    List.map_map]
  exact (List.map_id _).symm

/-! ## Operations -/

/-- A process at the tail of its level stands behind the entries of its level and of higher
ones, and before all others. -/
theorem exists_pushBack (q : ReadyQueues) (level : Priority) (pid : ProcessId) :
    ∃ before behind, q.entries = before ++ behind ∧
      (q.pushBack level pid).entries = before ++ (level, pid) :: behind ∧
      (∀ e ∈ before, e.1 ≤ level) ∧ ∀ e ∈ behind, level < e.1 := by
  obtain ⟨above, below, habove, hbelow, hentries⟩ := q.exists_around level
  refine ⟨above ++ (q.level level).map (level, ·), below, ?_, ?_, ?_, hbelow⟩
  · rw [List.append_assoc, ← hentries, setLevel_level]
  · rw [pushBack, hentries, List.map_append, List.append_assoc, List.append_assoc]
    rfl
  · refine List.forall_mem_append.2 ⟨fun e he => Nat.le_of_lt (habove e he), ?_⟩
    exact List.forall_mem_map.2 fun _ _ => Nat.le_refl level.val

/-- A process at the head of its level stands behind the entries of higher levels and before
all others. -/
theorem exists_pushFront (q : ReadyQueues) (level : Priority) (pid : ProcessId) :
    ∃ before behind, q.entries = before ++ behind ∧
      (q.pushFront level pid).entries = before ++ (level, pid) :: behind ∧
      (∀ e ∈ before, e.1 < level) ∧ ∀ e ∈ behind, level ≤ e.1 := by
  obtain ⟨above, below, habove, hbelow, hentries⟩ := q.exists_around level
  refine ⟨above, (q.level level).map (level, ·) ++ below, ?_, ?_, habove, ?_⟩
  · rw [← hentries, setLevel_level]
  · rw [pushFront, hentries, List.map_cons, List.cons_append]
  · refine List.forall_mem_append.2 ⟨?_, fun e he => Nat.le_of_lt (hbelow e he)⟩
    exact List.forall_mem_map.2 fun _ _ => Nat.le_refl level.val

/-- Only the first entry of a process is removed. -/
theorem exists_remove (h : q.levelOf? pid = some level) :
    ∃ before behind, q.entries = before ++ (level, pid) :: behind ∧
      (∀ e ∈ before, e.2 ≠ pid) ∧ (q.remove pid).entries = before ++ behind := by
  obtain ⟨above, below, habove, -, hentries⟩ := q.exists_around level
  obtain ⟨first, rest, hfirst, hlevel, herase⟩ := List.exists_erase_eq (mem_of_levelOf? h)
  have hall : q.entries = above ++ ((q.level level).map (level, ·) ++ below) := by
    rw [← hentries, setLevel_level]
  refine ⟨above ++ first.map (level, ·), rest.map (level, ·) ++ below, ?_, ?_, ?_⟩
  · rw [hall, hlevel]
    simp only [List.map_append, List.map_cons, List.append_assoc, List.cons_append]
  · refine List.forall_mem_append.2 ⟨fun e he heq => ?_, ?_⟩
    · -- The search has passed the levels above.
      have hmem : e.2 ∈ q.level e.1 := by
        rw [← mem_entries_iff, hall]
        exact List.mem_append_left _ he
      have hpassed := (Priority.find?_all_eq_some_iff.1 h).2 e.1 (habove e he)
      rw [heq] at hmem
      simp [hmem] at hpassed
    · exact List.forall_mem_map.2 fun x hx heq => hfirst (heq ▸ hx)
  · have hremove : q.remove pid = q.setLevel level ((q.level level).erase pid) := by
      simp only [remove, h]
    rw [hremove, hentries, herase]
    simp only [List.map_append, List.append_assoc]

theorem remove_of_levelOf?_eq_none (h : q.levelOf? pid = none) : q.remove pid = q := by
  simp only [remove, h]

theorem levelOf?_eq_none_iff_entries :
    q.levelOf? pid = none ↔ ∀ e ∈ q.entries, e.2 ≠ pid := by
  rw [levelOf?_eq_none_iff]
  refine ⟨fun h e he heq => h e.1 (heq ▸ mem_entries_iff.1 he), fun h level hmem => ?_⟩
  exact h (level, pid) (mem_entries_iff.2 hmem) rfl

/-- The queues answer an operation as the list of their entries does. -/
theorem answer_eq (q : ReadyQueues) (request : QueueRequest) :
    q.answer request = EntryList.answer q.entries request := by
  cases request with
  | pushBack | pushFront => rfl
  | remove pid =>
      rw [answer, EntryList.answer]
      cases h : q.levelOf? pid with
      | none =>
          have hnone : q.entries.find? (·.2 == pid) = none := by
            simpa using levelOf?_eq_none_iff_entries.1 h
          rw [hnone, Option.map_none]
      | some level =>
          obtain ⟨before, behind, hentries, hbefore, -⟩ := exists_remove h
          have hfirst : q.entries.find? (·.2 == pid) = some (level, pid) := by
            refine List.find?_eq_some_iff_append.2
              ⟨beq_self_eq_true pid, before, behind, hentries, ?_⟩
            simpa using hbefore
          rw [hfirst, Option.map_some]

/-- The entries after an operation are those of the list of entries after it. -/
theorem entries_after (q : ReadyQueues) (request : QueueRequest) :
    (q.after request).entries = EntryList.after q.entries request := by
  cases request with
  | pushBack level pid =>
      obtain ⟨before, behind, hentries, hpush, hbefore, hbehind⟩ := q.exists_pushBack level pid
      rw [after, EntryList.after, hpush, hentries, orderedInsert_append]
      · exact fun e he => Nat.not_lt.2 (hbefore e he)
      · exact hbehind
  | pushFront level pid =>
      obtain ⟨before, behind, hentries, hpush, hbefore, hbehind⟩ := q.exists_pushFront level pid
      rw [after, EntryList.after, hpush, hentries, orderedInsert_append]
      · exact fun e he => Nat.not_le.2 (hbefore e he)
      · exact hbehind
  | remove pid =>
      rw [after, EntryList.after]
      cases h : q.levelOf? pid with
      | none =>
          rw [remove_of_levelOf?_eq_none h, List.eraseP_of_forall_not]
          simpa using levelOf?_eq_none_iff_entries.1 h
      | some level =>
          obtain ⟨before, behind, hentries, hbefore, hremove⟩ := exists_remove h
          have hnot : ∀ e ∈ before, ¬ (e.2 == pid) = true := by simpa using hbefore
          rw [hremove, hentries, List.eraseP_append_right _ hnot, List.eraseP_cons_of_pos]
          exact beq_self_eq_true pid

/-- The queues go through a history as the list of their entries does. -/
theorem entries_afterAll (q : ReadyQueues) (requests : List QueueRequest) :
    (q.afterAll requests).entries = requests.foldl EntryList.after q.entries ∧
      q.answers requests = EntryList.answers q.entries requests := by
  induction requests generalizing q with
  | nil => exact ⟨rfl, rfl⟩
  | cons request rest ih =>
      obtain ⟨hentries, hanswers⟩ := ih (q.after request)
      rw [entries_after] at hentries hanswers
      refine ⟨hentries, ?_⟩
      rw [answers, EntryList.answers, answer_eq, hanswers]

/-! ## Observations -/

/-- The head of the highest queue is the first entry. -/
theorem HeadAt.head?_entries {rest : List ProcessId} (h : q.HeadAt level pid rest) :
    q.entries.head? = some (level, pid) := by
  obtain ⟨above, below, habove, -, hentries⟩ := q.exists_around level
  have hall := hentries (q.level level)
  rw [setLevel_level] at hall
  have hnone : above = [] := by
    refine List.eq_nil_iff_forall_not_mem.2 fun e he => ?_
    have hmem : e.2 ∈ q.level e.1 := by
      rw [← mem_entries_iff, hall]
      exact List.mem_append_left _ he
    rw [h.above e.1 (habove e he)] at hmem
    cases hmem
  rw [hall, hnone, h.level_eq]
  rfl

theorem HeadAt.highest?_eq {rest : List ProcessId} (h : q.HeadAt level pid rest) :
    q.highest? = some level := by
  refine Priority.find?_all_eq_some_iff.2 ⟨?_, fun other hlt => ?_⟩
  · simp [h.level_eq]
  · simp [h.above other hlt]

theorem entries_eq_nil_iff : q.entries = [] ↔ ∀ level, q.level level = [] := by
  simp [entries, List.flatMap_eq_nil_iff]

/-- The first entry is the highest level with its head. -/
theorem head?_entries (q : ReadyQueues) :
    q.highest? = q.entries.head?.map (·.1) ∧ q.head? = q.entries.head?.map (·.2) := by
  cases hhead : q.head? with
  | none =>
      have hnil := level_eq_nil_of_head? hhead
      have hnone : q.highest? = none := by
        simp [highest?, hnil]
      rw [entries_eq_nil_iff.2 hnil, hnone]
      exact ⟨rfl, rfl⟩
  | some pid =>
      obtain ⟨level, rest, h⟩ := exists_headAt hhead
      rw [h.head?_entries, h.highest?_eq]
      exact ⟨rfl, rfl⟩

theorem lengths_eq (q : ReadyQueues) :
    q.lengths = Priority.all.map fun level => q.entries.countP (·.1 == level) := by
  refine List.map_congr_left fun level _ => ?_
  rw [level_eq, List.length_map, List.countP_eq_length_filter]

theorem size_eq (q : ReadyQueues) : q.size = q.entries.length := by
  rw [size, lengths, entries, List.length_flatMap, List.sum]
  simp only [List.length_map]

theorem isEmpty_eq (q : ReadyQueues) : q.isEmpty = q.entries.isEmpty := by
  rw [Bool.eq_iff_iff, List.isEmpty_iff, entries_eq_nil_iff, isEmpty, List.all_eq_true]
  simp

/-- The queues behave as one list of entries that is ordered by level. They go through every
history of operations as the list does, with the same answers. An entry that is added at the
tail of a level comes behind the entries of its level and of higher ones and before all others,
one that is added at the head comes behind those of higher levels only, and a removal takes out
the first entry of the process, or nothing if there is none. What the queues show of themselves
is read off the first entry, or counts entries. -/
theorem behave_as_list (q : ReadyQueues) (requests : List QueueRequest) :
    ((q.afterAll requests).entries = requests.foldl EntryList.after q.entries ∧
      q.answers requests = EntryList.answers q.entries requests) ∧
    q.entries.Pairwise (fun a b => a.1 ≤ b.1) ∧
    (∀ level pid, ∃ before behind, q.entries = before ++ behind ∧
      (q.pushBack level pid).entries = before ++ (level, pid) :: behind ∧
      (∀ e ∈ before, e.1 ≤ level) ∧ ∀ e ∈ behind, level < e.1) ∧
    (∀ level pid, ∃ before behind, q.entries = before ++ behind ∧
      (q.pushFront level pid).entries = before ++ (level, pid) :: behind ∧
      (∀ e ∈ before, e.1 < level) ∧ ∀ e ∈ behind, level ≤ e.1) ∧
    (∀ pid,
      ((∀ e ∈ q.entries, e.2 ≠ pid) ∧ q.levelOf? pid = none ∧ q.remove pid = q) ∨
      ∃ before level behind, q.entries = before ++ (level, pid) :: behind ∧
        (∀ e ∈ before, e.2 ≠ pid) ∧ q.levelOf? pid = some level ∧
        (q.remove pid).entries = before ++ behind) ∧
    (q.highest? = q.entries.head?.map (·.1) ∧ q.head? = q.entries.head?.map (·.2)) ∧
    q.size = q.entries.length ∧
    (q.lengths = Priority.all.map fun level => q.entries.countP (·.1 == level)) ∧
    q.isEmpty = q.entries.isEmpty ∧
    ∀ pid, q.occurrences pid = q.entries.countP (·.2 == pid) := by
  refine ⟨q.entries_afterAll requests, q.pairwise_entries, q.exists_pushBack, q.exists_pushFront,
    fun pid => ?_, q.head?_entries, q.size_eq, q.lengths_eq, q.isEmpty_eq, fun _ => rfl⟩
  cases h : q.levelOf? pid with
  | none =>
      exact .inl ⟨levelOf?_eq_none_iff_entries.1 h, rfl, remove_of_levelOf?_eq_none h⟩
  | some level =>
      obtain ⟨before, behind, hentries, hbefore, hremove⟩ := exists_remove h
      exact .inr ⟨before, level, behind, hentries, hbefore, rfl, hremove⟩

/-- A process that is queued four times loses its entries from the first on. -/
example :
    let q := afterAll {} [.pushBack 3 7, .pushBack 1 7, .pushFront 1 8, .pushBack 1 7,
      .pushFront 0 7, .remove 7, .remove 7]
    q.entries = [(1, 8), (1, 7), (3, 7)] := by
  decide

end ReadyQueues

end Timeshare
