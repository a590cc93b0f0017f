import Mathlib.Data.List.Sort
import Mathlib.Data.Prod.Lex
import Timeshare.Proofs.Policy.BuiltIn

/-!
# The shortest job

The ready processes of a table are put in an order by their remaining estimates and, where
these are equal, by their numbers (`ProcessTable.shortestFirst`). The policy that dispatches
the shortest job chooses the first process in this order, whatever the levels are
(`Scheduler.Settled.choice?_of_shortestJobFirst`). The order is the only one that lists the
ready processes in this way (`ProcessTable.shortestFirst_eq`), so it is known after a change
of the table as soon as it is guessed.
-/

namespace Timeshare

namespace ProcessTable

/-- What processes are compared by: first the remaining estimate, then the number. -/
def rank (entry : ProcessId × Process) : ℕ ×ₗ ProcessId :=
  toLex (entry.2.remainingEstimate, entry.1)

/-- The ready processes, the shortest one first. -/
def shortestFirst (t : ProcessTable) : List (ProcessId × Process) :=
  (t.entries.filter (·.2.state = .ready)).insertionSort (rank · ≤ rank ·)

variable {t : ProcessTable} {entry other : ProcessId × Process}
  {entries : List (ProcessId × Process)}

theorem rank_le_iff :
    rank entry ≤ rank other ↔ entry.2.remainingEstimate < other.2.remainingEstimate ∨
      entry.2.remainingEstimate = other.2.remainingEstimate ∧ entry.1 ≤ other.1 :=
  Prod.Lex.toLex_le_toLex

theorem mem_shortestFirst :
    entry ∈ t.shortestFirst ↔ t.get? entry.1 = some entry.2 ∧ entry.2.state = .ready := by
  rw [shortestFirst, (List.perm_insertionSort ..).mem_iff, List.mem_filter, decide_eq_true_iff]
  exact and_congr_left' t.mem_entries_iff

theorem pairwise_shortestFirst (t : ProcessTable) :
    t.shortestFirst.Pairwise (rank · < rank ·) := by
  have hkeys : t.shortestFirst.Pairwise (·.1 ≠ ·.1) := by
    refine ((List.perm_insertionSort ..).pairwise_iff fun h => Ne.symm h).2 ?_
    exact (t.ascending.imp Nat.ne_of_lt).filter _
  have hranks : t.shortestFirst.Pairwise (rank · ≤ rank ·) :=
    List.pairwise_insertionSort (rank · ≤ rank ·) _
  refine (hranks.and hkeys).imp fun {e e'} h => lt_of_le_of_ne h.1 fun heq => h.2 ?_
  exact congrArg (fun x => (ofLex x).2) heq

/-- There is only one such order. -/
theorem shortestFirst_eq (hentries : entries.Pairwise (rank · < rank ·))
    (hmem : ∀ entry, entry ∈ entries ↔ t.get? entry.1 = some entry.2 ∧ entry.2.state = .ready) :
    t.shortestFirst = entries := by
  have hirrefl : Std.Irrefl fun e e' : ProcessId × Process => rank e < rank e' :=
    ⟨fun _ => lt_irrefl _⟩
  have hantisymm : Std.Antisymm fun e e' : ProcessId × Process => rank e < rank e' :=
    ⟨fun _ _ h h' => absurd h' h.asymm⟩
  exact t.pairwise_shortestFirst.eq_of_mem_iff hentries fun entry =>
    mem_shortestFirst.trans (hmem entry).symm

theorem rank_le_of_head? (h : t.shortestFirst.head? = some entry)
    (hother : other ∈ t.shortestFirst) : rank entry ≤ rank other := by
  obtain ⟨rest, hrest⟩ := List.head?_eq_some_iff.1 h
  have hpairwise := t.pairwise_shortestFirst
  rw [hrest] at hother hpairwise
  obtain rfl | hmem := List.mem_cons.1 hother
  · exact le_rfl
  · exact (List.rel_of_pairwise_cons hpairwise hmem).le

theorem shortestFirst_congr {t' : ProcessTable}
    (h : ∀ pid p, p.state = .ready → (t'.get? pid = some p ↔ t.get? pid = some p)) :
    t'.shortestFirst = t.shortestFirst := by
  refine shortestFirst_eq t.pairwise_shortestFirst fun entry => mem_shortestFirst.trans ?_
  exact and_congr_left fun hready => (h _ _ hready).symm

/-! ## Another record for the first process -/

section first

variable {pid : ProcessId} {p p' : Process} {rest : List (ProcessId × Process)}

theorem pairwise_of_shortestFirst (h : t.shortestFirst = (pid, p) :: rest) :
    (∀ entry ∈ rest, rank (pid, p) < rank entry) ∧ rest.Pairwise (rank · < rank ·) :=
  List.pairwise_cons.1 (h ▸ t.pairwise_shortestFirst)

theorem mem_rest_iff (h : t.shortestFirst = (pid, p) :: rest) :
    entry ∈ rest ↔ entry.1 ≠ pid ∧ t.get? entry.1 = some entry.2 ∧ entry.2.state = .ready := by
  rw [← mem_shortestFirst, h, List.mem_cons]
  have hfirst : t.get? pid = some p := (mem_shortestFirst.1 (h ▸ List.mem_cons_self)).1
  constructor
  · refine fun hmem => ⟨fun heq => ?_, .inr hmem⟩
    obtain ⟨hget, -⟩ := mem_shortestFirst.1 (h ▸ List.mem_cons_of_mem _ hmem)
    rw [heq, hfirst] at hget
    have hlt := (pairwise_of_shortestFirst h).1 entry hmem
    rw [← heq, Option.some.inj hget] at hlt
    exact lt_irrefl _ hlt
  · rintro ⟨hne, rfl | hmem⟩
    · exact absurd rfl hne
    · exact hmem

/-- The first process stays the first if it comes nearer to its end. -/
theorem shortestFirst_insert_of_le (h : t.shortestFirst = (pid, p) :: rest)
    (hready : p'.state = .ready) (hle : p'.remainingEstimate ≤ p.remainingEstimate) :
    shortestFirst (t.insert pid p') = (pid, p') :: rest := by
  have hrank : rank (pid, p') ≤ rank (pid, p) :=
    rank_le_iff.2 (hle.lt_or_eq.imp_right fun heq => ⟨heq, le_rfl⟩)
  obtain ⟨hfirst, hrest⟩ := pairwise_of_shortestFirst h
  refine shortestFirst_eq (List.pairwise_cons.2 ⟨fun entry hentry => ?_, hrest⟩) ?_
  · exact hrank.trans_lt (hfirst entry hentry)
  · rintro ⟨other, q⟩
    rw [List.mem_cons, mem_rest_iff h, Table.get?_insert_eq_some_iff, Prod.mk.injEq]
    constructor
    · rintro (⟨rfl, rfl⟩ | ⟨hne, hget, hr⟩)
      · exact ⟨.inl ⟨rfl, rfl⟩, hready⟩
      · exact ⟨.inr ⟨Ne.symm hne, hget⟩, hr⟩
    · rintro ⟨⟨rfl, rfl⟩ | ⟨hne, hget⟩, hr⟩
      · exact .inl ⟨rfl, rfl⟩
      · exact .inr ⟨Ne.symm hne, hget, hr⟩

theorem shortestFirst_insert_of_not_ready (h : t.shortestFirst = (pid, p) :: rest)
    (hnot : p'.state ≠ .ready) : shortestFirst (t.insert pid p') = rest := by
  refine shortestFirst_eq (pairwise_of_shortestFirst h).2 ?_
  rintro ⟨other, q⟩
  rw [mem_rest_iff h, Table.get?_insert_eq_some_iff]
  constructor
  · rintro ⟨hne, hget, hr⟩
    exact ⟨.inr ⟨Ne.symm hne, hget⟩, hr⟩
  · rintro ⟨⟨rfl, rfl⟩ | ⟨hne, hget⟩, hr⟩
    · exact absurd hr hnot
    · exact ⟨Ne.symm hne, hget, hr⟩

end first

/-! ## The choice of the policy -/

/-- Of several entries with the least estimate the search takes the first, so it takes the one
with the least number if these ascend. -/
theorem rank_le_of_minOn? (hascending : entries.Pairwise (·.1 < ·.1))
    (h : entries.minOn? (·.2.remainingEstimate) = some entry) (hother : other ∈ entries) :
    rank entry ≤ rank other := by
  induction entries generalizing entry other with
  | nil => cases hother
  | cons first rest ih =>
      obtain ⟨hfirst, hrest⟩ := List.pairwise_cons.1 hascending
      rw [List.minOn?_cons, Option.some_inj] at h
      cases hleast : rest.minOn? (·.2.remainingEstimate) with
      | none =>
          have hnil : rest = [] := by simpa [List.minOn?_eq_if] using hleast
          subst hnil
          rw [hleast] at h
          rw [List.mem_singleton.1 hother, ← h]
          exact le_rfl
      | some least =>
          have hbound : ∀ entry ∈ rest, rank least ≤ rank entry :=
            fun entry hentry => ih hrest hleast hentry
          have hnumber := hfirst least (List.minOn?_mem hleast)
          rw [hleast, Option.elim_some, minOn_eq_if] at h
          split at h
          next hle =>
            subst h
            obtain rfl | hother := List.mem_cons.1 hother
            · exact le_rfl
            · refine le_trans (rank_le_iff.2 ?_) (hbound other hother)
              exact hle.lt_or_eq.imp_right fun heq => ⟨heq, hnumber.le⟩
          next hlt =>
            subst h
            obtain rfl | hother := List.mem_cons.1 hother
            · exact rank_le_iff.2 (.inl (Nat.lt_of_not_le hlt))
            · exact hbound other hother

theorem filter_contains {q : ReadyQueues} (h : q.Accounts t) :
    (t.entries.filter fun e => q.contains e.1) = t.entries.filter (·.2.state = .ready) := by
  refine List.filter_congr fun entry hentry => ?_
  have hp := t.mem_entries_iff.1 hentry
  rw [Bool.eq_iff_iff, decide_eq_true_iff]
  constructor
  · intro hcontains
    obtain ⟨level, hlevel⟩ := ReadyQueues.mem_level_of_contains hcontains
    obtain ⟨p, hp', hready, -⟩ := h.mem_level_iff.1 hlevel
    rw [hp] at hp'
    cases hp'
    exact hready
  · intro hready
    exact ReadyQueues.contains_of_mem_level (h.mem_level_iff.2 ⟨_, hp, hready, rfl⟩)

theorem leastRemaining_eq {q : ReadyQueues} (h : q.Accounts t) :
    Policy.leastRemaining q t = t.shortestFirst.head?.map (·.1) := by
  rw [Policy.leastRemaining, filter_contains h]
  have hmem (entry : ProcessId × Process) :
      entry ∈ t.entries.filter (·.2.state = .ready) ↔ entry ∈ t.shortestFirst :=
    (List.perm_insertionSort ..).mem_iff.symm
  cases hleast : (t.entries.filter (·.2.state = .ready)).minOn? (·.2.remainingEstimate) with
  | none =>
      have hnil : t.shortestFirst = [] := by
        refine List.eq_nil_iff_forall_not_mem.2 fun entry hentry => ?_
        have hsome := List.isSome_minOn?_of_mem
          (f := fun e : ProcessId × Process => e.2.remainingEstimate) ((hmem entry).2 hentry)
        rw [hleast] at hsome
        cases hsome
      rw [hnil]
      rfl
  | some least =>
      have hin := (hmem least).1 (List.minOn?_mem hleast)
      cases hhead : t.shortestFirst.head? with
      | none =>
          rw [List.head?_eq_none_iff.1 hhead] at hin
          cases hin
      | some first =>
          have hle := rank_le_of_head? hhead hin
          have hge := rank_le_of_minOn? (t.ascending.filter _) hleast
            ((hmem first).2 (List.mem_of_head? hhead))
          have heq : (ofLex (rank least)).2 = (ofLex (rank first)).2 := by rw [le_antisymm hge hle]
          exact congrArg some heq

end ProcessTable

/-- The shortest job is chosen. -/
theorem Scheduler.Settled.choice?_of_shortestJobFirst {s : Scheduler} (h : s.Settled)
    {params : PolicyParams} (hpolicy : s.policy = .shortestJobFirst params) :
    s.choice? = s.processes.shortestFirst.head?.map (·.1) := by
  rw [choice?, hpolicy]
  exact ProcessTable.leastRemaining_eq h.accounts

end Timeshare
