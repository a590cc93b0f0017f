import Timeshare.Proofs.Machine.Levels

/-!
# The feedback rule at one tick

Priority aging demotes a process whose slice expires often enough in a row. How often this is
can be read off the ticks that went before: `expiredSlices` counts the slices of a process that
expired since it last waited or changed its level. The count that its record keeps is the same
one as long as it can matter (`Tallied`), so at every tick the level moves as the rule says
(`Machine.followsFeedback_of_tallied`).
-/

namespace Timeshare

/-- The level of a process, if it is in the table. -/
def Scheduler.level? (s : Scheduler) (pid : ProcessId) : Option Priority :=
  (s.processes.get? pid).map Process.priority

namespace Machine

/-- What is left at the dispatch of the next tick of a count of expired slices: a process
that is raised when the tick begins starts anew. -/
def countAtDispatch (m : Machine) (pid : ProcessId) (n : Nat) : Nat :=
  if m.atDispatch.level? pid = m.scheduler.level? pid then n else 0

/-- The count of expired slices after the next tick. -/
def countAfter (m : Machine) (pid : ProcessId) (n : Nat) : Nat :=
  if m.tick.result.leaves pid .waiting = true ∨
      m.tick.state.scheduler.level? pid ≠ m.atDispatch.level? pid then 0
  else if m.tick.result.leaves pid .ready then m.countAtDispatch pid n + 1
  else m.countAtDispatch pid n

end Machine

/-- The slices of a process that expired since it last waited or changed its level, counted
along the machines that ticked. Before its submission there are none. -/
def expiredSlices (ticked : List Machine) (pid : ProcessId) : Nat :=
  ticked.foldl (fun n m => m.countAfter pid n) 0

theorem expiredSlices_concat (ticked : List Machine) (m : Machine) (pid : ProcessId) :
    expiredSlices (ticked ++ [m]) pid = m.countAfter pid (expiredSlices ticked pid) := by
  rw [expiredSlices, List.foldl_append]
  rfl

/-- What the feedback rule says of the next tick, for a process that has used up `n` slices:
`q` is its record at the dispatch and `r` the one after the tick. At the dispatch the level is
the old one or, if the process was starved, the next higher one. The dispatch lowers it, by one
level, exactly if the slice expired, which was the last one that the threshold allows, and
there is a lower level. -/
def Machine.FollowsFeedback (m : Machine) (params : PolicyParams) (pid : ProcessId) (n : Nat) :
    Prop :=
  ∀ p, m.scheduler.processes.get? pid = some p →
    ∃ q r, m.atDispatch.processes.get? pid = some q ∧
      m.tick.state.scheduler.processes.get? pid = some r ∧
      (q.priority = p.priority ∨
        Aging.Starves params.agingThreshold (m.scheduler.clock + 1) p ∧
          q.priority.val + 1 = p.priority.val) ∧
      (r.priority = q.priority ∨ r.priority.val = q.priority.val + 1) ∧
      (r.priority.val = q.priority.val + 1 ↔
        m.tick.result.leaves pid .ready = true ∧
          m.countAtDispatch pid n + 1 = params.demotionThreshold ∧ q.priority ≠ .lowest)

/-! ## The count in the record -/

/-- A record counts the expired slices, and there are fewer than the threshold; at the lowest
level, where there is no demotion, the count may run on. -/
def Tallied (threshold n : Nat) (standing : Priority × UInt32) : Prop :=
  standing.1 = .lowest ∨ standing.2.toNat = n ∧ n < threshold

theorem tallied_zero {threshold : Nat} (hpos : 1 ≤ threshold) (level : Priority) :
    Tallied threshold 0 (level, 0) :=
  .inr ⟨rfl, hpos⟩

namespace Scheduler

variable {s : Scheduler} {params : PolicyParams} {p : Process} {n : Nat}

/-- A slice that expires lowers the process if it is the last one that the threshold allows,
and is counted otherwise. -/
theorem tallied_afterExpiry (hpolicy : s.policy = .priorityAging params)
    (hpos : 1 ≤ params.demotionThreshold) (hword : params.demotionThreshold < UInt32.size)
    (h : Tallied params.demotionThreshold n p.standing) :
    ((s.afterExpiry p).priority.val = p.priority.val + 1 ↔
      n + 1 = params.demotionThreshold ∧ p.priority ≠ .lowest) ∧
    Tallied params.demotionThreshold
      (if (s.afterExpiry p).priority = p.priority then n + 1 else 0)
      (s.afterExpiry p).standing := by
  have hlevel : (s.afterExpiry p).priority =
      if params.demotionThreshold ≤ (p.consecutiveExpirations + 1).toNat then p.priority.lower
      else p.priority := by
    rw [priority_afterExpiry, hpolicy]
    rfl
  rw [Process.standing, consecutiveExpirations_afterExpiry]
  by_cases hlowest : p.priority = .lowest
  · have hsame : (s.afterExpiry p).priority = p.priority := by
      rw [hlevel, hlowest]
      exact ite_self _
    rw [hsame]
    exact ⟨⟨fun h => absurd h (Nat.ne_of_lt (Nat.lt_succ_self _)), fun h => absurd hlowest h.2⟩,
      .inl hlowest⟩
  · obtain ⟨hcount, hlt⟩ := h.resolve_left hlowest
    have hnext : (p.consecutiveExpirations + 1).toNat = n + 1 := by
      rw [UInt32.toNat_add, show p.consecutiveExpirations.toNat = n from hcount]
      exact Nat.mod_eq_of_lt (Nat.lt_of_le_of_lt hlt hword)
    have hlower := Priority.val_lower_of_ne_lowest hlowest
    rw [hnext] at hlevel
    split at hlevel
    next hlast =>
      have hne : p.priority.lower ≠ p.priority := by
        intro heq
        rw [heq] at hlower
        omega
      rw [hlevel, if_neg hne, if_neg hne]
      exact ⟨⟨fun _ => ⟨by omega, hlowest⟩, fun _ => hlower⟩, tallied_zero hpos _⟩
    next hearly =>
      rw [hlevel, if_pos rfl, if_pos rfl]
      exact ⟨⟨fun h => by omega, fun h => by omega⟩, .inr ⟨hnext, by omega⟩⟩

end Scheduler

/-! ## One tick -/

namespace Machine

variable {m : Machine} {params : PolicyParams} {pid : ProcessId} {p q r : Process} {n : Nat}

theorem countAtDispatch_of_get? (hp : m.scheduler.processes.get? pid = some p)
    (hq : m.atDispatch.processes.get? pid = some q) (n : Nat) :
    m.countAtDispatch pid n = if q.priority = p.priority then n else 0 := by
  simp only [countAtDispatch, Scheduler.level?, hp, hq, Option.map_some, Option.some.injEq]

theorem countAfter_of_get? (hq : m.atDispatch.processes.get? pid = some q)
    (hr : m.tick.state.scheduler.processes.get? pid = some r) (n : Nat) :
    m.countAfter pid n =
      if m.tick.result.leaves pid .waiting = true ∨ r.priority ≠ q.priority then 0
      else if m.tick.result.leaves pid .ready then m.countAtDispatch pid n + 1
      else m.countAtDispatch pid n := by
  simp only [countAfter, Scheduler.level?, hq, hr, Option.map_some, ne_eq, Option.some.injEq]

theorem raise_ne_of_starves {threshold now : Nat} (h : Aging.Starves threshold now p) :
    p.priority.raise ≠ p.priority := by
  have hraise := Priority.val_raise_of_ne_highest h.2.1
  intro heq
  rw [heq] at hraise
  omega

/-- A process is raised by aging, and its count starts anew, or it stays as it is. -/
theorem tallied_atDispatch (h : m.scheduler.Settled)
    (hpolicy : m.scheduler.policy = .priorityAging params)
    (hpos : 1 ≤ params.demotionThreshold) (hp : m.scheduler.processes.get? pid = some p)
    (ht : Tallied params.demotionThreshold n p.standing) :
    ∃ q, m.atDispatch.processes.get? pid = some q ∧
      (q.priority = p.priority ∨
        Aging.Starves params.agingThreshold (m.scheduler.clock + 1) p ∧
          q.priority.val + 1 = p.priority.val) ∧
      Tallied params.demotionThreshold (m.countAtDispatch pid n) q.standing := by
  have hage : m.scheduler.policy.age = Aging.step params.agingThreshold := by rw [hpolicy]; rfl
  obtain ⟨q, hq, hq'⟩ := get?_atDispatch h hage hp
  refine ⟨q, hq, ?_⟩
  rw [countAtDispatch_of_get? hp hq]
  obtain rfl | ⟨hstarves, rfl⟩ := hq'
  · rw [if_pos rfl]
    exact ⟨.inl rfl, ht⟩
  · refine ⟨.inr ⟨hstarves, Priority.val_raise_of_ne_highest hstarves.2.1⟩, ?_⟩
    rw [show (Aging.raised p.priority.raise _ p).priority = p.priority.raise from rfl,
      if_neg (raise_ne_of_starves hstarves)]
    exact tallied_zero hpos _

/-- The dispatch lowers the process by the rule, and its record goes on counting. -/
theorem tallied_tick (hpolicy : m.scheduler.policy = .priorityAging params)
    (hpos : 1 ≤ params.demotionThreshold) (hword : params.demotionThreshold < UInt32.size)
    (hq : m.atDispatch.processes.get? pid = some q)
    (ht : Tallied params.demotionThreshold (m.countAtDispatch pid n) q.standing) :
    ∃ r, m.tick.state.scheduler.processes.get? pid = some r ∧
      (r.priority = q.priority ∨ r.priority.val = q.priority.val + 1) ∧
      (r.priority.val = q.priority.val + 1 ↔
        m.tick.result.leaves pid .ready = true ∧
          m.countAtDispatch pid n + 1 = params.demotionThreshold ∧ q.priority ≠ .lowest) ∧
      Tallied params.demotionThreshold (m.countAfter pid n) r.standing := by
  have hbuiltIn : m.scheduler.policy.BuiltIn := ⟨.priorityAging, params, hpolicy⟩
  obtain ⟨r, hr, hstanding⟩ := exists_standing_tick hbuiltIn hq
  refine ⟨r, hr, ?_⟩
  rw [countAfter_of_get? hq hr]
  rw [Scheduler.standingAfter] at hstanding
  have hpolicy' : m.atDispatch.policy = .priorityAging params := m.policy_atDispatch.trans hpolicy
  have hkept : r.priority = q.priority → ¬ m.tick.result.leaves pid .ready = true →
      (r.priority.val = q.priority.val + 1 ↔
        m.tick.result.leaves pid .ready = true ∧
          m.countAtDispatch pid n + 1 = params.demotionThreshold ∧ q.priority ≠ .lowest) := by
    intro hsame hnot
    rw [hsame]
    exact ⟨fun h => absurd h (Nat.ne_of_lt (Nat.lt_succ_self _)), fun h => absurd h.1 hnot⟩
  by_cases hready : m.tick.result.leaves pid .ready = true
  · -- The slice expired.
    have hwaiting : m.tick.result.leaves pid .waiting = false :=
      TickOutcome.leaves_eq_false hready (by simp)
    rw [if_pos hready] at hstanding
    have hlevel : r.priority = (m.atDispatch.afterExpiry q).priority :=
      congrArg Prod.fst hstanding
    obtain ⟨hdemoted, htallied⟩ := Scheduler.tallied_afterExpiry hpolicy' hpos hword ht
    rw [hstanding, hlevel, hwaiting, if_pos hready]
    refine ⟨?_, hdemoted.trans (and_iff_right hready).symm, ?_⟩
    · rw [Scheduler.priority_afterExpiry, m.policy_atDispatch]
      exact hbuiltIn.levelAfterExpiry_cases _
    · simpa [ite_not] using htallied
  · by_cases hwaiting : m.tick.result.leaves pid .waiting = true
    · -- It waits.
      rw [if_neg hready, if_pos hwaiting] at hstanding
      have hlevel : r.priority = q.priority := congrArg Prod.fst hstanding
      rw [if_pos (.inl hwaiting), hstanding]
      exact ⟨.inl hlevel, hkept hlevel hready, tallied_zero hpos _⟩
    · rw [if_neg hready, if_neg hwaiting] at hstanding
      have hlevel : r.priority = q.priority := congrArg Prod.fst hstanding
      rw [if_neg (not_or.2 ⟨hwaiting, not_not_intro hlevel⟩), if_neg hready, hstanding]
      exact ⟨.inl hlevel, hkept hlevel hready, ht⟩

/-- As long as the record counts the expired slices, the level moves by the rule and the record
goes on counting. -/
theorem followsFeedback_of_tallied (h : m.scheduler.Settled)
    (hpolicy : m.scheduler.policy = .priorityAging params)
    (hpos : 1 ≤ params.demotionThreshold) (hword : params.demotionThreshold < UInt32.size)
    (ht : ∀ p, m.scheduler.processes.get? pid = some p →
      Tallied params.demotionThreshold n p.standing) :
    m.FollowsFeedback params pid n ∧
      ∀ r, m.tick.state.scheduler.processes.get? pid = some r →
        Tallied params.demotionThreshold (m.countAfter pid n) r.standing := by
  constructor
  · intro p hp
    obtain ⟨q, hq, hraised, htq⟩ := tallied_atDispatch h hpolicy hpos hp (ht p hp)
    obtain ⟨r, hr, hlowered, hrule, -⟩ := tallied_tick hpolicy hpos hword hq htq
    exact ⟨q, r, hq, hr, hraised, hlowered, hrule⟩
  · intro r hr
    obtain ⟨p, hp, -⟩ := (ticked_get? h).exists_of_get? hr
    obtain ⟨q, hq, -, htq⟩ := tallied_atDispatch h hpolicy hpos hp (ht p hp)
    obtain ⟨r', hr', -, -, htr⟩ := tallied_tick hpolicy hpos hword hq htq
    rw [hr] at hr'
    cases hr'
    exact htr

/-- Nothing is counted of a process that is not in the table. -/
theorem countAfter_of_absent (h : m.scheduler.Settled)
    (hp : m.scheduler.processes.get? pid = none) : m.countAfter pid 0 = 0 := by
  have hready : m.tick.result.leaves pid .ready = false := by
    rw [Bool.eq_false_iff]
    intro hleaves
    obtain ⟨p, hp'⟩ := exists_of_chosen h (TickOutcome.chosen?_of_leaves hleaves)
    rw [hp] at hp'
    cases hp'
  rw [countAfter, hready, countAtDispatch]
  simp

end Machine

end Timeshare
