import Mathlib.Data.List.Induction
import Timeshare.Proofs.Machine.Spinning

/-!
# Counts of expired slices in one word

A record counts the slices of its process that expired since it last waited or changed its
level, in a word of 32 bits. Nothing keeps the count from running over: it is the number of
these slices modulo the word (`Scheduler.counts_modulo_word`), and so the number itself as long
as that fits the word. Above the lowest level priority aging demotes a process long before;
elsewhere a process that never stops makes the count run over (`Scheduler.count_runs_over`).
-/

namespace Timeshare

/-! ## One tick -/

namespace Machine

variable {m : Machine} {pid : ProcessId} {p q r : Process} {n : Nat}

/-- A process that is raised starts its count anew, and the others keep it. -/
theorem count_atDispatch (h : m.scheduler.Settled) (hpolicy : m.scheduler.policy.BuiltIn)
    (hp : m.scheduler.processes.get? pid = some p)
    (hcount : p.consecutiveExpirations = UInt32.ofNat n) :
    ∃ q, m.atDispatch.processes.get? pid = some q ∧
      q.consecutiveExpirations = UInt32.ofNat (m.countAtDispatch pid n) := by
  obtain hkeeps | ⟨params, haging⟩ := hpolicy.cases
  · have hp' : m.atDispatch.processes.get? pid = some p := by
      rw [processes_atDispatch hkeeps.age_eq]
      exact hp
    refine ⟨p, hp', ?_⟩
    rw [countAtDispatch_of_get? hp hp', if_pos rfl]
    exact hcount
  · have hage : m.scheduler.policy.age = Aging.step params.agingThreshold := by rw [haging]; rfl
    obtain ⟨q, hq, hq'⟩ := get?_atDispatch h hage hp
    refine ⟨q, hq, ?_⟩
    rw [countAtDispatch_of_get? hp hq]
    obtain rfl | ⟨hstarves, rfl⟩ := hq'
    · rw [if_pos rfl]
      exact hcount
    · rw [show (Aging.raised p.priority.raise _ p).priority = p.priority.raise from rfl,
        if_neg (raise_ne_of_starves hstarves)]
      rfl

/-- The record goes on counting after the dispatch. -/
theorem count_dispatched (hpolicy : m.scheduler.policy.BuiltIn)
    (hq : m.atDispatch.processes.get? pid = some q)
    (hcount : q.consecutiveExpirations = UInt32.ofNat (m.countAtDispatch pid n)) :
    ∃ r, m.tick.state.scheduler.processes.get? pid = some r ∧
      r.consecutiveExpirations = UInt32.ofNat (m.countAfter pid n) := by
  obtain ⟨r, hr, hstanding⟩ := exists_standing_tick hpolicy hq
  refine ⟨r, hr, ?_⟩
  rw [countAfter_of_get? hq hr]
  rw [Scheduler.standingAfter] at hstanding
  by_cases hready : m.tick.result.leaves pid .ready = true
  · -- The slice expired.
    have hwaiting : m.tick.result.leaves pid .waiting = false :=
      TickOutcome.leaves_eq_false hready (by simp)
    rw [if_pos hready] at hstanding
    have hlevel : r.priority = (m.atDispatch.afterExpiry q).priority :=
      congrArg Prod.fst hstanding
    have hexpired : r.consecutiveExpirations =
        (m.atDispatch.afterExpiry q).consecutiveExpirations := congrArg Prod.snd hstanding
    rw [hexpired, Scheduler.consecutiveExpirations_afterExpiry, ← hlevel, hwaiting,
      if_pos hready, hcount]
    by_cases hsame : r.priority = q.priority
    · rw [if_pos hsame, if_neg (by simp [hsame]), UInt32.ofNat_add]
      rfl
    · rw [if_neg hsame, if_pos (.inr hsame)]
      rfl
  · by_cases hwaiting : m.tick.result.leaves pid .waiting = true
    · -- It waits.
      rw [if_neg hready, if_pos hwaiting] at hstanding
      rw [if_pos (.inl hwaiting)]
      exact congrArg Prod.snd hstanding
    · rw [if_neg hready, if_neg hwaiting] at hstanding
      have hlevel : r.priority = q.priority := congrArg Prod.fst hstanding
      rw [if_neg (not_or.2 ⟨hwaiting, not_not_intro hlevel⟩), if_neg hready, ← hcount]
      exact congrArg Prod.snd hstanding

theorem countAfter_le (m : Machine) (pid : ProcessId) (n : Nat) :
    m.countAfter pid n ≤ n + if m.tick.result.leaves pid .ready then 1 else 0 := by
  have hle : m.countAtDispatch pid n ≤ n := by
    rw [countAtDispatch]
    split <;> omega
  rw [countAfter]
  split
  · exact Nat.zero_le _
  · split <;> omega

end Machine

/-- A process has no more expired slices than there are ticks that left it ready. -/
theorem expiredSlices_le (ticked : List Machine) (pid : ProcessId) :
    expiredSlices ticked pid ≤ ticked.countP (·.tick.result.leaves pid .ready) := by
  induction ticked using List.reverseRecOn with
  | nil => exact Nat.le_refl _
  | append_singleton ticked m ih =>
      have hle := m.countAfter_le pid (expiredSlices ticked pid)
      rw [expiredSlices_concat, List.countP_append, List.countP_singleton]
      omega

/-! ## A history -/

namespace Scheduler

variable {s : Scheduler} {call : Call} {calls : List Call} {pid : ProcessId} {p q : Process}
  {ticked : List Machine}

/-- The records count the slices that expired along the ticks so far, modulo their word. -/
def Counts (s : Scheduler) (ticked : List Machine) : Prop :=
  ∀ pid p, s.processes.get? pid = some p →
    p.consecutiveExpirations = UInt32.ofNat (expiredSlices ticked pid)

/-- The count is the number of expired slices exactly if that number fits the word. -/
theorem Counts.toNat_eq_iff (h : s.Counts ticked) (hp : s.processes.get? pid = some p) :
    p.consecutiveExpirations.toNat = expiredSlices ticked pid ↔
      expiredSlices ticked pid < UInt32.size := by
  rw [h pid p hp, UInt32.toNat_ofNat']
  exact Nat.mod_eq_iff_lt (by decide)

/-- At every tick so far the records counted the slices that had expired along the ticks
before it, and they still do. -/
structure Counted (s : Scheduler) (ticked : List Machine) : Prop where
  settled : s.Settled
  builtIn : s.policy.BuiltIn
  counts : s.Counts ticked
  unsubmitted : ∀ pid, s.nextPid ≤ pid → expiredSlices ticked pid = 0
  counted : ∀ before m after, ticked = before ++ m :: after → m.scheduler.Counts before

theorem counted_new {policy : Policy} (h : policy.BuiltIn) : (new policy).Counted [] where
  settled := settled_new h.agesByRule
  builtIn := h
  counts := fun pid p hp => by cases hp
  unsubmitted := fun _ _ => rfl
  counted := fun before m after h => by simp at h

theorem Counted.tick {m : Machine} (h : m.scheduler.Counted ticked) :
    m.tick.state.scheduler.Counted (ticked ++ [m]) := by
  refine ⟨Machine.settled_tick m h.settled, ?_, ?_, unsubmitted_concat h.settled h.unsubmitted,
    History.forall_concat h.counted h.counts⟩
  · rw [m.policy_tick]
    exact h.builtIn
  · intro pid r hr
    obtain ⟨p, hp, -⟩ := (Machine.ticked_get? h.settled).exists_of_get? hr
    obtain ⟨q, hq, hcount⟩ :=
      Machine.count_atDispatch h.settled h.builtIn hp (h.counts pid p hp)
    obtain ⟨r', hr', hcount'⟩ := Machine.count_dispatched h.builtIn hq hcount
    rw [hr] at hr'
    cases hr'
    rw [expiredSlices_concat]
    exact hcount'

theorem Counted.handled (h : s.Counted ticked) (hcall : call.Within Policy.BuiltIn)
    (hticks : call.request.ticks = false) : (s.afterCall call).Counted ticked := by
  have hages := hcall.agesByRule fun _ => Policy.BuiltIn.agesByRule
  refine ⟨h.settled.afterCall hages, policy_afterCall h.builtIn hcall, ?_,
    unsubmitted_afterCall h.settled hages h.unsubmitted, h.counted⟩
  intro pid q hq
  obtain ⟨p, hp, hstanding⟩ | ⟨rfl, hstanding⟩ := standing_afterCall h.settled hticks hq
  · exact (congrArg Prod.snd hstanding).trans (h.counts pid p hp)
  · rw [h.unsubmitted _ (Nat.le_refl _)]
    exact congrArg Prod.snd hstanding

theorem Counted.afterCalls (h : s.Counted ticked)
    (hcalls : ∀ call ∈ calls, call.Within Policy.BuiltIn) :
    (s.afterCalls calls).Counted (ticked ++ s.ticking calls) :=
  ticking_induction (P := fun ticked s => s.Counted ticked) (fun _ _ hm => hm.tick)
    (fun call hmem hticks _ _ hs => hs.handled (hcalls call hmem) hticks) h

/-- The count in a record is the number of expired slices modulo its word, at every tick of a
history and at its end, under any built-in policies. It is the number itself exactly if that
fits the word, and so at least until so many slices of the process have expired. Where priority
aging demotes, it never gets that far: above the lowest level the number stays below the
threshold. -/
theorem counts_modulo_word {policy : Policy} (hpolicy : policy.BuiltIn) (calls : List Call)
    (hcalls : ∀ call ∈ calls, call.Within Policy.BuiltIn) :
    let ticked := (new policy).ticking calls
    (∀ before m after, ticked = before ++ m :: after → m.scheduler.Counts before) ∧
    ∀ pid p, ((new policy).afterCalls calls).processes.get? pid = some p →
      p.consecutiveExpirations.toNat = expiredSlices ticked pid % UInt32.size ∧
      (p.consecutiveExpirations.toNat = expiredSlices ticked pid ↔
        expiredSlices ticked pid < UInt32.size) ∧
      expiredSlices ticked pid ≤ ticked.countP (·.tick.result.leaves pid .ready) ∧
      ∀ params : PolicyParams, 1 ≤ params.demotionThreshold →
        params.demotionThreshold < UInt32.size → policy = .priorityAging params →
        (∀ call ∈ calls, call.Within (· = .priorityAging params)) → p.priority ≠ .lowest →
          p.consecutiveExpirations.toNat = expiredSlices ticked pid ∧
            expiredSlices ticked pid < params.demotionThreshold := by
  intro ticked
  have hcounted := (counted_new hpolicy).afterCalls hcalls
  rw [List.nil_append] at hcounted
  refine ⟨hcounted.counted, fun pid p hp => ?_⟩
  refine ⟨?_, hcounted.counts.toNat_eq_iff hp, expiredSlices_le ticked pid, ?_⟩
  · rw [hcounted.counts pid p hp, UInt32.toNat_ofNat']
  · rintro params hpos hword rfl haging hlevel
    have htallies := (tallies_new params).afterCalls hpos hword haging
    rw [List.nil_append] at htallies
    exact (htallies.tallied pid p hp).resolve_left hlevel

/-- Three slices expire before the fourth one would demote the process, and the count is
three. -/
theorem counts_modulo_word_of_three_slices :
    let params : PolicyParams := { baseQuantum := 1, demotionThreshold := 4 }
    let calls : List Call :=
      [{ request := .submitAt (.ofList [.jump 0]) 0 }, { request := .start },
        { request := .run 3, cpu := { powered := true } }]
    let s := new (.priorityAging params)
    let ticked := s.ticking calls
    s.policy.BuiltIn ∧ (∀ call ∈ calls, call.Within Policy.BuiltIn) ∧
      (∀ call ∈ calls, call.Within (· = .priorityAging params)) ∧
      1 ≤ params.demotionThreshold ∧ params.demotionThreshold < UInt32.size ∧
      (∀ before m after, ticked = before ++ m :: after → m.scheduler.Counts before) ∧
      ∃ p, (s.afterCalls calls).processes.get? 1 = some p ∧ p.priority ≠ .lowest ∧
        expiredSlices ticked 1 = 3 ∧
        p.consecutiveExpirations.toNat = expiredSlices ticked 1 % UInt32.size ∧
        p.consecutiveExpirations.toNat = expiredSlices ticked 1 ∧
        expiredSlices ticked 1 < params.demotionThreshold := by
  intro params calls s ticked
  have hwithin {P : Policy → Prop} : ∀ call ∈ calls, call.Within P := by
    intro call hcall
    simp only [calls, List.mem_cons, List.not_mem_nil, or_false] at hcall
    rcases hcall with rfl | rfl | rfl <;> trivial
  have hbuiltIn : s.policy.BuiltIn := ⟨.priorityAging, params, rfl⟩
  have hword : params.demotionThreshold < UInt32.size := by decide
  have hlevel : (s.afterCalls calls).level? 1 = some 0 := by decide +kernel
  have hthree : expiredSlices ticked 1 = 3 := by decide +kernel
  obtain ⟨p, hp, hpriority⟩ := Option.map_eq_some_iff.1 hlevel
  have hne : p.priority ≠ .lowest := by
    rw [hpriority]
    decide
  obtain ⟨hcounts, hend⟩ := counts_modulo_word hbuiltIn calls hwithin
  obtain ⟨hmod, -, -, haging⟩ := hend 1 p hp
  obtain ⟨heq, hlt⟩ := haging params (by decide) hword rfl hwithin hne
  exact ⟨hbuiltIn, hwithin, hwithin, by decide, hword, hcounts, p, hp, hne, hthree, hmod, heq, hlt⟩

/-! ## A process that never stops -/

section spinning

variable {policy : Policy} {program : Program} {cpu : Cpu} {memory : Memory}

/-- A program that spins and is submitted to a new scheduler is the only ready process. -/
theorem spinning_new (hpolicy : policy.KeepsLevels) (hspins : program.Spins ⟨{}, memory⟩)
    (hpower : cpu.powered = true) (level : Priority) :
    Machine.Spinning
      { scheduler := ((new policy).submitAt program level).state.start.state, cpu, memory } 1 where
  settled := ((settled_new hpolicy.builtIn.agesByRule).submitAt program level).start
  keepsLevels := hpolicy
  started := rfl
  noStop := rfl
  powered := hpower
  alone := by
    intro other p hp hready
    by_contra hne
    rw [show Table.get? _ other = none from Table.get?_insert_of_ne _ (Ne.symm hne) _] at hp
    cases hp
  spins := ⟨_, Table.get?_insert_self .., rfl, rfl, hspins⟩

/-- Under a policy that keeps the levels a program that spins runs the count on for as many
ticks as one likes. -/
theorem count_of_spins (hpolicy : policy.KeepsLevels) (hspins : program.Spins ⟨{}, memory⟩)
    (hpower : cpu.powered = true) (level : Priority) (n : Nat) :
    let calls : List Call :=
      [{ request := .submitAt program level }, { request := .start },
        { request := .run n, cpu, memory }]
    let s := new policy
    (∀ call ∈ calls, call.Within Policy.BuiltIn) ∧
      expiredSlices (s.ticking calls) 1 = n ∧
      ∃ p, (s.afterCalls calls).processes.get? 1 = some p ∧
        p.consecutiveExpirations = UInt32.ofNat n := by
  intro calls s
  have hcalls : ∀ call ∈ calls, call.Within Policy.BuiltIn := by
    intro call hcall
    simp only [calls, List.mem_cons, List.not_mem_nil, or_false] at hcall
    rcases hcall with rfl | rfl | rfl <;> trivial
  have hspinning := spinning_new hpolicy hspins hpower level
  have hticked : s.ticking calls = Machine.ticking n
      { scheduler := (s.submitAt program level).state.start.state, cpu, memory } :=
    List.append_nil _
  have hexpired : expiredSlices (s.ticking calls) 1 = n := by
    rw [hticked]
    exact hspinning.expiredSlices_ticking n
  obtain ⟨p, hp, -⟩ := (hspinning.run n).spins
  have hcounted := (counted_new hpolicy.builtIn).afterCalls hcalls
  refine ⟨hcalls, hexpired, p, hp, ?_⟩
  rw [hcounted.counts 1 p hp, List.nil_append]
  exact congrArg _ hexpired

end spinning

/-- After `2 ^ 32` slices of a jump to itself the count is zero again. -/
theorem count_runs_over :
    let calls : List Call :=
      [{ request := .submitAt (.ofList [.jump 0]) 0 }, { request := .start },
        { request := .run (2 ^ 32), cpu := { powered := true } }]
    let s := new (.roundRobin { baseQuantum := 1 })
    (∀ call ∈ calls, call.Within Policy.BuiltIn) ∧
      expiredSlices (s.ticking calls) 1 = 2 ^ 32 ∧
      ∃ p, (s.afterCalls calls).processes.get? 1 = some p ∧ p.consecutiveExpirations = 0 :=
  count_of_spins ⟨_, .inl rfl⟩ (Program.spins_jump_zero _) rfl 0 (2 ^ 32)

end Scheduler

end Timeshare
