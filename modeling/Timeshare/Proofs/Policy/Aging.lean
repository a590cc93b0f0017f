import Timeshare.Policy.Override
import Timeshare.Policy.Standard
import Timeshare.Proofs.Scheduler.Accounts

/-!
# Aging and the queues

One step of aging moves the starved processes and nothing else: it keeps the queues
in agreement with the process table, and whatever of a process does not depend on
its level, its waiting time and its expirations stays as it is
(`Policy.AgesByRule.map_get?_age`).
-/

namespace Timeshare

/-- The policy never ages, or it ages by the rule with some threshold. The other
decisions are free. -/
def Policy.AgesByRule (policy : Policy) : Prop :=
  policy.age = Aging.idle ∨ ∃ threshold, policy.age = Aging.step threshold

theorem PolicyKind.agesByRule_build (kind : PolicyKind) (params : PolicyParams) :
    (kind.build params).AgesByRule := by
  cases kind with
  | priorityAging => exact .inr ⟨params.agingThreshold, rfl⟩
  | roundRobin | shortestJobFirst | realTime => exact .inl rfl

namespace Aging

variable {β : Type} {now : Nat} {a : Aged}

/-- An observation of processes that aging does not change. -/
def Ignores (f : Process → β) : Prop :=
  ∀ level now p, f (raised level now p) = f p

theorem map_get?_promote {f : Process → β} (hf : Ignores f) (now : Nat) (a : Aged)
    (entry : Priority × ProcessId) (pid : ProcessId) :
    ((promote now a entry).processes.get? pid).map f = (a.processes.get? pid).map f := by
  rw [promote]
  cases hp : a.processes.get? entry.2 with
  | none => rfl
  | some p =>
      simp only [Table.get?_insert]
      by_cases h : entry.2 = pid
      · rw [if_pos h, ← h, hp, Option.map_some, hf]
        rfl
      · rw [if_neg h]

theorem map_get?_foldl {f : Process → β} (hf : Ignores f) (entries : List (Priority × ProcessId))
    (a : Aged) (pid : ProcessId) :
    ((entries.foldl (promote now) a).processes.get? pid).map f =
      (a.processes.get? pid).map f := by
  induction entries generalizing a with
  | nil => rfl
  | cons entry rest ih => rw [List.foldl_cons, ih, map_get?_promote hf]

theorem accounts_promote (h : a.queues.Accounts a.processes) {entry : Priority × ProcessId}
    {p : Process} (hp : a.processes.get? entry.2 = some p) (hr : p.state = .ready) :
    (promote now a entry).queues.Accounts (promote now a entry).processes := by
  simp only [promote, hp]
  have hready : (raised entry.1.raise now p).state = .ready := hr
  exact (h.remove entry.2).pushBack hready

theorem accounts_foldl {entries : List (Priority × ProcessId)}
    (h : a.queues.Accounts a.processes)
    (hr : ∀ entry ∈ entries, (a.processes.get? entry.2).map Process.state = some .ready) :
    (entries.foldl (promote now) a).queues.Accounts
      (entries.foldl (promote now) a).processes := by
  induction entries generalizing a with
  | nil => exact h
  | cons entry rest ih =>
      obtain ⟨p, hp, hready⟩ := Option.map_eq_some_iff.1 (hr entry List.mem_cons_self)
      refine ih (accounts_promote h hp hready) fun other hmem => ?_
      rw [map_get?_promote fun _ _ _ => rfl]
      exact hr other (List.mem_cons_of_mem _ hmem)

/-- The starved entries are ready processes, for they are queued. -/
theorem accounts_step {q : ReadyQueues} {t : ProcessTable} (h : q.Accounts t)
    (threshold now : Nat) :
    (step threshold q t now).queues.Accounts (step threshold q t now).processes := by
  apply accounts_foldl h
  intro entry hentry
  have hmem := (List.mem_filter.1 hentry).1
  obtain ⟨p, hp, hready, -⟩ := h.mem_level_iff.1 (ReadyQueues.mem_entries_iff.1 hmem)
  exact Option.map_eq_some_iff.2 ⟨p, hp, hready⟩

end Aging

namespace Policy.AgesByRule

variable {policy : Policy} {q : ReadyQueues} {t : ProcessTable}

theorem accounts_age (hp : policy.AgesByRule) (h : q.Accounts t) (now : Nat) :
    (policy.age q t now).queues.Accounts (policy.age q t now).processes := by
  obtain hidle | ⟨threshold, hstep⟩ := hp
  · rw [hidle]
    exact h
  · rw [hstep]
    exact Aging.accounts_step h threshold now

theorem map_get?_age {β : Type} {f : Process → β} (hp : policy.AgesByRule)
    (hf : Aging.Ignores f) (q : ReadyQueues) (t : ProcessTable) (now : Nat) (pid : ProcessId) :
    ((policy.age q t now).processes.get? pid).map f = (t.get? pid).map f := by
  obtain hidle | ⟨threshold, hstep⟩ := hp
  · rw [hidle]
    rfl
  · rw [hstep]
    exact Aging.map_get?_foldl hf _ _ pid

/-- A policy may choose anything and give any slice, as long as nothing is queued behind
the scheduler's back. -/
theorem override (hp : policy.AgesByRule) {o : PolicyOverride} (ho : o.arrivals = []) :
    (policy.override o).AgesByRule := by
  have hage : (policy.override o).age = policy.age := by
    funext queues processes now
    simp [Policy.override, PolicyOverride.arrive, ho]
  rw [AgesByRule, hage]
  exact hp

end Policy.AgesByRule

end Timeshare
