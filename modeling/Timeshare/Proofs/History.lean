import Mathlib.Data.List.Basic

/-!
# Histories that grow at their end

An entry of a history is looked at together with the entries before it. When the history is
added to, the entry is the new one or was there before (`History.split_concat`). What is said of
all entries is said of one more (`History.forall_concat`), and so is what was said since some
entry (`History.since_concat`).
-/

namespace Timeshare

namespace History

variable {α : Type} {entries before after : List α} {entry last : α}

theorem split_concat (h : entries ++ [last] = before ++ entry :: after) :
    (entries = before ∧ last = entry ∧ after = []) ∨
      ∃ rest, entries = before ++ entry :: rest ∧ after = rest ++ [last] := by
  obtain rfl | ⟨rest, final, rfl⟩ := List.eq_nil_or_concat' after
  · obtain ⟨hbefore, hlast⟩ := List.append_inj' h rfl
    exact .inl ⟨hbefore, List.singleton_inj.1 hlast, rfl⟩
  · rw [← List.cons_append, ← List.append_assoc] at h
    obtain ⟨hentries, hlast⟩ := List.append_inj' h rfl
    exact .inr ⟨rest, hentries, by rw [List.singleton_inj.1 hlast]⟩

/-- What holds of every entry of a history and of the one that is added holds of every one
after that. -/
theorem forall_concat {P : List α → α → Prop}
    (h : ∀ before entry after, entries = before ++ entry :: after → P before entry)
    (hlast : P entries last) :
    ∀ before entry after, entries ++ [last] = before ++ entry :: after → P before entry := by
  intro before entry after heq
  obtain ⟨rfl, rfl, -⟩ | ⟨rest, hentries, -⟩ := split_concat heq
  · exact hlast
  · exact h before entry rest hentries

/-- Some entry was of the first kind, and none was of the second kind since. -/
def Since (sets clears : α → Prop) (entries : List α) : Prop :=
  ∃ before entry after, entries = before ++ entry :: after ∧ sets entry ∧
    ∀ later ∈ after, ¬ clears later

variable {sets clears : α → Prop}

theorem not_since_nil : ¬ Since sets clears [] := by
  rintro ⟨before, entry, after, heq, -⟩
  exact List.append_ne_nil_of_right_ne_nil before (List.cons_ne_nil entry after) heq.symm

theorem since_concat :
    Since sets clears (entries ++ [last]) ↔
      sets last ∨ (¬ clears last ∧ Since sets clears entries) := by
  constructor
  · rintro ⟨before, entry, after, heq, hsets, hafter⟩
    obtain ⟨-, rfl, -⟩ | ⟨rest, hentries, rfl⟩ := split_concat heq
    · exact .inl hsets
    · obtain ⟨hrest, hlast⟩ := List.forall_mem_append.1 hafter
      have hkept : ¬ clears last := hlast last (List.mem_singleton_self last)
      exact .inr ⟨hkept, before, entry, rest, hentries, hsets, hrest⟩
  · rintro (hsets | ⟨hkept, before, entry, after, rfl, hsets, hafter⟩)
    · exact ⟨entries, last, [], rfl, hsets, List.forall_mem_nil _⟩
    · refine ⟨before, entry, after ++ [last], ?_, hsets, ?_⟩
      · rw [List.append_assoc, List.cons_append]
      · exact List.forall_mem_append.2 ⟨hafter, List.forall_mem_singleton.2 hkept⟩

end History

end Timeshare
