import Mathlib.Data.List.DropRight
import Timeshare.Proofs.Console.Line

/-!
# What the console keeps

A history of a console is a list of requests. The lines of it that count are the ones that were
written after it was cleared for the last time, and of these the console keeps the latest
(`Console.lines_afterAll`).
-/

namespace Timeshare

/-- An operation on the console. -/
inductive ConsoleRequest
  /-- Writes a line that is delivered in the given pieces. -/
  | write (pieces : List String)
  /-- Drops all lines. -/
  | clear
  /-- Reads the lines or their number. -/
  | read
  deriving DecidableEq

/-- The pieces of the line that a request writes. -/
def ConsoleRequest.pieces? : ConsoleRequest → Option (List String)
  | write pieces => some pieces
  | clear | read => none

namespace Console

variable {requests : List ConsoleRequest}

/-- The console after a request. -/
def after (console : Console) : ConsoleRequest → Console
  | .write pieces => console.write pieces
  | .clear => {}
  | .read => console

/-- The console after a history of requests. -/
def afterAll (console : Console) (requests : List ConsoleRequest) : Console :=
  requests.foldl after console

theorem afterAll_concat (console : Console) (requests : List ConsoleRequest)
    (request : ConsoleRequest) :
    console.afterAll (requests ++ [request]) = (console.afterAll requests).after request := by
  rw [afterAll, List.foldl_append]
  rfl

/-- The lines, by their pieces, that were written since the console was cleared last. -/
def written (requests : List ConsoleRequest) : List (List String) :=
  (requests.rtakeWhile (· ≠ .clear)).filterMap ConsoleRequest.pieces?

@[simp] theorem written_concat_clear (requests : List ConsoleRequest) :
    written (requests ++ [.clear]) = [] := by
  rw [written, List.rtakeWhile_concat_neg _ _ _ (by simp)]
  rfl

@[simp] theorem written_concat_read (requests : List ConsoleRequest) :
    written (requests ++ [.read]) = written requests := by
  rw [written, List.rtakeWhile_concat_pos _ _ _ (by simp), List.filterMap_append]
  exact List.append_nil _

@[simp] theorem written_concat_write (requests : List ConsoleRequest) (pieces : List String) :
    written (requests ++ [.write pieces]) = written requests ++ [pieces] := by
  rw [written, List.rtakeWhile_concat_pos _ _ _ (by simp), List.filterMap_append]
  rfl

/-- The latest entries, with one more: if there is no room for it, the first of them goes. -/
theorem drop_latest_concat {α : Type} (k : Nat) (hk : 0 < k) (l : List α) (a : α) :
    (l.drop (l.length - k)).drop ((l.drop (l.length - k)).length + 1 - k) ++ [a] =
      (l ++ [a]).drop ((l ++ [a]).length - k) := by
  rw [List.drop_drop, List.length_drop, List.length_append, List.length_singleton,
    List.drop_append_of_le_length (by omega)]
  congr 2
  omega

/-- The console keeps the latest lines that were written since it was cleared. -/
theorem lines_afterAll (requests : List ConsoleRequest) :
    (afterAll {} requests).lines =
      ((written requests).map line).drop (((written requests).map line).length - historyLines) := by
  induction requests using List.reverseRecOn with
  | nil => rfl
  | append_singleton requests request ih =>
      rw [afterAll_concat]
      cases request with
      | clear =>
          rw [written_concat_clear]
          rfl
      | read =>
          rw [written_concat_read]
          exact ih
      | write pieces =>
          rw [after, write, ih, written_concat_write, List.map_append]
          exact drop_latest_concat historyLines (by decide) _ (line pieces)

/-- After any history the console holds the latest 64 lines that were written since it was
cleared, or all of them if there are fewer, the oldest first. No line is longer than 128 bytes
or has a line break in it. Each is made of one prefix of each piece, with blanks for the line
breaks, and a line of one piece is the longest prefix of its text that is not too long. -/
theorem keeps_latest (requests : List ConsoleRequest) :
    let console := afterAll {} requests
    let count := (written requests).length
    console.lines = ((written requests).drop (count - min 64 count)).map line ∧
    console.size = min 64 count ∧
    ∀ pieces ∈ written requests,
      (line pieces).utf8ByteSize ≤ 128 ∧ '\n' ∉ (line pieces).toList ∧
      (∃ kept : List (List Char),
        List.Forall₂ (fun front piece => front <+: shown piece) kept pieces ∧
          (line pieces).toList = kept.flatten) ∧
      ∀ text, pieces = [text] →
        (line pieces).toList <+: shown text ∧
        ∀ front, front <+: shown text → (String.ofList front).utf8ByteSize ≤ 128 →
          front <+: (line pieces).toList := by
  intro console count
  have hlines : console.lines = ((written requests).drop (count - min 64 count)).map line := by
    have hcount : count - historyLines = count - min 64 count := by
      rw [historyLines]
      omega
    rw [lines_afterAll, List.length_map, hcount, List.map_drop]
  refine ⟨hlines, ?_, fun pieces _ => ⟨utf8ByteSize_line_le pieces, newline_not_mem_line pieces,
    exists_kept pieces, ?_⟩⟩
  · rw [size, hlines, List.length_map, List.length_drop]
    omega
  · rintro text rfl
    exact ⟨line_singleton_isPrefix text, fun front => prefix_line_singleton⟩

end Console

end Timeshare
