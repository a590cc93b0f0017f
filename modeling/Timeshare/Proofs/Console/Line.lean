import Mathlib.Data.List.Forall2
import Mathlib.Data.List.Induction
import Timeshare.Console
import Timeshare.Proofs.Capacity

/-!
# The line that is made of a text

A text reaches the console in pieces. Of each piece the line takes what fits into the room that
is left (`toList_extend`). So a line that is written as one piece is the longest prefix of its
text within the capacity, and a line of several pieces is one prefix of each.

What the pieces leave of the text may have gaps: a piece that overflows with a wide character
leaves room for a narrow one of a later piece. A text is cut off at the same place under every
delivery exactly if behind that place all characters are wider than the room that is left
(`truncated_alike_iff`).
-/

namespace Timeshare

namespace Console

variable {text piece : String} {pieces : List String} {c : Char}

/-! ## Bytes -/

theorem utf8ByteSize_ofList (l : List Char) :
    (String.ofList l).utf8ByteSize = Capacity.total Char.utf8Size l := by
  induction l with
  | nil => rfl
  | cons c l ih =>
      rw [← List.singleton_append, String.ofList_append, String.utf8ByteSize_append, ih,
        ← String.singleton_eq_ofList, String.utf8ByteSize_singleton, List.singleton_append,
        Capacity.total_cons]

theorem total_toList (s : String) : Capacity.total Char.utf8Size s.toList = s.utf8ByteSize := by
  rw [← utf8ByteSize_ofList, String.ofList_toList]

theorem fit_eq (capacity : Nat) (l : List Char) :
    fit capacity l = Capacity.fit Char.utf8Size capacity l := by
  induction l generalizing capacity with
  | nil => rfl
  | cons c l ih => rw [fit, Capacity.fit, ih]

/-! ## Pieces -/

/-- The characters of a text as they stand in a line. -/
def shown (text : String) : List Char := text.toList.map inLine

theorem shown_ofList (l : List Char) : shown (String.ofList l) = l.map inLine := by
  rw [shown, String.toList_ofList]

theorem shown_append (first second : String) :
    shown (first ++ second) = shown first ++ shown second := by
  rw [shown, String.toList_append, List.map_append]
  rfl

theorem shown_join_concat (pieces : List String) (piece : String) :
    shown (String.join (pieces ++ [piece])) = shown (String.join pieces) ++ shown piece := by
  rw [← shown_append]
  simp

theorem newline_not_mem_shown (text : String) : '\n' ∉ shown text := by
  rw [shown, List.mem_map]
  rintro ⟨c, -, hc⟩
  rw [inLine] at hc
  split at hc
  next => cases hc
  next hne => exact hne hc

theorem toList_extend (l piece : String) :
    (extend l piece).toList =
      l.toList ++ Capacity.fit Char.utf8Size (lineCapacity - l.utf8ByteSize) (shown piece) := by
  rw [extend, String.toList_append, String.toList_ofList, fit_eq, shown]

theorem utf8ByteSize_extend_le {l : String} (h : l.utf8ByteSize ≤ lineCapacity) (piece : String) :
    (extend l piece).utf8ByteSize ≤ lineCapacity := by
  have hfit := Capacity.total_fit_le Char.utf8Size (lineCapacity - l.utf8ByteSize) (shown piece)
  rw [← total_toList, toList_extend, Capacity.total_append, total_toList]
  omega

theorem line_concat (pieces : List String) (piece : String) :
    line (pieces ++ [piece]) = extend (line pieces) piece := by
  rw [line, List.foldl_append]
  rfl

theorem toList_line_concat (pieces : List String) (piece : String) :
    (line (pieces ++ [piece])).toList =
      (line pieces).toList ++
        Capacity.fit Char.utf8Size
          (lineCapacity - Capacity.total Char.utf8Size (line pieces).toList) (shown piece) := by
  rw [line_concat, toList_extend, total_toList]

/-- A line is never longer than its capacity. -/
theorem utf8ByteSize_line_le (pieces : List String) :
    (line pieces).utf8ByteSize ≤ lineCapacity := by
  induction pieces using List.reverseRecOn with
  | nil => exact Nat.zero_le _
  | append_singleton pieces piece ih =>
      rw [line_concat]
      exact utf8ByteSize_extend_le ih piece

/-- A line is one prefix of each of its pieces. -/
theorem exists_kept (pieces : List String) : ∃ kept : List (List Char),
    List.Forall₂ (fun front piece => front <+: shown piece) kept pieces ∧
      (line pieces).toList = kept.flatten := by
  induction pieces using List.reverseRecOn with
  | nil => exact ⟨[], .nil, rfl⟩
  | append_singleton pieces piece ih =>
      obtain ⟨kept, hkept, hline⟩ := ih
      have hfront := Capacity.fit_isPrefix Char.utf8Size (lineCapacity - (line pieces).utf8ByteSize)
        (shown piece)
      refine ⟨kept ++ [_], List.rel_append hkept (.cons hfront .nil), ?_⟩
      rw [line_concat, toList_extend, hline, List.flatten_append, List.flatten_singleton]

theorem newline_not_mem_line (pieces : List String) : '\n' ∉ (line pieces).toList := by
  obtain ⟨kept, hkept, hline⟩ := exists_kept pieces
  rw [hline]
  clear hline
  induction hkept with
  | nil => exact List.not_mem_nil
  | cons hfront _ ih =>
      rw [List.flatten_cons, List.mem_append]
      rintro (hmem | hmem)
      · exact newline_not_mem_shown _ (hfront.subset hmem)
      · exact ih hmem

/-! ## One piece -/

theorem toList_line_singleton (text : String) :
    (line [text]).toList = Capacity.fit Char.utf8Size lineCapacity (shown text) :=
  toList_extend "" text

theorem line_singleton_isPrefix (text : String) : (line [text]).toList <+: shown text := by
  rw [toList_line_singleton]
  exact Capacity.fit_isPrefix ..

/-- A line of one piece is the longest prefix of its text within the capacity. -/
theorem prefix_line_singleton {front : List Char} (hfront : front <+: shown text)
    (hle : (String.ofList front).utf8ByteSize ≤ lineCapacity) :
    front <+: (line [text]).toList := by
  rw [toList_line_singleton, Capacity.prefix_fit_iff, ← utf8ByteSize_ofList]
  exact ⟨hfront, hle⟩

/-! ## Several pieces -/

/-- As long as the line takes in the whole text, it does not matter how it is delivered. -/
theorem toList_line_of_le
    (h : Capacity.total Char.utf8Size (shown (String.join pieces)) ≤ lineCapacity) :
    (line pieces).toList = shown (String.join pieces) := by
  induction pieces using List.reverseRecOn with
  | nil => rfl
  | append_singleton pieces piece ih =>
      rw [shown_join_concat, Capacity.total_append] at h
      have hline := ih (by omega)
      rw [toList_line_concat, shown_join_concat, hline, Capacity.fit_of_total_le (by omega)]

/-- Nothing is lost by a delivery in several pieces. -/
theorem line_join_isPrefix (pieces : List String) :
    (line [String.join pieces]).toList <+: (line pieces).toList := by
  rw [toList_line_singleton]
  induction pieces using List.reverseRecOn with
  | nil => exact List.nil_prefix
  | append_singleton pieces piece ih =>
      rw [toList_line_concat, shown_join_concat]
      obtain hlt | hle := Nat.lt_or_ge lineCapacity
        (Capacity.total Char.utf8Size (shown (String.join pieces)))
      · rw [Capacity.fit_append_of_lt hlt]
        exact ih.trans (List.prefix_append ..)
      · have hline := toList_line_of_le hle
        exact ⟨[], by rw [List.append_nil, Capacity.fit_append_of_le hle, hline]⟩

/-- The pieces leave a text without gaps exactly if they leave what one piece leaves. -/
theorem line_prefix_shown_iff (pieces : List String) :
    (line pieces).toList <+: shown (String.join pieces) ↔
      line pieces = line [String.join pieces] := by
  constructor
  · intro h
    have hle := utf8ByteSize_line_le pieces
    rw [← String.ofList_toList (s := line pieces)] at hle
    have hbegins := prefix_line_singleton h hle
    exact String.toList_inj.1 (hbegins.eq_of_length_le (line_join_isPrefix pieces).length_le)
  · intro h
    rw [h]
    exact line_singleton_isPrefix _

/-! ## Every delivery -/

/-- The room that is left in the line when the text is cut off. -/
def room (text : String) : Nat := lineCapacity - (line [text]).utf8ByteSize

/-- The characters of the text that are cut off. -/
def cutOff (text : String) : List Char := (shown text).drop (line [text]).toList.length

theorem room_eq (text : String) :
    room text = lineCapacity - Capacity.total Char.utf8Size (line [text]).toList := by
  rw [room, total_toList]

/-- A piece from behind the place where the text is cut off adds nothing, if no character that is
cut off fits into the room that is left. -/
theorem fit_room_eq_nil {front rest : List Char} (htext : shown text = front ++ rest)
    (hlt : lineCapacity < Capacity.total Char.utf8Size front)
    (hwide : ∀ c ∈ cutOff text, room text < c.utf8Size) (hpiece : shown piece <+: rest) :
    Capacity.fit Char.utf8Size
      (lineCapacity - Capacity.total Char.utf8Size
        (Capacity.fit Char.utf8Size lineCapacity front)) (shown piece) = [] := by
  have hline : (line [text]).toList = Capacity.fit Char.utf8Size lineCapacity front := by
    rw [toList_line_singleton, htext, Capacity.fit_append_of_lt hlt]
  rw [← hline, ← room_eq]
  cases hchars : shown piece with
  | nil => rfl
  | cons c chars =>
      apply Capacity.fit_cons_of_lt
      apply hwide
      have hlength : (line [text]).toList.length ≤ front.length := by
        rw [hline]
        exact (Capacity.fit_isPrefix ..).length_le
      have hmem : c ∈ rest := hpiece.subset (hchars ▸ List.mem_cons_self)
      rw [cutOff, htext, List.drop_append_of_le_length hlength]
      exact List.mem_append_right _ hmem

/-- If no character that is cut off fits into the room that is left, the pieces are taken in as
one text would be, up to any of them. -/
theorem toList_line_of_forall_cutOff (hwide : ∀ c ∈ cutOff text, room text < c.utf8Size)
    (hbegins : shown (String.join pieces) <+: shown text) :
    (line pieces).toList =
      Capacity.fit Char.utf8Size lineCapacity (shown (String.join pieces)) := by
  induction pieces using List.reverseRecOn with
  | nil => rfl
  | append_singleton pieces piece ih =>
      rw [shown_join_concat] at hbegins ⊢
      have hline := ih ((List.prefix_append _ _).trans hbegins)
      rw [toList_line_concat, hline]
      obtain hlt | hle := Nat.lt_or_ge lineCapacity
        (Capacity.total Char.utf8Size (shown (String.join pieces)))
      · obtain ⟨rest, hrest⟩ := hbegins
        rw [List.append_assoc] at hrest
        rw [fit_room_eq_nil hrest.symm hlt hwide (List.prefix_append _ _), List.append_nil,
          Capacity.fit_append_of_lt hlt]
      · rw [Capacity.fit_of_total_le hle, Capacity.fit_append_of_le hle]

theorem line_eq_of_forall_cutOff (hwide : ∀ c ∈ cutOff text, room text < c.utf8Size)
    (hjoin : String.join pieces = text) : line pieces = line [text] := by
  subst hjoin
  rw [← String.toList_inj, toList_line_singleton]
  exact toList_line_of_forall_cutOff hwide (List.prefix_refl _)

/-- A character that is cut off, but fits into the room that is left, is taken in when a piece
begins with it. -/
theorem exists_delivery_of_narrow (hc : c ∈ cutOff text) (hnarrow : c.utf8Size ≤ room text) :
    ∃ pieces, String.join pieces = text ∧ line pieces ≠ line [text] := by
  obtain ⟨between, rest, hsplit⟩ := List.append_of_mem hc
  have hshown : shown text = ((line [text]).toList ++ between) ++ c :: rest := by
    have hfront := List.prefix_iff_eq_take.1 (line_singleton_isPrefix text)
    rw [List.append_assoc, ← hsplit, cutOff, hfront, List.length_take_of_le, List.take_append_drop]
    exact (line_singleton_isPrefix text).length_le
  obtain ⟨first, second, htext, hfirst, hsecond⟩ := List.map_eq_append_iff.1 hshown
  have hjoin : String.join [String.ofList first, String.ofList second] = text := by
    rw [← String.toList_inj, htext]
    simp
  refine ⟨_, hjoin, fun hsame => ?_⟩
  -- The first piece reaches up to the character and is cut off where the whole text is.
  have hcut : line [String.ofList first] = line [text] := by
    have hshownFirst : shown (String.ofList first) = (line [text]).toList ++ between := by
      rw [shown_ofList, hfirst]
    rw [← String.toList_inj, toList_line_singleton, toList_line_singleton, hshownFirst]
    apply Capacity.fit_eq_of_isPrefix
    · rw [hshown]
      exact List.prefix_append ..
    · rw [← toList_line_singleton]
      exact List.prefix_append ..
  have hextend : line [String.ofList first, String.ofList second] =
      extend (line [text]) (String.ofList second) := by
    rw [← hcut]
    rfl
  have hsecond' : shown (String.ofList second) = c :: rest := by
    rw [shown_ofList, hsecond]
  have hlonger := congrArg String.toList (hextend.symm.trans hsame)
  rw [toList_extend, hsecond', ← room, Capacity.fit_cons_of_le hnarrow] at hlonger
  exact List.cons_ne_nil _ _ (List.append_right_eq_self.1 hlonger)

/-- The line of a text is cut off at the same place, however the text is delivered, exactly if
behind that place there is no character that would fit into the room that is left. Of every
delivery the line holds at least the longest prefix of the text within the capacity, and it is a
prefix of the text exactly if it holds nothing else. -/
theorem truncated_alike_iff (text : String) :
    ((∀ pieces, String.join pieces = text → line pieces = line [text]) ↔
      ∀ c ∈ cutOff text, room text < c.utf8Size) ∧
    ∀ pieces, String.join pieces = text →
      (line [text]).toList <+: shown text ∧
      (line [text]).toList <+: (line pieces).toList ∧
      ((line pieces).toList <+: shown text ↔ line pieces = line [text]) := by
  constructor
  · constructor
    · intro halike c hc
      apply Nat.lt_of_not_le
      intro hnarrow
      obtain ⟨pieces, hjoin, hne⟩ := exists_delivery_of_narrow hc hnarrow
      exact hne (halike pieces hjoin)
    · exact fun hwide pieces => line_eq_of_forall_cutOff hwide
  · rintro pieces rfl
    exact ⟨line_singleton_isPrefix _, line_join_isPrefix pieces, line_prefix_shown_iff pieces⟩

/-- After 42 characters of three bytes there is room for two more bytes. A letter fits there,
although the character before it does not, if it comes in a piece of its own. -/
theorem letter_behind_overflow :
    let wide : String := String.ofList (List.replicate 43 '€')
    let pieces : List String := [wide, "a"]
    String.join pieces = wide ++ "a" ∧
      line pieces = String.ofList (List.replicate 42 '€' ++ ['a']) ∧
      line [wide ++ "a"] = String.ofList (List.replicate 42 '€') ∧
      ¬ (line pieces).toList <+: shown (String.join pieces) := by
  intro wide pieces
  have hjoin : String.join pieces = wide ++ "a" := by simp [pieces]
  have hwide : shown wide = List.replicate 43 '€' := by
    rw [shown_ofList, List.map_replicate]
    rfl
  have hshown : shown (wide ++ "a") = List.replicate 43 '€' ++ ['a'] := by
    rw [shown_append, hwide]
    rfl
  have hwhole : (line [wide ++ "a"]).toList = List.replicate 42 '€' := by
    rw [toList_line_singleton, hshown]
    decide
  have hfirst : (line [wide]).toList = List.replicate 42 '€' := by
    rw [toList_line_singleton, hwide]
    decide
  have hboth : (line pieces).toList = List.replicate 42 '€' ++ ['a'] := by
    rw [show pieces = [wide] ++ ["a"] from rfl, toList_line_concat, hfirst]
    decide
  refine ⟨hjoin, ?_, ?_, ?_⟩
  · rw [← String.toList_inj, String.toList_ofList, hboth]
  · rw [← String.toList_inj, String.toList_ofList, hwhole]
  · rw [hjoin, hshown, hboth]
    decide

end Console

end Timeshare
