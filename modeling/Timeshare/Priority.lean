/-!
# Priority levels

There are five levels, from 0, the highest, to 4, the lowest. Level 0 doubles as
the band that is reserved for real-time work. Raising and lowering a level
saturate at the two ends (`val_raise`, `val_lower`) and only there.
-/

namespace Timeshare

/-- The number of priority levels. -/
abbrev levelCount : Nat := 5

/-- A priority level; a smaller number is a higher priority. -/
abbrev Priority := Fin levelCount

namespace Priority

/-- The highest level. -/
def highest : Priority := ⟨0, by decide⟩

/-- The lowest level. -/
def lowest : Priority := ⟨levelCount - 1, by decide⟩

/-- The band reserved for real-time work, which is the highest level. -/
def realTime : Priority := highest

/-- The level of a process that is submitted without one. -/
def normal : Priority := ⟨2, by decide⟩

/-- Every level, the highest first. -/
def all : List Priority := List.finRange levelCount

/-- The level with the number `n`, or the lowest one if there is none. -/
def clamp (n : Nat) : Priority := ⟨min n (levelCount - 1), by unfold levelCount; omega⟩

/-- One level closer to the highest. -/
def raise (p : Priority) : Priority := ⟨p.val - 1, by omega⟩

/-- One level further from the highest, if there is one. -/
def lower (p : Priority) : Priority := clamp (p.val + 1)

/-- Whether the level is the real-time band. -/
def isRealTime (p : Priority) : Bool := p == realTime

/-- The text of a level in messages. -/
def text (p : Priority) : String := "P" ++ toString p.val

@[simp] theorem val_raise (p : Priority) : p.raise.val = p.val - 1 := rfl

@[simp] theorem val_lower (p : Priority) : p.lower.val = min (p.val + 1) (levelCount - 1) := rfl

@[simp] theorem mem_all (p : Priority) : p ∈ all := List.mem_finRange p

theorem val_pos_of_ne_highest {p : Priority} (h : p ≠ highest) : 0 < p.val :=
  Nat.pos_of_ne_zero fun hzero => h (Fin.ext hzero)

theorem val_raise_of_ne_highest {p : Priority} (h : p ≠ highest) : p.raise.val + 1 = p.val :=
  Nat.sub_add_cancel (val_pos_of_ne_highest h)

theorem val_lower_of_ne_lowest {p : Priority} (h : p ≠ lowest) : p.lower.val = p.val + 1 := by
  have hne : p.val ≠ levelCount - 1 := fun hlast => h (Fin.ext hlast)
  rw [val_lower]
  omega

end Priority

end Timeshare
