/-!
# Versions of a value

Values here never change: an update makes a new version beside the old ones.  A `History` numbers
the versions, the first being 0, so that any of them can be looked at or continued.
-/

set_option autoImplicit false

namespace Timetable

universe u

/-- A first version and the later ones in the order in which they were made. -/
structure History (α : Type u) where
  first : α
  later : Array α := #[]

namespace History

variable {α : Type u}

/-- The number of the newest version. -/
def newest (h : History α) : Nat := h.later.size

/-- The version with a number; the first one if there is no such number. -/
def version (h : History α) : Nat → α
  | 0 => h.first
  | n + 1 => h.later.getD n h.first

/-- Adds a version. -/
def push (h : History α) (a : α) : History α := { h with later := h.later.push a }

@[simp] theorem newest_push (h : History α) (a : α) : (h.push a).newest = h.newest + 1 := by
  simp [newest, push]

@[simp] theorem version_newest_push (h : History α) (a : α) :
    (h.push a).version (h.push a).newest = a := by
  simp [version, newest, push]

/-- A new version leaves the earlier ones as they are. -/
theorem version_push_of_le {h : History α} {a : α} {n : Nat} (hn : n ≤ h.newest) :
    (h.push a).version n = h.version n := by
  cases n with
  | zero => rfl
  | succ n =>
    have hlt : n < h.later.size := hn
    simp [version, push, Array.getElem?_push, Nat.ne_of_lt hlt]

end History

end Timetable
