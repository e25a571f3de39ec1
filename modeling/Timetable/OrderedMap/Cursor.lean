import Timetable.OrderedMap.Basic

/-!
# Walking through a map

A `Cursor` stands before one of the bindings of a map, or behind the last.  `Cursor.next?` yields
the binding and the cursor behind it.  `Cursor.remaining` counts the bindings still to come, without
looking at them.
-/

set_option autoImplicit false

namespace Timetable

universe u v

/-- A place in the sequence of a map's bindings. -/
structure Cursor (K : Type u) (V : Type v) where
  /-- The nodes whose entries come next, each to be followed by its right subtree. -/
  stack : List ((K × V) × Tree K V)
  /-- The number of bindings still to come. -/
  remaining : Nat

namespace Cursor

variable {K : Type u} {V : Type v}

/-- Puts the nodes on the left edge of a tree on a stack, the lowest on top. -/
def descend : Tree K V → List ((K × V) × Tree K V) → List ((K × V) × Tree K V)
  | .leaf, stack => stack
  | .node _ _ k v l r, stack => descend l (((k, v), r) :: stack)

/-- The cursor before the first binding. -/
def start (m : OrderedMap K V) : Cursor K V := ⟨descend m.root [], m.size⟩

/-- The next binding and the cursor behind it. -/
def next? (c : Cursor K V) : Option ((K × V) × Cursor K V) :=
  match c.stack with
  | [] => none
  | (entry, right) :: stack => some (entry, ⟨descend right stack, c.remaining - 1⟩)

/-- The cursor after `n` steps, fewer if the bindings run out. -/
def advance : Nat → Cursor K V → Cursor K V
  | 0, c => c
  | n + 1, c =>
    match c.next? with
    | none => c
    | some (_, c) => advance n c

end Cursor

end Timetable
