import Timetable.OrderedMap.Basic

/-!
# Updates of a map

An `Update` is one change, kept as a value.  `Update.apply` makes the changed map, and
`Update.sharesRoot` says whether that map is the old one itself, root and all: it is when a key
was to be removed that is not bound, and otherwise only if both maps are empty.
-/

set_option autoImplicit false

namespace Timetable

universe u v

/-- One change of a map.  Priorities are part of an update, so nothing is assumed of them. -/
inductive Update (K : Type u) (V : Type v)
  | insert (priority : Nat) (key : K) (value : V)
  | erase (key : K)
  /-- A fresh map with the given bindings, whatever the map was before. -/
  | rebuild (entries : List (Nat × K × V))

namespace Update

variable {K : Type u} {V : Type v} [Ord K]

/-- The map after a change. -/
def apply (m : OrderedMap K V) : Update K V → OrderedMap K V
  | insert priority key value => m.insertWith priority key value
  | erase key => m.erase key
  | rebuild entries => entries.foldl (fun m e => m.insertWith e.1 e.2.1 e.2.2) .empty

/-- Whether the map after a change has the root it had before. -/
def sharesRoot (m : OrderedMap K V) : Update K V → Bool
  | insert .. => false
  | erase key => (m.erase? key).isNone
  | rebuild entries => m.isEmpty && entries.isEmpty

end Update

end Timetable
