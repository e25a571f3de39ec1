import Timetable.OrderedMap.Basic

/-!
# The text of a map

A map is written between braces, as its bindings in the order of the keys.
-/

set_option autoImplicit false

namespace Timetable.OrderedMap

universe u v

/-- The text of a map, given how keys and values are written. -/
def render {K : Type u} {V : Type v} (key : K → String) (value : V → String)
    (m : OrderedMap K V) : String :=
  let bindings := m.toList.map fun e => key e.1 ++ ": " ++ value e.2
  "\x7b" ++ ", ".intercalate bindings ++ "\x7d"

end Timetable.OrderedMap
