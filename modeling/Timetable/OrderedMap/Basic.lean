import Timetable.OrderedMap.Tree
import Timetable.Random.Generator

/-!
# Ordered maps that keep their earlier versions

An `OrderedMap K V` binds keys to values and lists its bindings in the order of the keys.  An
update returns a new map and leaves the old one as it was; the two share what did not change.

Updates are `insert`, `erase` and `ofList`.  Navigation is `get?`, `floor?`, `ceiling?`, `first?`,
`last?` and `nth?`, all of which agree with the list `toList`.

Where a new key comes to lie in the tree below depends on a priority that `insertWith` is given;
`insert` takes the priority from the scrambled hash of the key.
-/

set_option autoImplicit false

namespace Timetable

universe u v

/-- A finite map with ordered keys. -/
structure OrderedMap (K : Type u) (V : Type v) where
  root : Tree K V
  deriving Repr, Inhabited

namespace OrderedMap

variable {K : Type u} {V : Type v}

/-- The map without bindings. -/
def empty : OrderedMap K V := ⟨.leaf⟩

/-- The number of bindings. -/
def size (m : OrderedMap K V) : Nat := m.root.size

/-- Whether there are no bindings. -/
def isEmpty (m : OrderedMap K V) : Bool :=
  match m.root with
  | .leaf => true
  | .node .. => false

/-- The bindings in the order of the keys. -/
def toList (m : OrderedMap K V) : List (K × V) := m.root.toList

/-- The keys in order. -/
def keys (m : OrderedMap K V) : List K := m.toList.map Prod.fst

/-- The values in the order of their keys. -/
def values (m : OrderedMap K V) : List V := m.toList.map Prod.snd

/-- The binding of the least key. -/
def first? (m : OrderedMap K V) : Option (K × V) := m.root.first?

/-- The binding of the greatest key. -/
def last? (m : OrderedMap K V) : Option (K × V) := m.root.last?

/-- The binding at a position in the order of the keys, from zero. -/
def nth? (m : OrderedMap K V) (i : Nat) : Option (K × V) := m.root.nth? i

/-- Two maps are equal if they have the same bindings, however they were built. -/
instance [BEq K] [BEq V] : BEq (OrderedMap K V) :=
  ⟨fun m n => m.size == n.size && m.toList == n.toList⟩

variable [Ord K]

/-- The value a key is bound to. -/
def get? (m : OrderedMap K V) (key : K) : Option V := m.root.get? key

/-- Whether a key is bound. -/
def contains (m : OrderedMap K V) (key : K) : Bool := (m.get? key).isSome

/-- The binding of the greatest key that is at most `key`. -/
def floor? (m : OrderedMap K V) (key : K) : Option (K × V) := m.root.floor? key none

/-- The binding of the least key that is at least `key`. -/
def ceiling? (m : OrderedMap K V) (key : K) : Option (K × V) := m.root.ceiling? key none

/-- Binds a key, a new one with the given priority. -/
def insertWith (m : OrderedMap K V) (priority : Nat) (key : K) (value : V) : OrderedMap K V :=
  ⟨m.root.insert priority key value⟩

/-- The priority of a key that is new to a map. -/
def priorityOf [Hashable K] (key : K) : Nat := (scramble (hash key) >>> 32).toNat

/-- Binds a key. -/
def insert [Hashable K] (m : OrderedMap K V) (key : K) (value : V) : OrderedMap K V :=
  m.insertWith (priorityOf key) key value

/-- The map without a key; none if the key is not bound, so that the map itself is the answer. -/
def erase? (m : OrderedMap K V) (key : K) : Option (OrderedMap K V) :=
  (m.root.erase? key).map OrderedMap.mk

/-- The map without a key. -/
def erase (m : OrderedMap K V) (key : K) : OrderedMap K V := (m.erase? key).getD m

/-- The map with the bindings of a list; of two bindings of one key the later one counts. -/
def ofList [Hashable K] (entries : List (K × V)) : OrderedMap K V :=
  entries.foldl (fun m e => m.insert e.1 e.2) empty

end OrderedMap

end Timetable
