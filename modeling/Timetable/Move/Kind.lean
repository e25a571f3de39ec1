import Timetable.Move.Swapping

/-!
# The moves that can be configured

A `MoveKind` names a move on schedules.  A `MoveTerm` is a move with a factor for its temperature.
-/

set_option autoImplicit false

namespace Timetable

/-- The name of a move on schedules. -/
inductive MoveKind
  | greedy
  | destructive
  | destructiveByRoom
  | swapping
  deriving DecidableEq, Repr, Inhabited

namespace MoveKind

/-- All kinds of move. -/
def all : List MoveKind := [greedy, destructive, destructiveByRoom, swapping]

/-- The name of a kind in configurations. -/
def name : MoveKind → String
  | greedy => "GREEDY"
  | destructive => "DESTRUCTIVE"
  | destructiveByRoom => "DESTRUCTIVE_BY_ROOM"
  | swapping => "SWAPPING"

/-- The name of a kind in messages. -/
def label : MoveKind → String
  | greedy => "Greedy"
  | destructive => "Destructive"
  | destructiveByRoom => "DestructiveByRoom"
  | swapping => "Swapping"

/-- The move of a kind. -/
def move {G : Type} [RandomSource G] {p : Program} (book : Rulebook) :
    MoveKind → Move G (Schedule p)
  | greedy => .placeValid book
  | destructive => .placeForced book
  | destructiveByRoom => .fillRooms book
  | swapping => .swap book

end MoveKind

/-- A configured move. -/
structure MoveTerm where
  kind : MoveKind
  /-- What the temperature is multiplied by. -/
  factor : Float := 1.0
  deriving Repr, Inhabited

/-- The move a configuration stands for. -/
def MoveTerm.move {G : Type} [RandomSource G] {p : Program} (book : Rulebook) (t : MoveTerm) :
    Move G (Schedule p) :=
  if t.factor == 1.0 then t.kind.move book else (t.kind.move book).scaled t.factor

end Timetable
