import Timetable.Calendar

/-!
# Rooms and what they offer

A room has a number of seats, periods in which it may be used, properties that describe it and
resources that stand in it.

A property or resource that is *binding* reserves its rooms for the courses that require it.  A
section whose room lacks a required resource borrows a unit of it from a pool of floating units
that the whole program shares.
-/

set_option autoImplicit false

namespace Timetable

/-- A room in which sections are held. -/
structure Room where
  id : RoomId
  name : String := ""
  /-- The number of seats. -/
  capacity : Nat
  /-- The periods in which the room may be used. -/
  periodIds : List PeriodId := []
  propertyIds : List PropertyId := []
  /-- The resources that are always in the room. -/
  resourceIds : List ResourceId := []
  buildingId : Option BuildingId := none
  deriving DecidableEq, Repr, Inhabited

/-- A building, which groups rooms. -/
structure Building where
  id : BuildingId
  name : String := ""
  deriving DecidableEq, Repr, Inhabited

/-- A property of rooms that courses may require. -/
structure RoomProperty where
  id : PropertyId
  description : String := ""
  /-- Whether rooms with the property are reserved for courses that require it. -/
  binding : Bool := false
  deriving DecidableEq, Repr, Inhabited

/-- A piece of equipment that courses may require. -/
structure Resource where
  id : ResourceId
  description : String := ""
  /-- Whether rooms with the resource are reserved for courses that require it. -/
  binding : Bool := false
  /-- The number of units that can be lent in a period to rooms without the resource. -/
  floating : Nat := 0
  deriving DecidableEq, Repr, Inhabited

end Timetable
