import Timetable.Numeric.Decimal

/-!
# JSON values

A `Json` is what a JSON text says, before anything is asked of it.  It keeps some details that most
readers drop: fields in their order, repeated ones included; numbers digit by digit; and strings
that name half of a surrogate pair, which are no text.

An error in a text is one of three kinds, `JsonError`.
-/

set_option autoImplicit false

namespace Timetable

/-- What is wrong with a JSON text. -/
inductive JsonError
  /-- The text ends too early. -/
  | incomplete
  /-- The text is not JSON. -/
  | malformed
  /-- The text is JSON, but not of the form asked for. -/
  | mismatch
  deriving DecidableEq, Repr, Inhabited

/-- A JSON value. -/
inductive Json
  | null
  | bool (b : Bool)
  | number (n : Numeral)
  /-- A string; none if its escapes make no text. -/
  | string (s : Option String)
  | array (items : List Json)
  | object (fields : List (Option String × Json))
  deriving Inhabited

end Timetable
