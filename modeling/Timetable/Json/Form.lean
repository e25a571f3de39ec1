import Timetable.Json.Basic

/-!
# What is asked of a JSON value

A `Form` says what a value should be like.  Whoever reads a text knows it beforehand, so that a
value of another form is refused where it stands, whatever comes behind it.  Parts of a value that
nobody asks for have the form `Form.anything`.  They are skipped, so their numbers may be out of
range and their strings need not be text.
-/

set_option autoImplicit false

namespace Timetable.Json

/-- What a value should be like. -/
inductive Form
  /-- Any value; it is skipped. -/
  | anything
  /-- A value without parts that passes a test. -/
  | single (test : Json → Bool)
  /-- A name out of a list, or an object in which it is the one field and holds null. -/
  | name (names : List String)
  /-- Null, or something else. -/
  | option (form : Form)
  /-- An array whose items are all alike. -/
  | list (item : Form)
  /-- An object with some fields, or an array of these fields.  A field has a name, is needed or
  not, and has a form. -/
  | record (fields : List (String × Bool × Form))
  deriving Inhabited

namespace Form

/-- Whether a value is used. -/
def isUsed : Form → Bool
  | anything => false
  | _ => true

/-- The form of a value that is not null. -/
def present : Form → Form
  | option form => form.present
  | form => form

/-- Whether a value without parts cannot begin with a character.  A name is looked at before it is
read. -/
def refuses : Form → Char → Bool
  | name _, c => c ≠ '"'
  | option form, c => c ≠ 'n' && form.refuses c
  | _, _ => false

/-- Whether a value is one of some names. -/
def isName (names : List String) : Json → Bool
  | .string (some s) => names.contains s
  | _ => false

/-- Whether a value is null. -/
def isNull : Json → Bool
  | .null => true
  | _ => false

/-- Whether a value without parts is of a form. -/
def admits : Form → Json → Bool
  | anything, _ => true
  | single test, v => test v
  | name names, v => isName names v
  | option form, v => isNull v || form.admits v
  | _, _ => false

/-! ## Arrays -/

/-- The form of an item of an array, by its place.  Behind the last field of a record the array has
to end. -/
def item : Form → (place : Nat) → Except JsonError Form
  | list form, _ => .ok form
  | record fields, i => (fields[i]?).elim (.error .malformed) fun f => .ok f.2.2
  | _, _ => .ok anything

/-- Refuses an array of so many items if a field is missing. -/
def testItems : Form → (count : Nat) → Except JsonError Unit
  | record fields, count => if (fields.drop count).any (·.2.1) then .error .mismatch else .ok ()
  | _, _ => .ok ()

/-! ## Objects -/

/-- The form of a field of an object, by its name; `before` are the names of the fields before it.
Fields that a record does not know are skipped. -/
def field : Form → (before : List (Option String)) → Option String → Except JsonError Form
  | record _, _, none => .error .malformed
  | record fields, before, some key =>
    match fields.find? (·.1 = key) with
    | none => .ok anything
    | some f => if before.contains (some key) then .error .mismatch else .ok f.2.2
  | _, _, _ => .ok anything

/-- Refuses an object with some fields if another one is missing. -/
def testFields : Form → (given : List (Option String)) → Except JsonError Unit
  | record fields, given =>
    if fields.any fun f => f.2.1 && !given.contains (some f.1) then .error .mismatch else .ok ()
  | _, _ => .ok ()

end Form

end Timetable.Json
