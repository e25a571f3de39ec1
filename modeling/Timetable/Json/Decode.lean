import Timetable.Json.Reader

/-!
# Taking JSON values apart

A `Decoder α` turns a JSON value into an `α`, and knows the form of such a value.

Records are written as objects, in which unknown fields are ignored and known ones may not be
repeated, or as arrays of their fields in order, in which fields with a default may be left out at
the end.  A `Record α` lists the fields of a record and makes an `α` of them; it is put together
from single fields, `Record.required` and `Record.optional`.
-/

set_option autoImplicit false

namespace Timetable.Json

/-- A way to turn a JSON value into something else. -/
structure Decoder (α : Type) where
  /-- The form of the values that can be decoded. -/
  form : Form
  decode : Json → Option α

namespace Decoder

variable {α : Type}

/-- The result of a decoder may be passed on to a function. -/
instance : Functor Decoder where
  map f d := { form := d.form, decode := fun v => (d.decode v).map f }

/-- Reads a text that consists of one value. -/
def parse (d : Decoder α) (text : String) : Except JsonError α := do
  let v ← Json.parse d.form text
  (d.decode v).elim (.error .mismatch) .ok

/-! ## Simple values -/

/-- A decoder of values without parts. -/
def single (decode : Json → Option α) : Decoder α where
  form := .single fun v => (decode v).isSome
  decode

def bool : Decoder Bool :=
  single fun
    | .bool b => some b
    | _ => none

def string : Decoder String :=
  single fun
    | .string s => s
    | _ => none

/-- A natural number that fits a word of so many bits, written without point and exponent. -/
def nat (bits : Nat) : Decoder Nat :=
  single fun
    | .number n =>
      match n.toInt? with
      | some (.ofNat k) => if k < wordSize bits then some k else none
      | _ => none
    | _ => none

/-- An integer that fits 64 bits with its sign. -/
def int : Decoder Int :=
  single fun
    | .number n => n.toInt?.filter (· ≤ Int64.maxValue.toInt)
    | _ => none

/-- A number, converted to floating point. -/
def float : Decoder Float :=
  single fun
    | .number n => (n.toInt?.map Float.ofInt).or n.toFloat?
    | _ => none

/-- One of some values, by its name.  A name may also be the one field of an object that holds
null. -/
def name (all : List α) (nameOf : α → String) : Decoder α where
  form := .name (all.map nameOf)
  decode
    | .string (some s) | .object [(some s, .null)] => all.find? (nameOf · = s)
    | _ => none

/-! ## Values made of others -/

def list (d : Decoder α) : Decoder (List α) where
  form := .list d.form
  decode
    | .array items => items.mapM d.decode
    | _ => none

/-- A value, or null for none. -/
def option (d : Decoder α) : Decoder (Option α) where
  form := .option d.form
  decode
    | .null => some none
    | v => (d.decode v).map some

end Decoder

/-! ## Records -/

/-- The fields of a record that are given. -/
structure Fields where
  entries : List (String × Json)

/-- The value of a field, if it is given. -/
def Fields.find? (f : Fields) (name : String) : Option Json :=
  (f.entries.find? (·.1 = name)).map (·.2)

/-- The fields of a record with the given names, in either form. -/
def fields? (names : List String) : Json → Option Fields
  | .object entries =>
    let known := entries.filterMap fun (name, value) =>
      name.bind fun name => if names.contains name then some (name, value) else none
    let given := known.map (·.1)
    if names.any fun name => given.count name > 1 then none else some ⟨known⟩
  | .array items => if items.length > names.length then none else some ⟨names.zip items⟩
  | _ => none

/-- The fields of a record, in the order in which an array holds them, and what is made of them. -/
structure Record (α : Type) where
  /-- The name of each field, whether it has to be given, and its form. -/
  fields : List (String × Bool × Form)
  make : Fields → Option α

namespace Record

variable {α : Type}

/-- Records are put together field by field. -/
instance : Applicative Record where
  pure a := { fields := [], make := fun _ => some a }
  seq r s :=
    { fields := r.fields ++ (s ()).fields
      make := fun f => do (← r.make f) <$> (s ()).make f }

/-- A field that has to be given. -/
def required (name : String) (d : Decoder α) : Record α where
  fields := [(name, true, d.form)]
  make f := (f.find? name).elim none d.decode

/-- A field that may be left out. -/
def optional (name : String) (d : Decoder α) (fallback : α) : Record α where
  fields := [(name, false, d.form)]
  make f := (f.find? name).elim (some fallback) d.decode

/-- The decoder of a record. -/
def decoder (r : Record α) : Decoder α where
  form := .record r.fields
  decode v := do r.make (← v.fields? (r.fields.map (·.1)))

end Record

end Timetable.Json
