import Timetable.Json.Basic
import Timetable.Numeric.Shortest

/-!
# Writing JSON

`Json.text` writes a value in one line, without blanks.

Numbers are written as they were understood.  Whole numbers of 64 bits stay what they are; others
are floating-point numbers, written with the fewest digits.  Since reading rounds twice, reading
them once more may give a neighbour.
-/

set_option autoImplicit false

namespace Timetable

/-! ## Numbers -/

namespace Numeral

/-- The numeral that a finite number is written as, with the fewest digits; halfway, with an even
digit at the end.  Whole numbers below `10 ^ 16` have a zero behind the point, others are written
with a power of ten. -/
def ofFloat (x : Float) : Numeral :=
  let bits := x.toBits
  let (n, e) := if bits <<< 1 = 0 then (0, 0) else shortest .toEven (bits &&& 0x7fffffffffffffff)
  let digits := (Nat.toDigits 10 n).map fun c => c.toNat - '0'.toNat
  let isNegative := bits >>> 63 = 1
  if 0 ≤ e ∧ digits.length + e.toNat ≤ 16 then
    let whole := digits ++ List.replicate e.toNat 0
    { isNegative, whole, fraction := some [0], exponent := none }
  else { isNegative, whole := digits, fraction := none, exponent := some e }

/-- What a numeral is written as after it has been read.  One that is out of range stays. -/
def rewritten (n : Numeral) : Numeral :=
  match n.toInt?, n.toFloat? with
  | none, some x => ofFloat x
  | _, _ => n

/-- The text of some decimal digits. -/
def digitText (digits : List Nat) : String := String.ofList (digits.map Nat.digitChar)

/-- The text of a numeral. -/
def text (n : Numeral) : String :=
  let sign := if n.isNegative then "-" else ""
  let fraction := n.fraction.elim "" fun digits => "." ++ digitText digits
  let exponent := n.exponent.elim "" fun e => "e" ++ toString e
  sign ++ digitText n.whole ++ fraction ++ exponent

end Numeral

namespace Json

/-! ## Strings -/

/-- What stands for a character in a string. -/
def escape (c : Char) : List Char :=
  if c = '"' || c = '\\' then ['\\', c]
  else if c.toNat < 0x20 then
    ['\\', 'u', '0', '0', Nat.digitChar (c.toNat / 16), Nat.digitChar (c.toNat % 16)]
  else [c]

/-- The text of a string.  One that makes no text is written as half of a surrogate pair. -/
def quote : Option String → String
  | some s => String.ofList ('"' :: s.toList.flatMap escape ++ ['"'])
  | none => "\"\\ud800\""

/-! ## Values -/

mutual

/-- The text of a value. -/
def text : Json → String
  | .null => "null"
  | .bool b => if b then "true" else "false"
  | .number n => n.rewritten.text
  | .string s => quote s
  | .array items => "[" ++ ",".intercalate (itemTexts items) ++ "]"
  | .object fields => "\x7b" ++ ",".intercalate (fieldTexts fields) ++ "\x7d"

/-- The texts of the items of an array. -/
def itemTexts : List Json → List String
  | [] => []
  | v :: items => v.text :: itemTexts items

/-- The texts of the fields of an object. -/
def fieldTexts : List (Option String × Json) → List String
  | [] => []
  | (name, v) :: fields => (quote name ++ ":" ++ v.text) :: fieldTexts fields

end

end Json

end Timetable
