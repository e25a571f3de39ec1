import Timetable.Json.Form

/-!
# Reading JSON

`Json.parse` reads a text of a known form.  A reader takes the characters that are left and returns
what it read together with those behind it, or the first error in the text.

Values may be nested in each other as deep as one likes.  Numbers that are used have to be in range,
and strings that are used have to be text; what is skipped may be neither.  If the text ends where a
number needs a digit, it ends too early for a number that is used, but a number that is skipped is
malformed.
-/

set_option autoImplicit false

namespace Timetable.Json

/-- A value that was read, and the characters behind it. -/
abbrev Reading (α : Type) : Type := α × List Char

/-! ## Characters -/

/-- Whether a character may stand between the parts of a text. -/
def isBlank (c : Char) : Bool := c = ' ' || c = '\n' || c = '\t' || c = '\r'

/-- The characters from the first on that is not blank. -/
def skipBlanks (cs : List Char) : List Char := cs.dropWhile isBlank

/-- The value of a decimal digit. -/
def digit? (c : Char) : Option Nat := if c.isDigit then some (c.toNat - '0'.toNat) else none

/-- The value of a hexadecimal digit. -/
def hexDigit? (c : Char) : Option Nat :=
  if c.isDigit then some (c.toNat - '0'.toNat)
  else if 'a' ≤ c ∧ c ≤ 'f' then some (c.toNat - 'a'.toNat + 10)
  else if 'A' ≤ c ∧ c ≤ 'F' then some (c.toNat - 'A'.toNat + 10)
  else none

/-- Reads a word that has to stand there. -/
def readWord {α : Type} (value : α) : (word : List Char) → List Char → Except JsonError (Reading α)
  | [], cs => .ok (value, cs)
  | _ :: _, [] => .error .incomplete
  | w :: word, c :: cs => if w = c then readWord value word cs else .error .malformed

/-! ## Numbers -/

/-- Reads as many digits as there are. -/
def readDigits : List Char → List Nat × List Char
  | [] => ([], [])
  | c :: cs =>
    match digit? c with
    | none => ([], c :: cs)
    | some d =>
      let (ds, rest) := readDigits cs
      (d :: ds, rest)

/-- Reads digits, of which there has to be one. -/
def readSomeDigits (isUsed : Bool) (cs : List Char) : Except JsonError (Reading (List Nat)) :=
  match readDigits cs with
  | ([], []) => .error (if isUsed then .incomplete else .malformed)
  | ([], _ :: _) => .error .malformed
  | (ds, rest) => .ok (ds, rest)

/-- Reads the digits before the point.  Only zero begins with a zero. -/
def readWhole (isUsed : Bool) (cs : List Char) : Except JsonError (Reading (List Nat)) := do
  match ← readSomeDigits isUsed cs with
  | (0 :: _ :: _, _) => .error .malformed
  | (ds, rest) => .ok (ds, rest)

/-- Reads the point and the digits behind it, if there is one. -/
def readFraction (isUsed : Bool) : List Char → Except JsonError (Reading (Option (List Nat)))
  | '.' :: cs => do
    let (ds, rest) ← readSomeDigits isUsed cs
    return (some ds, rest)
  | cs => .ok (none, cs)

/-- Reads the exponent, if there is one. -/
def readExponent (isUsed : Bool) : List Char → Except JsonError (Reading (Option Int))
  | c :: cs =>
    if c = 'e' || c = 'E' then do
      let (isNegative, cs) :=
        match cs with
        | '-' :: cs => (true, cs)
        | '+' :: cs => (false, cs)
        | cs => (false, cs)
      let (ds, rest) ← readSomeDigits isUsed cs
      let value : Int := numberOf ds
      return (some (if isNegative then -value else value), rest)
    else .ok (none, c :: cs)
  | [] => .ok (none, [])

/-- Reads a number.  If it is used, it has to be in range. -/
def readNumber (isUsed : Bool) (cs : List Char) : Except JsonError (Reading Json) := do
  let (isNegative, cs) :=
    match cs with
    | '-' :: cs => (true, cs)
    | cs => (false, cs)
  let (whole, cs) ← readWhole isUsed cs
  let (fraction, cs) ← readFraction isUsed cs
  let (exponent, cs) ← readExponent isUsed cs
  let n : Numeral := { isNegative, whole, fraction, exponent }
  if isUsed && n.isOutOfRange then .error .malformed else return (.number n, cs)

/-! ## Strings -/

/-- The character that a letter stands for behind a backslash. -/
def escaped? : Char → Option Char
  | '"' => some '"'
  | '\\' => some '\\'
  | '/' => some '/'
  | 'b' => some '\x08'
  | 'f' => some '\x0c'
  | 'n' => some '\n'
  | 'r' => some '\r'
  | 't' => some '\t'
  | _ => none

/-- Reads four hexadecimal digits.  If fewer than four bytes are left, the text ends too early. -/
def readUnit (cs : List Char) : Except JsonError (Reading Nat) :=
  match cs with
  | a :: b :: c :: d :: rest =>
    match hexDigit? a, hexDigit? b, hexDigit? c, hexDigit? d with
    | some a, some b, some c, some d => .ok (((a * 16 + b) * 16 + c) * 16 + d, rest)
    | _, _, _, _ => .error .malformed
  | _ =>
    if total (cs.map (·.utf8Size)) < 4 then .error .incomplete else .error .malformed

/-- A part of a string: a character, or half of a surrogate pair. -/
inductive Piece
  | char (c : Char)
  | high (unit : Nat)
  | low (unit : Nat)

/-- The part of a string that a unit of 16 bits is. -/
def Piece.ofUnit (unit : Nat) : Piece :=
  if 0xD800 ≤ unit ∧ unit < 0xDC00 then .high unit
  else if 0xDC00 ≤ unit ∧ unit < 0xE000 then .low unit
  else .char (Char.ofNat unit)

/-- The text that the parts of a string make.  The halves of surrogate pairs have to match, and
nothing may come between them. -/
def Piece.join : List Piece → Option (List Char)
  | [] => some []
  | .char c :: rest => (join rest).map (c :: ·)
  | .high h :: .low l :: rest =>
    (join rest).map (Char.ofNat (0x10000 + (h - 0xD800) * 0x400 + (l - 0xDC00)) :: ·)
  | _ => none

/-- Whether a part may follow the parts before it, the last one first, in a string that is text. -/
def Piece.follows (before : List Piece) : Piece → Bool
  | .low _ => match before with | .high _ :: _ => true | _ => false
  | _ => match before with | .high _ :: _ => false | _ => true

/-- Reads the parts of a string up to the quote that ends it.  At most `fuel` parts are read.  If
the string is used, it has to be text. -/
def readPieces (isUsed : Bool) : (fuel : Nat) → List Char → List Piece →
    Except JsonError (Reading (List Piece))
  | 0, _, _ => .error .incomplete
  | _, [], _ => .error .incomplete
  | fuel + 1, c :: cs, pieces => do
    let goOn (p : Piece) (cs : List Char) :=
      if isUsed && !p.follows pieces then .error .malformed
      else readPieces isUsed fuel cs (p :: pieces)
    if c = '"' then return (pieces.reverse, cs)
    else if c = '\\' then
      match cs with
      | [] => .error .incomplete
      | 'u' :: cs => do
        let (unit, cs) ← readUnit cs
        goOn (.ofUnit unit) cs
      | c :: cs => (escaped? c).elim (.error .malformed) fun c => goOn (.char c) cs
    else if c.toNat < 0x20 then .error .malformed
    else goOn (.char c) cs

/-- Reads a string behind its first quote.  If it is used, it has to be text. -/
def readString (isUsed : Bool) (cs : List Char) : Except JsonError (Reading (Option String)) := do
  let (pieces, rest) ← readPieces isUsed (cs.length + 1) cs []
  let text := (Piece.join pieces).map String.ofList
  if isUsed && text.isNone then .error .malformed else return (text, rest)

/-! ## Values -/

/-- Reads the colon behind the name of a field. -/
def readColon (cs : List Char) : Except JsonError (List Char) :=
  match skipBlanks cs with
  | [] => .error .incomplete
  | ':' :: cs => .ok cs
  | _ => .error .malformed

/-- Reads a value without parts, of which the first character is given. -/
def readSingle (isUsed : Bool) (c : Char) (cs : List Char) : Except JsonError (Reading Json) :=
  match c with
  | 'n' => readWord .null ['u', 'l', 'l'] cs
  | 't' => readWord (.bool true) ['r', 'u', 'e'] cs
  | 'f' => readWord (.bool false) ['a', 'l', 's', 'e'] cs
  | '"' => do
    let (s, cs) ← readString isUsed cs
    return (.string s, cs)
  | c => if c = '-' || c.isDigit then readNumber isUsed (c :: cs) else .error .malformed

mutual

/-- Reads a value of a form. -/
def readValue : (fuel : Nat) → Form → List Char → Except JsonError (Reading Json)
  | 0, _, _ => .error .malformed
  | fuel + 1, form, cs =>
    match skipBlanks cs with
    | [] => .error .incomplete
    | '[' :: cs =>
      match form.present with
      | .single _ => .error .mismatch
      | .name _ => .error .malformed
      | form =>
        match skipBlanks cs with
        | ']' :: cs => do
          form.testItems 0
          return (.array [], cs)
        | cs => readItems fuel form [] cs
    | '{' :: cs =>
      match form.present with
      | .single _ | .list _ => .error .mismatch
      | .name names => readName fuel names cs
      | form =>
        match skipBlanks cs with
        | '}' :: cs => do
          form.testFields []
          return (.object [], cs)
        | cs => readFields fuel form [] cs
    | c :: cs =>
      if form.refuses c then .error .malformed
      else do
        let (v, cs) ← readSingle form.isUsed c cs
        if form.admits v then return (v, cs) else .error .mismatch

/-- Reads the items of an array of a form from one of them on.  `items` are those before it, the
last one first. -/
def readItems : (fuel : Nat) → Form → (items : List Json) → List Char →
    Except JsonError (Reading Json)
  | 0, _, _, _ => .error .malformed
  | fuel + 1, form, items, cs => do
    let (item, cs) ← readValue fuel (← form.item items.length) cs
    match skipBlanks cs with
    | [] => .error .incomplete
    | ']' :: cs =>
      form.testItems (items.length + 1)
      return (.array (item :: items).reverse, cs)
    | ',' :: cs => readItems fuel form (item :: items) cs
    | _ => .error .malformed

/-- Reads the fields of an object of a form from one of them on.  `fields` are those before it, the
last one first. -/
def readFields : (fuel : Nat) → Form → (fields : List (Option String × Json)) → List Char →
    Except JsonError (Reading Json)
  | 0, _, _, _ => .error .malformed
  | fuel + 1, form, fields, cs =>
    match skipBlanks cs with
    | [] => .error .incomplete
    | '"' :: cs => do
      let (name, cs) ← readString form.isUsed cs
      let inner ← form.field (fields.map (·.1)) name
      let (value, cs) ← readValue fuel inner (← readColon cs)
      match skipBlanks cs with
      | [] => .error .incomplete
      | '}' :: cs =>
        form.testFields (name :: fields.map (·.1))
        return (.object ((name, value) :: fields).reverse, cs)
      | ',' :: cs => readFields fuel form ((name, value) :: fields) cs
      | _ => .error .malformed
    | _ => .error .malformed

/-- Reads an object that stands for a name, behind its bracket, and returns the name. -/
def readName : (fuel : Nat) → (names : List String) → List Char → Except JsonError (Reading Json)
  | 0, _, _ => .error .malformed
  | fuel + 1, names, cs =>
    match skipBlanks cs with
    | [] => .error .incomplete
    | '"' :: cs => do
      let (s, cs) ← readString true cs
      let name := Json.string s
      if !Form.isName names name then throw .mismatch
      let (_, cs) ← readValue fuel (.single Form.isNull) (← readColon cs)
      match skipBlanks cs with
      | [] => .error .incomplete
      | '}' :: cs => return (name, cs)
      | _ => .error .malformed
    | _ => .error .malformed

end

/-- Reads a text that consists of one value of a form.  Every step takes a character, so twice the
length of the text is more than enough. -/
def parse (form : Form) (text : String) : Except JsonError Json := do
  let cs := text.toList
  let (value, rest) ← readValue (2 * cs.length + 2) form cs
  if (skipBlanks rest).isEmpty then return value else .error .malformed

end Timetable.Json
