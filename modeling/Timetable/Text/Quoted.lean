import Timetable.Text.Hidden

/-!
# Quoted text

`Text.quote` writes a text between double quotes so that every character of it can be seen: quotes
and backslashes behind a backslash, common controls as a letter behind a backslash, and other hidden
characters by number.
-/

set_option autoImplicit false

namespace Timetable.Text

/-- A hidden character by number, in hexadecimal digits between braces. -/
def byNumber (c : Char) : List Char :=
  '\\' :: 'u' :: '\x7b' :: Nat.toDigits 16 c.toNat ++ ['\x7d']

/-- How a character is written between quotes. -/
def escape (c : Char) : List Char :=
  if c = '"' then ['\\', '"']
  else if c = '\\' then ['\\', '\\']
  else if c = '\t' then ['\\', 't']
  else if c = '\r' then ['\\', 'r']
  else if c = '\n' then ['\\', 'n']
  else if c = '\x00' then ['\\', '0']
  else if isHidden c then byNumber c
  else [c]

/-- A text between double quotes. -/
def quote (s : String) : String := String.ofList ('"' :: s.toList.flatMap escape ++ ['"'])

end Timetable.Text
