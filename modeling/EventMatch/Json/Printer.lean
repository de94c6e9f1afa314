import EventMatch.Json.Basic

/-!
# Writing JSON

The compact form: no blanks, members in the order in which they are kept,
numbers as they are spelt, and in strings only those characters escaped that
must be.
-/

namespace EventMatch.Json

/-- A hexadecimal digit in small letters. -/
def hexChar (n : Nat) : Char := Nat.digitChar (n % 16)

/-- A character inside a JSON string. -/
def escapedChar (c : Char) : List Char :=
  match c with
  | '"' => ['\\', '"']
  | '\\' => ['\\', '\\']
  | '\x08' => ['\\', 'b']
  | '\x0c' => ['\\', 'f']
  | '\n' => ['\\', 'n']
  | '\r' => ['\\', 'r']
  | '\t' => ['\\', 't']
  | _ =>
    if c.toNat < 0x20 then ['\\', 'u', '0', '0', hexChar (c.toNat / 16), hexChar c.toNat] else [c]

/-- A string in quotes. -/
def renderString (s : String) : List Char :=
  '"' :: s.toList.flatMap escapedChar ++ ['"']

mutual

/-- The characters of a value in compact form. -/
def render : Json → List Char
  | null => "null".toList
  | bool true => "true".toList
  | bool false => "false".toList
  | num n => n.text.toList
  | str s => renderString s
  | arr items => '[' :: renderItems items ++ [']']
  | obj members => '\x7b' :: renderMembers members ++ ['\x7d']

/-- Items with commas between them. -/
def renderItems : List Json → List Char
  | [] => []
  | [j] => j.render
  | j :: js => j.render ++ ',' :: renderItems js

/-- Members with commas between them. -/
def renderMembers : List (String × Json) → List Char
  | [] => []
  | [(k, j)] => renderString k ++ ':' :: j.render
  | (k, j) :: ms => renderString k ++ ':' :: j.render ++ ',' :: renderMembers ms

end

/-- The compact text of a value. -/
def text (j : Json) : String := String.ofList j.render

end EventMatch.Json
