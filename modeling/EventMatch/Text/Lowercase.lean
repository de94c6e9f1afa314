import EventMatch.Text.LetterCase

/-!
# Lowercase text

The full lowercase mapping: every letter by its own map, except that the
capital I with dot becomes two characters and that a capital sigma has a form
of its own at the end of a word.
-/

namespace EventMatch.Text

/-- The lowercase form of a character by itself. -/
def lowerChar (c : Char) : List Char :=
  if c = 'İ' then ['i', '\u0307']
  else match lowering.find? (·.applies c.toNat) with
    | some r => [Char.ofNat ((c.toNat : Int) + r.shift).toNat]
    | none => [c]

/-- Whether the first character that is not ignored is a cased letter. -/
def meetsCased (s : List Char) : Bool :=
  match s.dropWhile caseIgnorable.contains with
  | c :: _ => cased.contains c
  | [] => false

/-- Lowercase of the characters after those of `before`, which is reversed. A
capital sigma ends a word if a letter stands before it and none after it. -/
def lowerFrom (before : List Char) : List Char → List Char
  | [] => []
  | c :: rest =>
    (if c = 'Σ' then [if meetsCased before && !meetsCased rest then 'ς' else 'σ'] else lowerChar c)
      ++ lowerFrom (c :: before) rest

/-- The text in lowercase. -/
def lowercase (s : String) : String := String.ofList (lowerFrom [] s.toList)

end EventMatch.Text
