/-!
# Byte strings

Values, numerals and specs are handed around as plain byte strings, which need
not be valid UTF-8. `Bytes.ofString` and `Bytes.toString?` go between them and
text, and `Bytes.le` is the order in which paths and object keys are sorted.
-/

namespace EventMatch

/-- A string of bytes. -/
abbrev Bytes := List UInt8

namespace Bytes

/-- The UTF-8 bytes of a text. -/
def ofString (s : String) : Bytes := s.toByteArray.data.toList

/-- The text that the bytes spell in UTF-8, if they are well formed. -/
def toString? (v : Bytes) : Option String := String.fromUTF8? ⟨v.toArray⟩

/-- The lexicographic order on bytes: a proper beginning comes first. -/
def le : Bytes → Bytes → Bool
  | [], _ => true
  | _ :: _, [] => false
  | a :: v, b :: w => if a < b then true else if b < a then false else le v w

/-- Text in the order of its UTF-8 bytes. -/
def leString (s t : String) : Bool := le (ofString s) (ofString t)

/-- Two texts have the same bytes only if they are the same text. -/
theorem ofString_inj {s t : String} : ofString s = ofString t ↔ s = t := by
  constructor
  · intro h
    have h : s.toByteArray.data = t.toByteArray.data := Array.toList_inj.1 h
    exact String.toByteArray_inj.1 (ByteArray.ext h)
  · rintro rfl
    rfl

end Bytes

end EventMatch
