import EventMatch.Json.Basic

/-!
# Reading JSON

A strict reader: blanks are the four that the format names, numbers have no
leading zeros, strings hold no raw controls and no lone surrogates, nothing
follows the value, and at most `maxDepth` containers are open at a time.

A reader of a part returns what is left of the text together with the fact that
this is shorter, by which the loops over items and members end; nesting is
bounded by the depth still allowed.
-/

namespace EventMatch.Json

/-- What is left of `s` once at least one character has been read. -/
abbrev Rest (s : List Char) := { r : List Char // r.length < s.length }

/-- Reads something off the front of a text, or fails. -/
abbrev Reader (α : Type) := (s : List Char) → Option (α × Rest s)

/-- How many containers may be open at a time. -/
def maxDepth : Nat := 127

/-- The blanks between tokens. -/
def isBlank (c : Char) : Bool := c == ' ' || c == '\t' || c == '\n' || c == '\r'

/-- Drops the blanks at the front. -/
def skipBlanks : List Char → List Char
  | [] => []
  | c :: r => if isBlank c then skipBlanks r else c :: r

theorem length_skipBlanks_le (s : List Char) : (skipBlanks s).length ≤ s.length := by
  induction s with
  | nil => simp [skipBlanks]
  | cons c r ih =>
    rw [skipBlanks]
    split
    · exact Nat.le_succ_of_le ih
    · exact Nat.le_refl _

/-- The value of a hexadecimal digit in either case. -/
def hexDigit? (c : Char) : Option Nat :=
  if '0' ≤ c ∧ c ≤ '9' then some (c.toNat - '0'.toNat)
  else if 'a' ≤ c ∧ c ≤ 'f' then some (c.toNat - 'a'.toNat + 10)
  else if 'A' ≤ c ∧ c ≤ 'F' then some (c.toNat - 'A'.toNat + 10)
  else none

/-- Reads four hexadecimal digits. -/
def hexQuad : Reader Nat := fun s =>
  match s with
  | a :: b :: c :: d :: r => do
    let a ← hexDigit? a
    let b ← hexDigit? b
    let c ← hexDigit? c
    let d ← hexDigit? d
    some (((a * 16 + b) * 16 + c) * 16 + d, ⟨r, by simp only [List.length_cons]; omega⟩)
  | _ => none

/-- What a backslash before a single character stands for. -/
def escape? (c : Char) : Option Char :=
  match c with
  | '"' => some '"'
  | '\\' => some '\\'
  | '/' => some '/'
  | 'b' => some '\x08'
  | 'f' => some '\x0c'
  | 'n' => some '\n'
  | 'r' => some '\r'
  | 't' => some '\t'
  | _ => none

/-- Reads the second half of a surrogate pair, backslash and `u` included. -/
def lowSurrogate : Reader Nat := fun s =>
  match s with
  | '\\' :: 'u' :: r => do
    let (low, r') ← hexQuad r
    if 0xDC00 ≤ low ∧ low < 0xE000 then
      some (low - 0xDC00, ⟨r'.1, by have := r'.2; simp only [List.length_cons]; omega⟩)
    else none
  | _ => none

/-- Reads the part of an escape after its backslash. -/
def escaped : Reader Char := fun s =>
  match s with
  | 'u' :: r => do
    let (first, r₁) ← hexQuad r
    if 0xD800 ≤ first ∧ first < 0xDC00 then
      let (low, r₂) ← lowSurrogate r₁.1
      some (Char.ofNat (0x10000 + (first - 0xD800) * 0x400 + low),
        ⟨r₂.1, by have := r₁.2; have := r₂.2; simp only [List.length_cons]; omega⟩)
    else if 0xDC00 ≤ first ∧ first < 0xE000 then none
    else some (Char.ofNat first, ⟨r₁.1, by have := r₁.2; simp only [List.length_cons]; omega⟩)
  | c :: r => (escape? c).map fun c => (c, ⟨r, by simp⟩)
  | [] => none

/-- Reads the inside of a string and its closing quote. -/
def stringBody (s : List Char) : Option (List Char × Rest s) :=
  match s with
  | [] => none
  | c :: r =>
    if c = '"' then some ([], ⟨r, by simp⟩)
    else if c = '\\' then do
      let (x, r₁) ← escaped r
      let (xs, r₂) ← stringBody r₁.1
      some (x :: xs, ⟨r₂.1, by have := r₁.2; have := r₂.2; simp only [List.length_cons]; omega⟩)
    else if c.toNat < 0x20 then none
    else do
      let (xs, r₁) ← stringBody r
      some (c :: xs, ⟨r₁.1, by have := r₁.2; simp only [List.length_cons]; omega⟩)
termination_by s.length
decreasing_by
  · have := r₁.2; simp only [List.length_cons]; omega
  · simp

/-- Reads a string in quotes. -/
def string : Reader String := fun s =>
  match s with
  | '"' :: r => do
    let (cs, r₁) ← stringBody r
    some (String.ofList cs, ⟨r₁.1, by have := r₁.2; simp only [List.length_cons]; omega⟩)
  | _ => none

/-- The characters of which numbers are made. -/
def isNumberChar (c : Char) : Bool :=
  ('0' ≤ c && c ≤ '9') || c == '-' || c == '+' || c == '.' || c == 'e' || c == 'E'

/-- The characters of a number at the front of the text. -/
def numberChars : List Char → List Char
  | [] => []
  | c :: r => if isNumberChar c then c :: numberChars r else []

/-- What follows the characters of a number. -/
def afterNumber : List Char → List Char
  | [] => []
  | c :: r => if isNumberChar c then afterNumber r else c :: r

theorem length_afterNumber_le (s : List Char) : (afterNumber s).length ≤ s.length := by
  induction s with
  | nil => simp [afterNumber]
  | cons c r ih =>
    rw [afterNumber]
    split
    · exact Nat.le_succ_of_le ih
    · exact Nat.le_refl _

/-- Reads a number. No character of one can follow it in a JSON text, so it is
as long as it can be. -/
def number : Reader Numeral := fun s =>
  match s with
  | [] => none
  | c :: r =>
    if isNumberChar c then do
      let n ← numeral? (Bytes.ofString (String.ofList (c :: numberChars r)))
      some (n,
        ⟨afterNumber r, by have := length_afterNumber_le r; simp only [List.length_cons]; omega⟩)
    else none

/-- Reads an item and, as long as commas follow, more of them, up to the
closing character. -/
def separated {α : Type} (item : Reader α) (close : Char) (s : List Char) :
    Option (List α × Rest s) := do
  let (x, r₁) ← item (skipBlanks s)
  match h : skipBlanks r₁.1 with
  | [] => none
  | c :: r =>
    if c = ',' then do
      let (xs, r₂) ← separated item close r
      some (x :: xs, ⟨r₂.1, by
        have := r₁.2; have := r₂.2; have := length_skipBlanks_le s
        have := length_skipBlanks_le r₁.1; rw [h, List.length_cons] at this; omega⟩)
    else if c = close then
      some ([x], ⟨r, by
        have := r₁.2; have := length_skipBlanks_le s
        have := length_skipBlanks_le r₁.1; rw [h, List.length_cons] at this; omega⟩)
    else none
termination_by s.length
decreasing_by
  have := r₁.2; have := length_skipBlanks_le s
  have := length_skipBlanks_le r₁.1; rw [h, List.length_cons] at this; omega

/-- Reads what stands after an opening character: nothing or items, and the
closing character. -/
def enclosed {α : Type} (item : Reader α) (close : Char) : Reader (List α) := fun s =>
  match h : skipBlanks s with
  | [] => none
  | c :: r =>
    if c = close then
      some ([], ⟨r, by have := length_skipBlanks_le s; rw [h, List.length_cons] at this; omega⟩)
    else separated item close s

/-- Reads a key, a colon and a value. -/
def member (value : Reader Json) : Reader (String × Json) := fun s => do
  let (key, r₁) ← string s
  match h : skipBlanks r₁.1 with
  | ':' :: r => do
    let (j, r₂) ← value (skipBlanks r)
    some ((key, j), ⟨r₂.1, by
      have := r₁.2; have := r₂.2; have := length_skipBlanks_le r
      have := length_skipBlanks_le r₁.1; rw [h, List.length_cons] at this; omega⟩)
  | _ => none

/-- Reads the rest of a word that stands for a value. -/
def word (w : List Char) (j : Json) (s : List Char) (r : List Char) (h : r.length < s.length) :
    Option (Json × Rest s) :=
  if w.isPrefixOf r then some (j, ⟨r.drop w.length, by rw [List.length_drop]; omega⟩) else none

/-- Reads a value inside of which `depth` containers may be open. -/
def value : (depth : Nat) → Reader Json
  | depth, s =>
    match s with
    | [] => none
    | c :: r =>
      have hr : r.length < (c :: r).length := by simp
      if c = 'n' then word ['u', 'l', 'l'] null _ r hr
      else if c = 't' then word ['r', 'u', 'e'] (bool true) _ r hr
      else if c = 'f' then word ['a', 'l', 's', 'e'] (bool false) _ r hr
      else if c = '"' then (string (c :: r)).map fun (s, rest) => (str s, rest)
      else if c = '[' then
        match depth with
        | 0 => none
        | d + 1 => (enclosed (value d) ']' r).map fun (js, rest) =>
            (arr js, ⟨rest.1, by have := rest.2; simp only [List.length_cons]; omega⟩)
      else if c = '\x7b' then
        match depth with
        | 0 => none
        | d + 1 => (enclosed (member (value d)) '\x7d' r).map fun (ms, rest) =>
            (obj ms, ⟨rest.1, by have := rest.2; simp only [List.length_cons]; omega⟩)
      else (number (c :: r)).map fun (n, rest) => (num n, rest)

/-- The value as it is written in a whole text. -/
def asWritten? (s : List Char) : Option Json := do
  let (j, rest) ← value maxDepth (skipBlanks s)
  if (skipBlanks rest.1).isEmpty then some j else none

/-- The value that a text stands for. -/
def parse? (s : String) : Option Json := (asWritten? s.toList).bind resolve?

/-- The value as it is written in bytes, which must be UTF-8. -/
def asWrittenBytes? (v : Bytes) : Option Json := do asWritten? (← Bytes.toString? v).toList

/-- The value that bytes stand for. -/
def parseBytes? (v : Bytes) : Option Json := (asWrittenBytes? v).bind resolve?

end EventMatch.Json
