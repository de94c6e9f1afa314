import EventMatch.Event.Flatten
import EventMatch.Proofs.Path
import Mathlib.Data.List.Basic

/-!
# The scalars of events

`Json.scalars` is what a value says at which keys, whatever the arrays in it.
`Json.spots` tells in addition in which elements of which arrays each of the
scalars lies; the fields of an event are its spots (`leaves_eq_spots`), and the arrays
in different members or items have different numbers (`spots_bounds`).
-/

namespace EventMatch

/-- The trails name no two elements of one array. -/
def Agree (s t : List ArrayPos) : Prop := ∀ p ∈ s, ∀ q ∈ t, p.array = q.array → p.pos = q.pos

theorem Field.compatible_iff {f g : Field} : f.compatible g = true ↔ Agree f.trail g.trail := by
  simp only [compatible, Agree, List.all_eq_true, Bool.not_eq_true', Bool.and_eq_false_iff, beq_eq_false_iff_ne,
    bne_eq_false_iff_eq, ne_eq]
  exact forall₄_congr fun p _ q _ => ⟨fun h he => h.resolve_left (· he), fun h => not_or_of_imp h⟩

/-- A scalar of a value: the keys that lead to it, the text that its field has as a
value, and the elements of the value's arrays that it lies in. -/
structure Spot where
  keys : List String
  value : Bytes
  trail : List ArrayPos

namespace Spot

/-- The spot in the value of a member. -/
def under (key : String) (l : Spot) : Spot := { l with keys := key :: l.keys }

/-- The spot in an element of an array. -/
def within (p : ArrayPos) (l : Spot) : Spot := { l with trail := p :: l.trail }

/-- The spot's scalar. -/
def scalar (l : Spot) : List String × Bytes := (l.keys, l.value)

/-- The field of a spot in a value that a path and a trail lead to. -/
def field (path : String) (trail : List ArrayPos) (l : Spot) : Field :=
  ⟨l.keys.foldl Path.extend path, l.value, trail ++ l.trail⟩

theorem under_injective (key : String) : Function.Injective (under key) := by
  rintro ⟨_, _, _⟩ ⟨_, _, _⟩ h
  cases h
  rfl

theorem within_injective (p : ArrayPos) : Function.Injective (within p) := by
  rintro ⟨_, _, _⟩ ⟨_, _, _⟩ h
  cases h
  rfl

/-- All arrays that the spot lies in have numbers above `lo` and up to `hi`. -/
def Numbered (lo hi : Nat) (l : Spot) : Prop := ∀ p ∈ l.trail, (lo : Int) < p.array ∧ p.array ≤ (hi : Int)

theorem numbered_nil {lo hi : Nat} {keys : List String} {value : Bytes} : Numbered lo hi ⟨keys, value, []⟩ :=
  fun _ h => absurd h List.not_mem_nil

theorem Numbered.mono {lo lo' hi hi' : Nat} {l : Spot} (h : l.Numbered lo hi) (hlo : lo' ≤ lo)
    (hhi : hi ≤ hi') : l.Numbered lo' hi' := fun p hp => by
  have := h p hp
  omega

/-- Spots in arrays with numbers of their own never are in different elements of one. -/
theorem agree_of_numbered {lo mid hi : Nat} {l l' : Spot} (h : l.Numbered lo mid) (h' : l'.Numbered mid hi) :
    Agree l.trail l'.trail := fun p hp q hq he => by
  have := h p hp
  have := h' q hq
  omega

end Spot

namespace Json

mutual

/-- The scalars of a value with the keys that lead to them. Arrays do not show. -/
def scalars : Json → List (List String × Bytes)
  | obj members => memberScalars members
  | arr items => itemScalars items
  | num n => [([], Numeral.plainText n.spelling)]
  | scalar => [([], Bytes.ofString scalar.text)]

/-- The scalars of an object's members. -/
def memberScalars : List (String × Json) → List (List String × Bytes)
  | [] => []
  | (key, j) :: ms => j.scalars.map (fun s => (key :: s.1, s.2)) ++ memberScalars ms

/-- The scalars of an array's items. -/
def itemScalars : List Json → List (List String × Bytes)
  | [] => []
  | j :: js => j.scalars ++ itemScalars js

end

mutual

/-- The spots of a value, and the number of arrays met so far. -/
def spots (arrays : Nat) : Json → List Spot × Nat
  | obj members => memberSpots arrays members
  | arr items => itemSpots (arrays + 1) 0 (arrays + 1) items
  | num n => ([⟨[], Numeral.plainText n.spelling, []⟩], arrays)
  | scalar => ([⟨[], Bytes.ofString scalar.text, []⟩], arrays)

/-- The spots of an object's members. -/
def memberSpots (arrays : Nat) : List (String × Json) → List Spot × Nat
  | [] => ([], arrays)
  | (key, j) :: ms =>
    let (here, arrays) := j.spots arrays
    let (others, arrays) := memberSpots arrays ms
    (here.map (Spot.under key) ++ others, arrays)

/-- The spots of an array's items from the one at `pos` on. -/
def itemSpots (array pos arrays : Nat) : List Json → List Spot × Nat
  | [] => ([], arrays)
  | j :: js =>
    let (here, arrays) := j.spots arrays
    let (others, arrays) := itemSpots array (pos + 1) arrays js
    (here.map (Spot.within ⟨array, pos⟩) ++ others, arrays)

end

theorem mem_memberSpots_cons {arrays : Nat} {key : String} {j : Json} {ms : List (String × Json)} {l : Spot} :
    l ∈ (memberSpots arrays ((key, j) :: ms)).1 ↔
      (∃ l' ∈ (j.spots arrays).1, l'.under key = l) ∨ l ∈ (memberSpots (j.spots arrays).2 ms).1 := by
  rw [memberSpots, List.mem_append, List.mem_map]

theorem mem_itemSpots_cons {array pos arrays : Nat} {j : Json} {js : List Json} {l : Spot} :
    l ∈ (itemSpots array pos arrays (j :: js)).1 ↔
      (∃ l' ∈ (j.spots arrays).1, l'.within ⟨array, pos⟩ = l) ∨
        l ∈ (itemSpots array (pos + 1) (j.spots arrays).2 js).1 := by
  rw [itemSpots, List.mem_append, List.mem_map]

/-! ## Fields and spots -/

mutual

/-- The fields of a value are its spots, and both count the same arrays. -/
theorem leaves_eq_spots : ∀ (j : Json) (path : String) (trail : List ArrayPos) (arrays : Nat),
    j.leaves path trail arrays = ((j.spots arrays).1.map (Spot.field path trail), (j.spots arrays).2)
  | .obj members, path, trail, arrays => by
    rw [leaves, spots]
    exact memberLeaves_eq_spots members path trail arrays
  | .arr items, path, trail, arrays => by
    rw [leaves, spots]
    exact itemLeaves_eq_spots items path trail (arrays + 1) 0 (arrays + 1)
  | .null, path, trail, arrays | .bool _, path, trail, arrays | .num _, path, trail, arrays
  | .str _, path, trail, arrays => by simp [leaves, spots, Spot.field]

theorem memberLeaves_eq_spots : ∀ (ms : List (String × Json)) (path : String) (trail : List ArrayPos)
    (arrays : Nat), memberLeaves path trail arrays ms =
      ((memberSpots arrays ms).1.map (Spot.field path trail), (memberSpots arrays ms).2)
  | [], path, trail, arrays => rfl
  | (key, j) :: ms, path, trail, arrays => by
    rw [memberLeaves, memberSpots, leaves_eq_spots j]
    dsimp only
    rw [memberLeaves_eq_spots ms, List.map_append, List.map_map]
    rfl

theorem itemLeaves_eq_spots : ∀ (js : List Json) (path : String) (trail : List ArrayPos)
    (array pos arrays : Nat), itemLeaves path trail array pos arrays js =
      ((itemSpots array pos arrays js).1.map (Spot.field path trail), (itemSpots array pos arrays js).2)
  | [], path, trail, array, pos, arrays => rfl
  | j :: js, path, trail, array, pos, arrays => by
    have hwithin : Spot.field path (trail ++ [⟨array, pos⟩]) = Spot.field path trail ∘ Spot.within ⟨array, pos⟩ :=
      funext fun l => by simp [Spot.field, Spot.within]
    rw [itemLeaves, itemSpots, leaves_eq_spots j]
    dsimp only
    rw [itemLeaves_eq_spots js, List.map_append, List.map_map, hwithin]

end

mutual

/-- The scalars of a value are those of its spots. -/
theorem map_scalar_spots : ∀ (j : Json) (arrays : Nat), (j.spots arrays).1.map Spot.scalar = j.scalars
  | .obj members, arrays => by
    rw [spots, scalars]
    exact map_scalar_memberSpots members arrays
  | .arr items, arrays => by
    rw [spots, scalars]
    exact map_scalar_itemSpots items (arrays + 1) 0 (arrays + 1)
  | .null, arrays | .bool _, arrays | .num _, arrays | .str _, arrays => by
    simp [spots, scalars, Spot.scalar]

theorem map_scalar_memberSpots : ∀ (ms : List (String × Json)) (arrays : Nat),
    (memberSpots arrays ms).1.map Spot.scalar = memberScalars ms
  | [], arrays => rfl
  | (key, j) :: ms, arrays => by
    rw [memberSpots, memberScalars, List.map_append, map_scalar_memberSpots ms, ← map_scalar_spots j arrays,
      List.map_map, List.map_map]
    rfl

theorem map_scalar_itemSpots : ∀ (js : List Json) (array pos arrays : Nat),
    (itemSpots array pos arrays js).1.map Spot.scalar = itemScalars js
  | [], array, pos, arrays => rfl
  | j :: js, array, pos, arrays => by
    rw [itemSpots, itemScalars, List.map_append, map_scalar_itemSpots js, ← map_scalar_spots j arrays,
      List.map_map]
    rfl

end

/-! ## Numbers of arrays -/

mutual

/-- The arrays of a value have the numbers that are counted while it is walked. -/
theorem spots_bounds : ∀ (j : Json) (arrays : Nat), arrays ≤ (j.spots arrays).2 ∧
    ∀ l ∈ (j.spots arrays).1, l.Numbered arrays (j.spots arrays).2
  | .obj members, arrays => by
    rw [spots]
    exact memberSpots_bounds members arrays
  | .arr items, arrays => by
    rw [spots]
    obtain ⟨hle, hn⟩ := itemSpots_bounds items (arrays + 1) 0 (arrays + 1)
    refine ⟨Nat.le_of_succ_le hle, fun l hl => ?_⟩
    obtain ⟨p, l', _, _, rfl, hn⟩ := hn l hl
    intro q hq
    rcases List.mem_cons.mp hq with rfl | hq
    · exact ⟨Int.ofNat_lt.mpr (Nat.lt_succ_self arrays), Int.ofNat_le.mpr hle⟩
    · exact hn.mono (Nat.le_succ arrays) (Nat.le_refl _) q hq
  | .null, arrays | .bool _, arrays | .num _, arrays | .str _, arrays => by
    simp [spots, Spot.numbered_nil]

theorem memberSpots_bounds : ∀ (ms : List (String × Json)) (arrays : Nat),
    arrays ≤ (memberSpots arrays ms).2 ∧
      ∀ l ∈ (memberSpots arrays ms).1, l.Numbered arrays (memberSpots arrays ms).2
  | [], arrays => ⟨Nat.le_refl _, fun _ h => absurd h List.not_mem_nil⟩
  | (key, j) :: ms, arrays => by
    obtain ⟨hle, hn⟩ := spots_bounds j arrays
    obtain ⟨hle', hn'⟩ := memberSpots_bounds ms (j.spots arrays).2
    refine ⟨hle.trans hle', fun l hl => ?_⟩
    rcases mem_memberSpots_cons.mp hl with ⟨l', hl', rfl⟩ | hl
    · exact (hn l' hl').mono (Nat.le_refl _) hle'
    · exact (hn' l hl).mono hle (Nat.le_refl _)

/-- A spot of an array's items lies in one of them, and further in arrays of its own. -/
theorem itemSpots_bounds : ∀ (js : List Json) (array pos arrays : Nat),
    arrays ≤ (itemSpots array pos arrays js).2 ∧ ∀ l ∈ (itemSpots array pos arrays js).1,
      ∃ (p : Nat) (l' : Spot), pos ≤ p ∧ p < pos + js.length ∧ l'.within ⟨array, p⟩ = l ∧
        l'.Numbered arrays (itemSpots array pos arrays js).2
  | [], array, pos, arrays => ⟨Nat.le_refl _, fun _ h => absurd h List.not_mem_nil⟩
  | j :: js, array, pos, arrays => by
    obtain ⟨hle, hn⟩ := spots_bounds j arrays
    obtain ⟨hle', hn'⟩ := itemSpots_bounds js array (pos + 1) (j.spots arrays).2
    refine ⟨hle.trans hle', fun l hl => ?_⟩
    rw [List.length_cons]
    rcases mem_itemSpots_cons.mp hl with ⟨l', hl', rfl⟩ | hl
    · exact ⟨pos, l', Nat.le_refl _, by omega, rfl, (hn l' hl').mono (Nat.le_refl _) hle'⟩
    · obtain ⟨p, l', hp, hlt, he, hn⟩ := hn' l hl
      exact ⟨p, l', by omega, by omega, he, hn.mono hle (Nat.le_refl _)⟩

end

end Json

end EventMatch
