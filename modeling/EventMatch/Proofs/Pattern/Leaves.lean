import EventMatch.Pattern.Parser
import EventMatch.Proofs.Event.Choice
import EventMatch.Proofs.Pattern.Values
import Mathlib.Data.List.Pairwise

/-!
# The arrays of patterns

`Json.valueLists` are the arrays of values in a pattern, with the keys that lead to
them; their paths are those of the pattern's fields (`Pattern.map_path_of_parse`). Of the
key sequences none begins with another, and so in the order of their paths those
that begin alike stand together (`contiguous_leafKeys`).
-/

namespace EventMatch

namespace Json

mutual

/-- The arrays of a pattern with the keys that lead to them. -/
def valueLists : Json → List (List String × List Json)
  | obj members => memberValueLists members
  | arr items => [([], items)]
  | _ => []

/-- The arrays that the members of a pattern lead to. -/
def memberValueLists : List (String × Json) → List (List String × List Json)
  | [] => []
  | (key, j) :: ms => j.valueLists.map (fun l => (key :: l.1, l.2)) ++ memberValueLists ms

end

/-- The key sequences of a pattern's arrays in the order of their paths. -/
def leafKeys (pattern : Json) : List (List String) :=
  (pattern.valueLists.map Prod.fst).mergeSort fun ks ls => Bytes.leString (Path.ofKeys ks) (Path.ofKeys ls)

theorem mem_leafKeys {pattern : Json} {ks : List String} :
    ks ∈ pattern.leafKeys ↔ ∃ leaf ∈ pattern.valueLists, leaf.1 = ks := by
  rw [leafKeys, List.mem_mergeSort, List.mem_map]

end Json

/-- Neither key sequence begins with the other. -/
def Incomparable (ks ls : List String) : Prop := ¬ ks <+: ls ∧ ¬ ls <+: ks

theorem incomparable_cons {k : String} {ks ls : List String} :
    Incomparable (k :: ks) (k :: ls) ↔ Incomparable ks ls := by
  simp only [Incomparable, List.cons_prefix_cons, true_and]

theorem incomparable_of_ne {k l : String} (h : k ≠ l) (ks ls : List String) : Incomparable (k :: ks) (l :: ls) :=
  ⟨fun hp => h (List.cons_prefix_cons.mp hp).1, fun hp => h (List.cons_prefix_cons.mp hp).1.symm⟩

theorem Incomparable.ne {ks ls : List String} (h : Incomparable ks ls) : ks ≠ ls := fun he =>
  h.1 (he ▸ List.prefix_rfl)

namespace Json

theorem exists_key_of_mem_memberValueLists {leaf : List String × List Json} : ∀ {ms : List (String × Json)},
    leaf ∈ memberValueLists ms → ∃ key ∈ ms.map Prod.fst, ∃ ks, leaf.1 = key :: ks
  | [], h => absurd h List.not_mem_nil
  | (key, j) :: ms, h => by
    rw [memberValueLists] at h
    rcases List.mem_append.mp h with h | h
    · obtain ⟨l, _, rfl⟩ := List.mem_map.mp h
      exact ⟨key, List.mem_cons_self, l.1, rfl⟩
    · obtain ⟨k, hk, hks⟩ := exists_key_of_mem_memberValueLists h
      exact ⟨k, List.mem_cons_of_mem _ hk, hks⟩

mutual

/-- None of a pattern's arrays stands on the way to another. -/
theorem incomparable_valueLists : ∀ {j : Json}, j.UniqueKeys →
    j.valueLists.Pairwise fun l m => Incomparable l.1 m.1
  | .obj members, h => by
    rw [valueLists]
    exact incomparable_memberValueLists h.1 h.2
  | .arr items, _ => List.pairwise_singleton _ _
  | .null, _ | .bool _, _ | .num _, _ | .str _, _ => .nil

theorem incomparable_memberValueLists : ∀ {ms : List (String × Json)}, (ms.map Prod.fst).Nodup →
    MembersUnique ms → (memberValueLists ms).Pairwise fun l m => Incomparable l.1 m.1
  | [], _, _ => .nil
  | (key, j) :: ms, hn, hu => by
    obtain ⟨hkey, hn⟩ := List.nodup_cons.mp hn
    rw [memberValueLists, List.pairwise_append]
    refine ⟨?_, incomparable_memberValueLists hn hu.2, fun l hl m hm => ?_⟩
    · exact List.pairwise_map.mpr ((incomparable_valueLists hu.1).imp incomparable_cons.mpr)
    · obtain ⟨l, _, rfl⟩ := List.mem_map.mp hl
      obtain ⟨k, hk, ks, he⟩ := exists_key_of_mem_memberValueLists hm
      rw [he]
      refine incomparable_of_ne (fun e : key = k => hkey ?_) l.1 ks
      rw [e]
      exact hk

end

/-- The keys on the way to a pattern's arrays, or to an event's scalars, are plain. -/
def PlainKeys {α : Type} (leaves : List (List String × α)) : Prop :=
  ∀ leaf ∈ leaves, ∀ key ∈ leaf.1, Path.Plain key

instance {α : Type} (leaves : List (List String × α)) : Decidable (PlainKeys leaves) :=
  inferInstanceAs (Decidable (∀ leaf ∈ leaves, ∀ key ∈ leaf.1, Path.Plain key))

/-! ## The order of the arrays -/

variable {pattern : Json}

theorem PlainKeys.leafKeys (h : PlainKeys pattern.valueLists) :
    ∀ ks ∈ pattern.leafKeys, ∀ key ∈ ks, Path.Plain key := fun ks hks => by
  obtain ⟨leaf, hl, rfl⟩ := mem_leafKeys.mp hks
  exact h leaf hl

theorem incomparable_leafKeys (h : pattern.UniqueKeys) : pattern.leafKeys.Pairwise Incomparable :=
  (List.Perm.pairwise_iff (fun h => h.symm) (List.mergeSort_perm _ _)).mpr
    (List.pairwise_map.mpr (incomparable_valueLists h))

theorem sorted_leafKeys (pattern : Json) :
    pattern.leafKeys.Pairwise fun ks ls => Bytes.leString (Path.ofKeys ks) (Path.ofKeys ls) = true :=
  Bytes.pairwise_mergeSort_leString Path.ofKeys _

/-- In the order of paths the arrays that are reached through one member stand together. -/
theorem contiguous_leafKeys (hu : pattern.UniqueKeys) (hp : PlainKeys pattern.valueLists) :
    Contiguous pattern.leafKeys := by
  intro a b c qs hs ha hc
  have hm : ∀ ks ∈ [a, b, c], ∀ key ∈ ks, Path.Plain key := fun ks hks => hp.leafKeys ks (hs.subset hks)
  have hi := (incomparable_leafKeys hu).sublist hs
  have hle := (sorted_leafKeys pattern).sublist hs
  simp only [List.pairwise_cons, List.mem_cons, List.not_mem_nil, or_false, forall_eq_or_imp, forall_eq] at hi hle
  refine Path.isPrefix_of_between (hm a (by simp)) (hm b (by simp)) (hm c (by simp)) ha hc ?_ ?_ hle.1.1 hle.2.1
  · rintro rfl
    exact hi.1.2.1 hc
  · rintro rfl
    exact hi.1.2.2 ha

/-- The paths of the arrays are different and in order. -/
theorem pairwise_ofKeys_leafKeys (hu : pattern.UniqueKeys) (hp : PlainKeys pattern.valueLists) :
    (pattern.leafKeys.map Path.ofKeys).Pairwise fun s t => Bytes.leString s t = true ∧ s ≠ t := by
  refine List.pairwise_map.mpr (((sorted_leafKeys pattern).and (incomparable_leafKeys hu)).imp_of_mem ?_)
  exact fun ha hb h => ⟨h.1, fun he => h.2.ne (Path.ofKeys_inj (Path.legible_of_plain (hp.leafKeys _ ha))
    (Path.legible_of_plain (hp.leafKeys _ hb)) he)⟩

end Json

namespace Pattern

mutual

/-- The paths of the fields are those of the arrays. -/
theorem map_path_of_fieldsAt {path : String} : ∀ {j : Json} {fields : List PatternField},
    fieldsAt path j = .ok fields → fields.map (·.path) = j.valueLists.map fun l => l.1.foldl Path.extend path
  | .obj members, fields, h => by
    rw [fieldsAt] at h
    rw [Json.valueLists]
    exact map_path_of_fieldsOf h
  | .arr items, fields, h => by
    rw [fieldsAt] at h
    obtain ⟨f, hf, rfl⟩ := Except.map_eq_ok.mp h
    rw [List.map_singleton, (proper_of_field hf).1]
    rfl
  | .null, _, h | .bool _, _, h | .num _, _, h | .str _, _, h => by
    unfold fieldsAt at h
    cases h

theorem map_path_of_fieldsOf {path : String} : ∀ {members : List (String × Json)}
    {fields : List PatternField}, fieldsOf path members = .ok fields →
    fields.map (·.path) = (Json.memberValueLists members).map fun l => l.1.foldl Path.extend path
  | [], fields, h => by
    rw [fieldsOf] at h
    cases h
    rfl
  | (key, j) :: ms, fields, h => by
    obtain ⟨front, back, hj, hm, rfl⟩ := fieldsOf_cons_eq_ok h
    rw [Json.memberValueLists, List.map_append, List.map_append, map_path_of_fieldsAt hj,
      map_path_of_fieldsOf hm, List.map_map]
    rfl

end

/-- The fields of a pattern are found where its arrays are, in the order of their paths. -/
theorem map_path_of_parse {text : String} {fields : List PatternField} (h : parse text = .ok fields) :
    ∃ pattern, Json.parse? text = some pattern ∧ fields.map (·.path) = pattern.leafKeys.map Path.ofKeys := by
  obtain ⟨members, fs, hj, hfs, _, rfl⟩ := parse_eq_ok h
  refine ⟨.obj members, hj, ?_⟩
  have hpath : fs.map (·.path) = ((Json.obj members).valueLists.map Prod.fst).map Path.ofKeys := by
    rw [map_path_of_fieldsOf hfs, List.map_map, Json.valueLists]
    rfl
  rw [sortByPath, Json.leafKeys, List.map_mergeSort (s := fun s t => Bytes.leString s t) fun _ _ _ _ => rfl,
    hpath, List.map_mergeSort (s := fun s t => Bytes.leString s t) fun _ _ _ _ => rfl]

end Pattern

end EventMatch
