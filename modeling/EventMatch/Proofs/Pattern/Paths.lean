import EventMatch.Proofs.Event.Walk
import EventMatch.Proofs.Pattern.Grammar

/-!
# Paths of patterns and of events

A pattern has a field for each array that members alone lead to (`Pattern.mem_of_parse_iff`,
`Pattern.exists_isField_of_parse`), an event one for each scalar, whatever arrays are on the way
(`Json.mem_fields_iff`). Both have the path of the keys on the way, so what is reached along the
same keys has the same path, and by `Path.ofKeys_inj` nothing else has it as long as the keys are
legible (`Path.fields_along_keys`).
-/

namespace EventMatch

/-- Of related lists the second holds what is related to the first, if that is one for each element. -/
theorem mem_of_forall₂_iff {α γ : Type} {r : α → γ → Prop} (hr : Relator.RightUnique r) {as : List α}
    {cs : List γ} (h : List.Forall₂ r as cs) {c : γ} : c ∈ cs ↔ ∃ a ∈ as, r a c := by
  refine ⟨exists_of_mem_right h, ?_⟩
  rintro ⟨a, ha, hac⟩
  obtain ⟨d, hd, had⟩ := exists_of_mem_right h.flip ha
  rwa [hr hac had]

/-! ## Keys of addresses -/

namespace Json

theorem keysOf_map_key : ∀ keys : List String, keysOf (keys.map .key) = keys
  | [] => rfl
  | key :: keys => congrArg (key :: ·) (keysOf_map_key keys)

/-- An address that leads through members only is told by its keys. -/
theorem map_key_keysOf : ∀ {a : Address}, a.all Step.isKey = true → (keysOf a).map .key = a
  | [], _ => rfl
  | .key k :: _, h => congrArg (Step.key k :: ·) (map_key_keysOf h)
  | .index _ :: _, h => nomatch h

/-- The arrays among the branches of a value are those that members alone lead to. -/
theorem array_mem_branches_iff {j : Json} (h : j.UniqueKeys) {keys : List String} {items : List Json} :
    (keys.map .key, .arr items) ∈ branches j.nodes ↔ j.get? (keys.map .key) = some (.arr items) := by
  have hkeys : (keys.map Step.key).all Step.isKey = true :=
    List.all_eq_true.mpr (List.forall_mem_map.mpr fun _ _ => rfl)
  rw [mem_branches_iff h]
  exact and_iff_left ⟨hkeys, rfl⟩

end Json

/-! ## The fields of patterns -/

namespace Pattern

open Json (Node keysOf)

theorem rightUnique_isField : Relator.RightUnique IsField := fun _ _ _ hf hg =>
  Except.ok.inj ((branchField_eq_ok_iff.mpr hf).symm.trans (branchField_eq_ok_iff.mpr hg))

theorem isField_array_iff {keys : List String} {items : List Json} {f : PatternField} :
    IsField (keys.map .key, .arr items) f ↔
      f.path = Path.ofKeys keys ∧ items ≠ [] ∧ List.Forall₂ Denotes items f.values := by
  rw [IsField, Json.keysOf_map_key]
  refine and_congr_right fun _ => ⟨?_, fun h => ⟨items, rfl, h⟩⟩
  rintro ⟨_, he, h⟩
  rwa [Json.arr.inj he]

variable {text : String} {members : List (String × Json)} {fields : List PatternField}
  (hj : Json.parse? text = some (.obj members)) (h : parse text = .ok fields)

include hj h

/-- Every array that members alone lead to has a field. -/
theorem exists_isField_of_parse {keys : List String} {items : List Json}
    (hget : (Json.obj members).get? (keys.map .key) = some (.arr items)) :
    ∃ f, IsField (keys.map .key, .arr items) f := by
  obtain ⟨fs, hfs, -⟩ := (parse_eq_ok_iff hj).mp h
  exact exists_forall₂_iff.mp ⟨fs, hfs⟩ _ ((Json.array_mem_branches_iff (Json.uniqueKeys_of_parse? hj)).mpr hget)

/-- The pattern's fields are those of such arrays. -/
theorem mem_of_parse_iff {f : PatternField} : f ∈ fields ↔ ∃ (keys : List String) (items : List Json),
    (Json.obj members).get? (keys.map .key) = some (.arr items) ∧ IsField (keys.map .key, .arr items) f := by
  obtain ⟨fs, hfs, -, rfl⟩ := (parse_eq_ok_iff hj).mp h
  have hunique := Json.uniqueKeys_of_parse? hj
  rw [sortByPath, (List.mergeSort_perm fs _).mem_iff, mem_of_forall₂_iff rightUnique_isField hfs]
  constructor
  · rintro ⟨⟨a, x⟩, hn, hf⟩
    obtain ⟨hget, hkeys, -⟩ := (Json.mem_branches_iff hunique).mp hn
    obtain ⟨keys, rfl⟩ : ∃ keys : List String, a = keys.map .key := ⟨_, (Json.map_key_keysOf hkeys).symm⟩
    obtain ⟨items, rfl⟩ : ∃ items, x = .arr items := hf.2.imp fun _ h => h.1
    exact ⟨keys, items, hget, hf⟩
  · rintro ⟨keys, items, hget, hf⟩
    exact ⟨_, (Json.array_mem_branches_iff hunique).mpr hget, hf⟩

end Pattern

/-! ## The fields of events -/

namespace Json

theorem exists_obj_of_flatten {event : Bytes} {fields : List Field} (h : flatten event = .ok fields) :
    ∃ members, parseBytes? event = some (.obj members) ∧ fields = (Json.obj members).fields := by
  unfold flatten at h
  split at h
  · cases h
  · exact ⟨_, ‹_›, (Except.ok.inj h).symm⟩
  · cases h

/-- An event's fields are its scalars, each with the path of the keys in its address. -/
theorem mem_fields_iff {j : Json} (h : j.KeysSorted) {e : Field} :
    e ∈ j.fields ↔ ∃ a x, j.get? a = some x ∧ x.isScalar = true ∧
      e = ⟨Path.ofKeys (keysOf a), x.rendering, trail (fun p => (arrayAddresses j.nodes).idxOf p + 1) a⟩ := by
  have harrays : (arrayAddresses j.nodes).Nodup := (pairwise_arrayAddresses h).imp Precedes.ne
  rw [fields, Field.sortByPath, (List.mergeSort_perm _ _).mem_iff, leaves_eq_spots, spots_eq j (counts_idxOf harrays),
    List.map_map, List.mem_map]
  simp only [mem_leafNodes_iff h.uniqueKeys]
  constructor
  · rintro ⟨⟨a, x⟩, ⟨hget, hscalar⟩, rfl⟩
    exact ⟨a, x, hget, hscalar, rfl⟩
  · rintro ⟨a, x, hget, hscalar, rfl⟩
    exact ⟨(a, x), ⟨hget, hscalar⟩, rfl⟩

end Json

/-! ## One path for the same keys -/

namespace Path

open Json (keysOf)

/-- The fields of a pattern are the arrays that members alone lead to, and those of an event the
scalars. Both have the path of the keys on the way, so a scalar that is reached along the keys of
an array has the path of the array, whatever arrays of the event are on the way. Legible keys
can be told from the path. -/
theorem fields_along_keys {text : String} {event : Bytes} {fields : List PatternField} {found : List Field}
    (hp : Pattern.parse text = .ok fields) (he : Json.flatten event = .ok found) :
    (∃ pattern value : Json, Json.parse? text = some pattern ∧ Json.parseBytes? event = some value ∧
      let number := fun p => (Json.arrayAddresses value.nodes).idxOf p + 1
      (∀ f, f ∈ fields ↔ ∃ (keys : List String) (items : List Json),
        pattern.get? (keys.map .key) = some (.arr items) ∧ f.path = ofKeys keys ∧ items ≠ [] ∧
          List.Forall₂ Pattern.Denotes items f.values) ∧
      (∀ e, e ∈ found ↔ ∃ a x, value.get? a = some x ∧ x.isScalar = true ∧
        e = ⟨ofKeys (keysOf a), x.rendering, Json.trail number a⟩) ∧
      ∀ (keys : List String) (items : List Json) (a : Json.Address) (x : Json),
        pattern.get? (keys.map .key) = some (.arr items) →
        value.get? a = some x → x.isScalar = true → keysOf a = keys →
        ∃ f ∈ fields, f.path = ofKeys keys ∧ List.Forall₂ Pattern.Denotes items f.values ∧
          ⟨f.path, x.rendering, Json.trail number a⟩ ∈ found) ∧
    (∀ keys, ofKeys keys = separator.intercalate (keys.dropWhile String.isEmpty)) ∧
    ∀ ks ls, Legible ks → Legible ls → ofKeys ks = ofKeys ls → ks = ls := by
  refine ⟨?_, ofKeys_eq_intercalate, fun ks ls => ofKeys_inj⟩
  obtain ⟨members, _, hpattern, -⟩ := Pattern.parse_eq_ok hp
  obtain ⟨members', hvalue, rfl⟩ := Json.exists_obj_of_flatten he
  have hfields := fun f => Pattern.mem_of_parse_iff hpattern hp (f := f)
  have hfound := fun e => Json.mem_fields_iff (Json.keysSorted_of_parseBytes? hvalue) (e := e)
  refine ⟨.obj members, .obj members', hpattern, hvalue, fun f => ?_, hfound, ?_⟩
  · rw [hfields]
    simp only [Pattern.isField_array_iff]
  · rintro keys items a x harray hx hscalar rfl
    obtain ⟨f, hf⟩ := Pattern.exists_isField_of_parse hpattern hp harray
    obtain ⟨hpath, -, hvalues⟩ := Pattern.isField_array_iff.mp hf
    refine ⟨f, (hfields f).mpr ⟨_, items, harray, hf⟩, hpath, hvalues, (hfound _).mpr ⟨a, x, hx, hscalar, ?_⟩⟩
    rw [hpath]

/-- An empty key that is not the first shows in both paths, arrays do not. -/
theorem fields_along_keys_nested : (∃ fields found,
    Pattern.parse "\x7b\"a\":\x7b\"\":\x7b\"b\":[\"x\"]\x7d\x7d\x7d" = .ok fields ∧
    Json.flatten (Bytes.ofString "\x7b\"a\":[\x7b\"\":[[\x7b\"b\":\"x\"\x7d]]\x7d]\x7d") = .ok found ∧
    ∃ f ∈ fields, f.path = "a\n\nb" ∧ List.Forall₂ Pattern.Denotes [.str "x"] f.values ∧
      ⟨f.path, (Json.str "x").rendering, [⟨1, 0⟩, ⟨2, 0⟩, ⟨3, 0⟩]⟩ ∈ found) ∧
    Legible ["a", "", "b"] ∧ Legible ["a", "b"] ∧ ofKeys ["a", "", "b"] ≠ ofKeys ["a", "b"] := by
  have hpattern : Json.parse? "\x7b\"a\":\x7b\"\":\x7b\"b\":[\"x\"]\x7d\x7d\x7d" =
      some (.obj [("a", .obj [("", .obj [("b", .arr [.str "x"])])])]) := by
    have htext : (Json.obj [("a", .obj [("", .obj [("b", .arr [.str "x"])])])]).text =
        "\x7b\"a\":\x7b\"\":\x7b\"b\":[\"x\"]\x7d\x7d\x7d" := by decide
    rw [← htext]
    exact Json.parse?_text
      ⟨126, rfl, ⟨125, rfl, ⟨124, rfl, ⟨123, rfl, trivial, trivial⟩, trivial⟩, trivial⟩, trivial⟩ rfl
  have hvalue : Json.parseBytes? (Bytes.ofString "\x7b\"a\":[\x7b\"\":[[\x7b\"b\":\"x\"\x7d]]\x7d]\x7d") =
      some (.obj [("a", .arr [.obj [("", .arr [.arr [.obj [("b", .str "x")]]])]])]) := by
    have htext : (Json.obj [("a", .arr [.obj [("", .arr [.arr [.obj [("b", .str "x")]]])]])]).text =
        "\x7b\"a\":[\x7b\"\":[[\x7b\"b\":\"x\"\x7d]]\x7d]\x7d" := by decide
    rw [Json.parseBytes?_ofString, ← htext]
    exact Json.parse?_text ⟨126, rfl, ⟨125, rfl, ⟨124, rfl, ⟨123, rfl, ⟨122, rfl, ⟨121, rfl, trivial, trivial⟩, trivial⟩,
      trivial⟩, trivial⟩, trivial⟩, trivial⟩ rfl
  have hp : Pattern.parse "\x7b\"a\":\x7b\"\":\x7b\"b\":[\"x\"]\x7d\x7d\x7d" =
      .ok [⟨"a\n\nb", [.literal (Bytes.ofString (Json.str "x").text)]⟩] := by
    rw [Pattern.parse, hpattern]
    exact congrArg Except.ok (List.mergeSort_singleton _)
  have he : Json.flatten (Bytes.ofString "\x7b\"a\":[\x7b\"\":[[\x7b\"b\":\"x\"\x7d]]\x7d]\x7d") =
      .ok [⟨"a\n\nb", Bytes.ofString (Json.str "x").text, [⟨1, 0⟩, ⟨2, 0⟩, ⟨3, 0⟩]⟩] := by
    rw [Json.flatten, hvalue]
    exact congrArg Except.ok (List.mergeSort_singleton _)
  have hempty : Legible ["a", "", "b"] := ⟨by decide, by decide⟩
  have hplain : Legible ["a", "b"] := ⟨by decide, by decide⟩
  obtain ⟨⟨pattern, value, hpattern', hvalue', -, -, hagree⟩, -, hinj⟩ := fields_along_keys hp he
  obtain rfl := Option.some.inj (hpattern.symm.trans hpattern')
  obtain rfl := Option.some.inj (hvalue.symm.trans hvalue')
  refine ⟨⟨_, _, hp, he, ?_⟩, hempty, hplain, fun h => absurd (hinj _ _ hempty hplain h) (by decide)⟩
  exact hagree ["a", "", "b"] [.str "x"] [.key "a", .index 0, .key "", .index 0, .index 0, .key "b"] (.str "x")
    rfl rfl rfl rfl

end Path

end EventMatch
