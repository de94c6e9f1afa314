import EventMatch.Proofs.Matcher.JsonEvents

/-!
# Trails along a match

The search compares the trail of a field with that of the field taken just before it.
`Matcher.mem_matchFields_iff_chain`: an identifier is reported if the gates of one of its
patterns take fields in order of which neighbours are compatible. Neighbours alone
do not keep a match within one element of an array: two fields from different elements pass if
one that lies in no array is taken between them (`Matcher.matchFields_across_elements`).
They do where arrays are `Unbroken`.
-/

namespace EventMatch

open Compile

variable {ι : Type}

/-- An array that two of the fields lie in holds all fields between them too. -/
def Field.Unbroken (fs : List Field) : Prop :=
  ∀ f g h, [f, g, h].Sublist fs → ∀ p ∈ f.trail, ∀ q ∈ h.trail, p.array = q.array →
    ∃ r ∈ g.trail, r.array = p.array

namespace Field

theorem Unbroken.sublist {fs gs : List Field} (hu : Unbroken gs) (hs : fs.Sublist gs) : Unbroken fs :=
  fun f g h hsub => hu f g h (hsub.trans hs)

/-- With no field between them, two fields are always unbroken. -/
theorem unbroken_of_length_le {fs : List Field} (h : fs.length ≤ 2) : Unbroken fs := by
  intro f g k hsub
  have hlen := hsub.length_le
  simp only [List.length_cons, List.length_nil] at hlen
  omega

/-- Fields that all have the same trail. -/
theorem unbroken_of_trail {fs : List Field} (trail : List ArrayPos) (h : ∀ f ∈ fs, f.trail = trail) : Unbroken fs := by
  intro f g k hsub p hp _ _ _
  have hmem : ∀ x ∈ [f, g, k], x.trail = trail := fun x hx => h x (hsub.subset hx)
  exact ⟨p, by rwa [hmem g (by simp), ← hmem f (by simp)], rfl⟩

/-- Compatibility of neighbours goes on from field to field as long as the arrays do. -/
theorem Unbroken.pairwise {fs : List Field} (hu : Unbroken fs)
    (hc : fs.IsChain fun f g => f.compatible g = true) : fs.Pairwise fun f g => f.compatible g = true := by
  induction fs with
  | nil => exact .nil
  | cons f fs ih =>
    have hrest := ih (hu.sublist (List.sublist_cons_self f fs)) hc.tail
    refine List.pairwise_cons.mpr ⟨fun h hh => ?_, hrest⟩
    cases fs with
    | nil => cases hh
    | cons g fs =>
      have hfg := (List.isChain_cons_cons.mp hc).1
      rcases List.mem_cons.mp hh with rfl | hh
      · exact hfg
      · have hgh := (List.pairwise_cons.mp hrest).1 h hh
        have hsub : [f, g, h].Sublist (f :: g :: fs) :=
          ((List.singleton_sublist.mpr hh).cons_cons g).cons_cons f
        rw [Field.compatible_iff] at hfg hgh ⊢
        intro p hp q hq he
        obtain ⟨r, hr, hra⟩ := hu f g h hsub p hp q hq he
        exact (hfg p hp r hr hra.symm).trans (hgh r hr q hq (hra.trans he))

end Field

/-- The pattern's gates take these of the fields, in the order of paths, and of those taken each is
compatible with the next. -/
structure Solo.TakesChain (p : Solo ι) (fields fs : List Field) : Prop where
  sublist : fs.Sublist (Field.sortByPath fields)
  takes : List.Forall₂ Takes p.gates fs
  chain : fs.IsChain fun f g => f.compatible g = true

/-- The pattern's gates take one field each, of which no two lie in different elements of one array. -/
def Solo.TakesTogether (p : Solo ι) (fields : List Field) : Prop :=
  ∃ fs, (∀ f ∈ fs, f ∈ fields) ∧ List.Forall₂ Takes p.gates fs ∧ fs.Pairwise fun f g => f.compatible g = true

theorem Solo.TakesChain.takesTogether {p : Solo ι} {fields fs : List Field} (h : p.TakesChain fields fs)
    (hu : Field.Unbroken fs) : p.TakesTogether fields :=
  ⟨fs, fun _ hf => Field.mem_sortByPath.mp (h.sublist.subset hf), h.takes, hu.pairwise h.chain⟩

/-- Patterns interpreted one by one report those of which the gates take such fields. -/
theorem Solo.mem_interpret_iff_chain [BEq ι] [LawfulBEq ι] {parser : Option SpecParser}
    {patterns : List (ι × String)} {ps : List (Solo ι)} {s s' : Supply}
    (hc : (Solo.compileAll parser patterns).exec s = (.ok ps, s')) {fields : List Field} {x : ι} :
    x ∈ Solo.interpret ps fields ↔
      ∃ text p fs, ((x, text), p) ∈ patterns.zip ps ∧ p.TakesChain fields fs := by
  obtain ⟨hlen, hzip⟩ := List.forall₂_iff_zip.mp (Solo.forall₂_of_exec hc)
  rw [Solo.mem_interpret]
  constructor
  · rintro ⟨⟨id, gates⟩, hmem, hx⟩
    rw [← List.map_snd_zip (Nat.le_of_eq hlen.symm)] at hmem
    obtain ⟨⟨⟨y, text⟩, p⟩, hzipped, rfl⟩ := List.mem_map.mp hmem
    obtain ⟨rfl, -, fs, hs, ht, hchain⟩ := Solo.mem_search_iff.mp hx
    obtain ⟨t, t', hcompile⟩ := hzip hzipped
    obtain rfl := Solo.id_of_exec_compile hcompile
    exact ⟨text, _, fs, hzipped, hs, ht, hchain⟩
  · rintro ⟨text, p, fs, hzipped, hs, ht, hchain⟩
    obtain ⟨t, t', hcompile⟩ := hzip hzipped
    obtain ⟨-, -, hid, hne, -⟩ := Solo.map_fst_gates hcompile
    exact ⟨p, (List.of_mem_zip hzipped).2, Solo.mem_search_iff.mpr ⟨hid.symm, hne, fs, hs, ht, hchain⟩⟩

/-- A step of which something is known when it succeeds, and which does. -/
theorem Compile.exists_exec_eq_ok {α γ : Type} {x : Compile α} {s : Supply} {f : α → γ} {c : γ}
    (h : (x.exec s).1.toOption.map f = some c) : ∃ a t, x.exec s = (.ok a, t) ∧ f a = c := by
  rcases hx : x.exec s with ⟨r, t⟩
  rw [hx] at h
  cases r with
  | error e => cases h
  | ok a => exact ⟨a, t, rfl, Option.some.inj h⟩

/-! ## Three fields -/

/-- Three fields that say `true`, with their trails. -/
def Field.abreast (first second third : List ArrayPos) : List Field :=
  [⟨"x", Bytes.ofString "true", first⟩, ⟨"y", Bytes.ofString "true", second⟩, ⟨"z", Bytes.ofString "true", third⟩]

theorem Field.sortByPath_abreast {first second third : List ArrayPos} {fields : List Field}
    (hp : (Field.abreast first second third).Perm fields) :
    Field.sortByPath fields = Field.abreast first second third := by
  have hpaths : ((Field.abreast first second third).map Field.path).Pairwise
      fun p q => Bytes.leString p q = true ∧ p ≠ q := by
    show ["x", "y", "z"].Pairwise _
    decide +kernel
  exact Field.sortByPath_eq hp (List.pairwise_map.mp hpaths)

/-- The pattern that has a field for each of the three. -/
theorem Pattern.parse_abreast : Pattern.parse "\x7b\"x\":[true],\"y\":[true],\"z\":[true]\x7d" =
    .ok (["x", "y", "z"].map fun path => ⟨path, [.literal (Bytes.ofString "true")]⟩) :=
  Pattern.parse_of_unsorted (by decide +kernel) (by simp) (by decide +kernel)

/-- The pattern is reported if all three fields lie in one element of an array, and also if the outer
two lie in different elements and the middle one in no array. -/
theorem Matcher.exists_matchFields_abreast : ∃ m,
    (Matcher.empty Json.flatten none 0).addAll [(true, "\x7b\"x\":[true],\"y\":[true],\"z\":[true]\x7d")] =
      (.ok (), m) ∧
    true ∈ m.matchFields (Field.abreast [⟨1, 0⟩] [⟨1, 0⟩] [⟨1, 0⟩]) ∧
    true ∈ m.matchFields (Field.abreast [⟨1, 0⟩] [] [⟨1, 1⟩]) := by
  obtain ⟨root, t, hx, hsearch⟩ : ∃ root t, ((Matcher.empty Json.flatten none 0 : Matcher Bool).extend true
      "\x7b\"x\":[true],\"y\":[true],\"z\":[true]\x7d").exec ⟨1, 0⟩ = (.ok root, t) ∧
      (root.search none (Field.abreast [⟨1, 0⟩] [⟨1, 0⟩] [⟨1, 0⟩]),
        root.search none (Field.abreast [⟨1, 0⟩] [] [⟨1, 1⟩])) = ([true], [true]) := by
    rw [Matcher.extend, Pattern.parse_abreast]
    refine Compile.exists_exec_eq_ok (f := fun root : Junction Bool =>
      (root.search none (Field.abreast [⟨1, 0⟩] [⟨1, 0⟩] [⟨1, 0⟩]),
        root.search none (Field.abreast [⟨1, 0⟩] [] [⟨1, 1⟩]))) ?_
    decide +kernel
  obtain ⟨hwithin, hacross⟩ := Prod.mk.inj hsearch
  obtain ⟨m, hadd, rfl⟩ : ∃ m, (Matcher.empty Json.flatten none 0).add true
      "\x7b\"x\":[true],\"y\":[true],\"z\":[true]\x7d" = (.ok (), m) ∧ m.root = root :=
    ⟨_, Matcher.add_of_ok hx, rfl⟩
  refine ⟨m, by rw [Matcher.addAll, hadd]; rfl, ?_, ?_⟩
  · rw [Matcher.matchFields, Field.sortByPath_abreast (.refl _), hwithin]
    decide
  · rw [Matcher.matchFields, Field.sortByPath_abreast (.refl _), hacross]
    decide

theorem Field.trail_of_mem_abreast {first second third : List ArrayPos} {f : Field}
    (hm : f ∈ Field.abreast first second third) :
    (f.path = "x" → f.trail = first) ∧ (f.path = "z" → f.trail = third) := by
  simp only [Field.abreast, List.mem_cons, List.not_mem_nil, or_false] at hm
  rcases hm with rfl | rfl | rfl <;> simp

/-! ## What is reported -/

/-- A matcher reports an identifier just if the gates of one of its patterns take fields
of which neighbours are compatible. The fields taken are all compatible with each other
if the arrays are unbroken, or if no pattern has more than two fields. -/
theorem Matcher.mem_matchFields_iff_chain [BEq ι] [LawfulBEq ι] (flattener : Flattener)
    (parser : Option SpecParser) (asked : Nat) (patterns : List (ι × String)) (m : Matcher ι)
    (h : (Matcher.empty flattener parser asked).addAll patterns = (.ok (), m)) :
    ∃ ps s, (Solo.compileAll parser patterns).exec ⟨0, asked⟩ = (.ok ps, s) ∧ ∀ fields x,
      (x ∈ m.matchFields fields ↔
        ∃ text p fs, ((x, text), p) ∈ patterns.zip ps ∧ p.TakesChain fields fs) ∧
      (Field.Unbroken (Field.sortByPath fields) ∨ (∀ p ∈ ps, p.gates.length ≤ 2) →
        x ∈ m.matchFields fields →
          ∃ text p, ((x, text), p) ∈ patterns.zip ps ∧ p.TakesTogether fields) := by
  obtain ⟨S, firsts, hroot, -, hall⟩ := Matcher.addAll_ok (rootOk_empty flattener parser asked) h
  obtain ⟨ps, s, hcompile, -, hbegins⟩ := hall ⟨0, asked⟩ rfl
  have hiff : ∀ fields x, x ∈ m.matchFields fields ↔
      ∃ text p fs, ((x, text), p) ∈ patterns.zip ps ∧ p.TakesChain fields fs := fun fields x => by
    rw [hroot.matchFields_eq hbegins, Solo.mem_interpret_iff_chain hcompile]
  refine ⟨ps, s, hcompile, fun fields x => ⟨hiff fields x, fun hcond hx => ?_⟩⟩
  obtain ⟨text, p, fs, hzipped, hchain⟩ := (hiff fields x).mp hx
  refine ⟨text, p, hzipped, hchain.takesTogether ?_⟩
  rcases hcond with hu | hlen
  · exact hu.sublist hchain.sublist
  · refine Field.unbroken_of_length_le ?_
    rw [← hchain.takes.length_eq]
    exact hlen p (List.of_mem_zip hzipped).2

/-- Three fields in one element of an array. -/
theorem Matcher.mem_matchFields_iff_chain_abreast :
    ∃ (patterns : List (Bool × String)) (m : Matcher Bool) (ps : List (Solo Bool)) (s : Supply),
      patterns = [(true, "\x7b\"x\":[true],\"y\":[true],\"z\":[true]\x7d")] ∧
      (Matcher.empty Json.flatten none 0).addAll patterns = (.ok (), m) ∧
      (Solo.compileAll none patterns).exec ⟨0, 0⟩ = (.ok ps, s) ∧
      true ∈ m.matchFields (Field.abreast [⟨1, 0⟩] [⟨1, 0⟩] [⟨1, 0⟩]) ∧
      ∃ text p, ((true, text), p) ∈ patterns.zip ps ∧
        p.TakesTogether (Field.abreast [⟨1, 0⟩] [⟨1, 0⟩] [⟨1, 0⟩]) := by
  obtain ⟨m, hm, hmem, -⟩ := Matcher.exists_matchFields_abreast
  obtain ⟨ps, s, hcompile, h⟩ := Matcher.mem_matchFields_iff_chain Json.flatten none 0 _ m hm
  have hunbroken : Field.Unbroken (Field.sortByPath (Field.abreast [⟨1, 0⟩] [⟨1, 0⟩] [⟨1, 0⟩])) := by
    refine Field.unbroken_of_trail [⟨1, 0⟩] fun f hf => ?_
    rw [Field.mem_sortByPath] at hf
    simp only [Field.abreast, List.mem_cons, List.not_mem_nil, or_false] at hf
    rcases hf with rfl | rfl | rfl <;> rfl
  exact ⟨_, m, ps, s, rfl, hm, hcompile, hmem, (h _ true).2 (.inl hunbroken) hmem⟩

/-- Gates at the paths of three fields of which two are not compatible cannot take them together. -/
theorem Solo.not_takesTogether_abreast {p : Solo ι} (h : p.gates.map Prod.fst = ["x", "y", "z"]) :
    ¬ p.TakesTogether (Field.abreast [⟨1, 0⟩] [] [⟨1, 1⟩]) := by
  rintro ⟨fs, hm, ht, hp⟩
  have hpath := Takes.map_path ht
  rw [h] at hpath
  obtain ⟨f, fs, rfl, hf, hpath⟩ := List.map_eq_cons_iff.mp hpath.symm
  obtain ⟨g, fs, rfl, -, hpath⟩ := List.map_eq_cons_iff.mp hpath
  obtain ⟨k, fs, rfl, hk, -⟩ := List.map_eq_cons_iff.mp hpath
  have hfirst := (Field.trail_of_mem_abreast (hm f (by simp))).1 hf
  have hlast := (Field.trail_of_mem_abreast (hm k (by simp))).2 hk
  have hcompat := (List.pairwise_cons.mp hp).1 k (by simp)
  rw [Field.compatible, hfirst, hlast] at hcompat
  exact absurd hcompat (by decide)

/-- An event has such fields if the array stands at the empty key, which does not show in paths. -/
theorem Json.flatten_abreast :
    Json.flatten (Bytes.ofString "\x7b\"\":[\x7b\"x\":true\x7d,\x7b\"z\":true\x7d],\"y\":true\x7d") =
      .ok (Field.abreast [⟨1, 0⟩] [] [⟨1, 1⟩]) := by
  have hleaves : (Json.parseBytes?
      (Bytes.ofString "\x7b\"\":[\x7b\"x\":true\x7d,\x7b\"z\":true\x7d],\"y\":true\x7d")).map
      (fun event => (event.leaves "" [] 0).1) =
        some [⟨"x", Bytes.ofString "true", [⟨1, 0⟩]⟩, ⟨"z", Bytes.ofString "true", [⟨1, 1⟩]⟩,
          ⟨"y", Bytes.ofString "true", []⟩] := by
    decide +kernel
  obtain ⟨members, hj⟩ := Json.exists_members (j := Json.parseBytes?
    (Bytes.ofString "\x7b\"\":[\x7b\"x\":true\x7d,\x7b\"z\":true\x7d],\"y\":true\x7d")) (by decide +kernel)
  rw [hj] at hleaves
  rw [Json.flatten, hj]
  simp only [Json.fields, Option.some.inj hleaves, Except.ok.injEq]
  exact Field.sortByPath_abreast (.cons _ (.swap _ _ _))

/-- The pattern is reported for an event although no choice of its fields keeps to one element of
the array. -/
theorem Matcher.matchFields_across_elements :
    ∃ (patterns : List (Bool × String)) (m : Matcher Bool) (ps : List (Solo Bool)) (s : Supply) (fields : List Field),
      patterns = [(true, "\x7b\"x\":[true],\"y\":[true],\"z\":[true]\x7d")] ∧
      (Matcher.empty Json.flatten none 0).addAll patterns = (.ok (), m) ∧
      (Solo.compileAll none patterns).exec ⟨0, 0⟩ = (.ok ps, s) ∧
      Json.flatten (Bytes.ofString "\x7b\"\":[\x7b\"x\":true\x7d,\x7b\"z\":true\x7d],\"y\":true\x7d") =
        .ok fields ∧
      true ∈ m.matchFields fields ∧ ¬ ∃ text p, ((true, text), p) ∈ patterns.zip ps ∧ p.TakesTogether fields := by
  obtain ⟨m, hm, -, hmem⟩ := Matcher.exists_matchFields_abreast
  obtain ⟨_, _, _, _, hcompile⟩ := Matcher.addAll_ok (rootOk_empty Json.flatten none 0) hm
  obtain ⟨ps, s, hcompile, -, -⟩ := hcompile ⟨0, 0⟩ rfl
  refine ⟨_, m, ps, s, _, rfl, hm, hcompile, Json.flatten_abreast, hmem, ?_⟩
  rintro ⟨text, p, hzipped, ht⟩
  obtain ⟨hlen, hzip⟩ := List.forall₂_iff_zip.mp (Solo.forall₂_of_exec hcompile)
  obtain ⟨t, t', halone⟩ := hzip hzipped
  obtain ⟨fields, preds, _, _, _, _, hparse, -, -, hchain⟩ := Solo.of_exec_compile halone
  obtain ⟨-, rfl⟩ := Prod.mk.inj (List.mem_singleton.mp (List.of_mem_zip hzipped).1)
  cases Pattern.parse_abreast.symm.trans hparse
  exact Solo.not_takesTogether_abreast hchain.map_path ht

end EventMatch
