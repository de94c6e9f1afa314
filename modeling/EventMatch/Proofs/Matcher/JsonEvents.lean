import EventMatch.Proofs.Matcher.Alone
import EventMatch.Proofs.Matcher.Search
import EventMatch.Proofs.Numeric.Clause
import EventMatch.Proofs.Pattern.Leaves

/-!
# Matching JSON events

What it means that a pattern fits an event is said without trails and sorting
(`Solo.Fits`): one element can be chosen of every array so that each array of the
pattern finds one of its values among what is left. The search compares the trails of
neighbours only, and yet finds just the patterns that fit (`Solo.mem_search_fields`);
so a matcher answers for these (`Matcher.matchEvent_iff_fits`).
-/

namespace EventMatch

open Compile

variable {ι : Type}

/-- One element can be chosen of each of the event's arrays so that every array of the
pattern finds at its keys, among the scalars left, one that its gate lets pass. -/
def Solo.Fits (p : Solo ι) (pattern event : Json) : Prop :=
  ∃ thinned, Json.Thins event thinned ∧ ∀ leaf ∈ pattern.valueLists, ∃ gate value,
    (Path.ofKeys leaf.1, gate) ∈ p.gates ∧ (leaf.1, value) ∈ thinned.scalars ∧ gate.pass value ≠ []

/-! ## Lists -/

theorem map_ofKeys_inj : ∀ {as bs : List (List String)}, (∀ ks ∈ as, ∀ key ∈ ks, Path.Plain key) →
    (∀ ks ∈ bs, ∀ key ∈ ks, Path.Plain key) → as.map Path.ofKeys = bs.map Path.ofKeys → as = bs
  | [], [], _, _, _ => rfl
  | [], _ :: _, _, _, h => nomatch h
  | _ :: _, [], _, _, h => nomatch h
  | a :: as, b :: bs, ha, hb, h => by
    obtain ⟨h, ht⟩ := List.cons.inj h
    rw [Path.ofKeys_inj (Path.legible_of_plain (ha a List.mem_cons_self))
        (Path.legible_of_plain (hb b List.mem_cons_self)) h,
      map_ofKeys_inj (fun ks hk => ha ks (List.mem_cons_of_mem _ hk))
        (fun ks hk => hb ks (List.mem_cons_of_mem _ hk)) ht]

/-- What is related to each element of a list makes a list. -/
theorem exists_forall₂ {α γ : Type} {r : α → γ → Prop} {s : γ → Prop} {as : List α}
    (h : ∀ a ∈ as, ∃ c, s c ∧ r a c) : ∃ cs, (∀ c ∈ cs, s c) ∧ List.Forall₂ r as cs := by
  obtain ⟨cs, hcs⟩ := exists_forall₂_iff.mpr h
  obtain ⟨hs, hr⟩ := (List.forall₂_and_left cs as).mp hcs.flip
  exact ⟨cs, hs, hr.flip⟩

theorem Takes.map_path {gates : List (String × Gate ι)} {fs : List Field} (h : List.Forall₂ Takes gates fs) :
    gates.map Prod.fst = fs.map Field.path := by
  induction h with
  | nil => rfl
  | cons ht _ ih => rw [List.map_cons, List.map_cons, ht.1, ih]

theorem ChainOk.map_path {S : Set (State (Junction ι))} {lo n : Nat} {id : ι} {j : Junction ι}
    {gates : List (String × Gate ι)} {fields : List PatternField} {preds : List (List Predicate)}
    (h : ChainOk S lo n id j gates fields preds) : gates.map Prod.fst = fields.map (·.path) := by
  induction h with
  | done => rfl
  | field _ _ _ _ _ _ ih => rw [List.map_cons, List.map_cons, ih]

/-! ## One pattern -/

/-- The gates of a pattern stand at the paths of its arrays, in their order. -/
theorem Solo.map_fst_gates {parser : Option SpecParser} {id : ι} {text : String} {s s' : Supply} {p : Solo ι}
    (h : (Solo.compile parser id text).exec s = (.ok p, s')) : ∃ pattern, Json.parse? text = some pattern ∧
      p.id = id ∧ p.gates ≠ [] ∧ p.gates.map Prod.fst = pattern.leafKeys.map Path.ofKeys := by
  obtain ⟨fields, preds, _, _, _, _, hp, _, hid, hc⟩ := Solo.of_exec_compile h
  obtain ⟨pattern, hj, hpath⟩ := Pattern.map_path_of_parse hp
  refine ⟨pattern, hj, hid, fun he => ?_, hc.map_path.trans hpath⟩
  rw [he] at hc
  exact (Pattern.proper_of_parse hp).1 (List.map_eq_nil_iff.mp hc.map_path.symm)

section

variable {p : Solo ι} {pattern event : Json} (hu : pattern.UniqueKeys) (hp : Json.PlainKeys pattern.valueLists)
  (hgates : p.gates.map Prod.fst = pattern.leafKeys.map Path.ofKeys)

include hu hp hgates

/-- Fields that the gates take, of which each is compatible with the next, show that the pattern fits. -/
theorem Solo.fits_of_fields (hue : event.UniqueKeys) (he : Json.PlainKeys event.scalars) {fs : List Field}
    (hm : ∀ f ∈ fs, f ∈ (event.leaves "" [] 0).1) (ht : List.Forall₂ Takes p.gates fs)
    (hc : fs.IsChain fun f g => f.compatible g = true) : p.Fits pattern event := by
  obtain ⟨ls, hls, rfl⟩ : ∃ ls : List Spot, (∀ l ∈ ls, l ∈ (event.spots 0).1) ∧
      ls.map (Spot.field "" []) = fs := by
    rw [Json.leaves_eq_spots] at hm
    obtain ⟨ls, hls, hfs⟩ := exists_forall₂ fun f hf => List.mem_map.mp (hm f hf)
    have heq : List.Forall₂ (· = ·) (ls.map (Spot.field "" [])) fs := List.forall₂_map_left_iff.mpr hfs.flip
    rw [List.forall₂_eq_eq_eq] at heq
    exact ⟨ls, hls, heq⟩
  have hscalar : ∀ l ∈ ls, l.scalar ∈ event.scalars := fun l hl => by
    rw [← Json.map_scalar_spots event 0]
    exact List.mem_map_of_mem (hls l hl)
  have hkeys : ls.map Spot.keys = pattern.leafKeys := by
    refine map_ofKeys_inj (List.forall_mem_map.mpr fun l hl => he _ (hscalar l hl)) hp.leafKeys ?_
    rw [← hgates, Takes.map_path ht, List.map_map, List.map_map]
    rfl
  have hagree : ls.IsChain Spot.Agrees :=
    ((List.isChain_map _).mp hc).imp fun l l' h =>
      Field.compatible_iff (f := l.field "" []) (g := l'.field "" []) |>.mp h
  have hcontiguous : Contiguous (ls.map Spot.keys) := hkeys ▸ Json.contiguous_leafKeys hu hp
  obtain ⟨thinned, hthin, hs⟩ := Json.exists_thin event 0 hue hls hagree hcontiguous
  refine ⟨thinned, hthin, fun leaf hleaf => ?_⟩
  obtain ⟨l, hl, hk⟩ := List.mem_map.mp (hkeys ▸ Json.mem_leafKeys.mpr ⟨leaf, hleaf, rfl⟩)
  obtain ⟨⟨path, gate⟩, hg, hpath, hpass⟩ := exists_of_mem_right ht (List.mem_map_of_mem hl)
  refine ⟨gate, l.value, ?_, hk ▸ hs l hl, hpass⟩
  rwa [← hk, show Path.ofKeys l.keys = path from hpath.symm]

/-- If the pattern fits, its gates take fields that are all compatible. -/
theorem Solo.fields_of_fits (h : p.Fits pattern event) : ∃ fs : List Field,
    (∀ f ∈ fs, f ∈ (event.leaves "" [] 0).1) ∧ List.Forall₂ Takes p.gates fs ∧
      ∀ f ∈ fs, ∀ g ∈ fs, f.compatible g = true := by
  obtain ⟨thinned, hthin, hall⟩ := h
  obtain ⟨ls, hls, hagree, hs⟩ := hthin.exists_spots 0
  have hnodup : (p.gates.map Prod.fst).Nodup := hgates ▸ (Json.pairwise_ofKeys_leafKeys hu hp).imp And.right
  have htake : ∀ g ∈ p.gates, ∃ f, (∃ l ∈ ls, l.field "" [] = f) ∧ Takes g f := fun g hg => by
    obtain ⟨ks, hks, hpath⟩ := List.mem_map.mp (hgates ▸ List.mem_map_of_mem hg)
    obtain ⟨leaf, hleaf, rfl⟩ := Json.mem_leafKeys.mp hks
    obtain ⟨gate, value, hgate, hvalue, hpass⟩ := hall leaf hleaf
    obtain rfl := List.inj_on_of_nodup_map hnodup hgate hg hpath
    rw [← hs] at hvalue
    obtain ⟨l, hl, hlv⟩ := List.mem_map.mp hvalue
    obtain ⟨hkeys, hval⟩ := Prod.mk.inj hlv
    exact ⟨_, ⟨l, hl, rfl⟩, congrArg Path.ofKeys hkeys.symm, by rwa [Spot.field, hval]⟩
  obtain ⟨fs, hfs, ht⟩ := exists_forall₂ htake
  refine ⟨fs, fun f hf => ?_, ht, fun f hf g hg => ?_⟩
  · obtain ⟨l, hl, rfl⟩ := hfs f hf
    rw [Json.leaves_eq_spots]
    exact List.mem_map_of_mem (hls l hl)
  · obtain ⟨l, hl, rfl⟩ := hfs f hf
    obtain ⟨l', hl', rfl⟩ := hfs g hg
    exact Field.compatible_iff.mpr (hagree l hl l' hl')

/-- The search finds the patterns that fit, although it compares neighbours only. -/
theorem Solo.mem_search_fields (hne : p.gates ≠ []) (hue : event.UniqueKeys)
    (he : Json.PlainKeys event.scalars) {x : ι} : x ∈ Solo.search [p] none (Field.sortByPath event.fields) ↔
      x = p.id ∧ p.Fits pattern event := by
  have hmem : ∀ f, f ∈ Field.sortByPath event.fields ↔ f ∈ (event.leaves "" [] 0).1 := fun f => by
    rw [Field.mem_sortByPath, Json.fields, Field.mem_sortByPath]
  rw [Solo.mem_search_iff]
  refine and_congr_right fun _ => ⟨fun ⟨_, fs, hs, ht, hc⟩ => ?_, fun h => ?_⟩
  · exact fits_of_fields hu hp hgates hue he (fun f hf => (hmem f).mp (hs.subset hf)) ht hc
  · obtain ⟨fs, hm, ht, hc⟩ := fields_of_fits hu hp hgates h
    refine ⟨hne, fs, Field.sublist_sortByPath (fun f hf => ?_) ?_, ht, ?_⟩
    · exact Field.mem_sortByPath.mpr (hm f hf)
    · have hsorted := Json.pairwise_ofKeys_leafKeys hu hp
      rw [← hgates, Takes.map_path ht] at hsorted
      exact List.pairwise_map.mp hsorted
    · exact (List.pairwise_of_forall_mem_list hc).isChain

end

/-! ## Matchers -/

variable [BEq ι]

theorem Matcher.flattener_add (m : Matcher ι) (id : ι) (text : String) :
    (m.add id text).2.flattener = m.flattener := by
  rw [Matcher.add]
  split <;> rfl

theorem Matcher.flattener_addAll : ∀ (patterns : List (ι × String)) (m : Matcher ι),
    (m.addAll patterns).2.flattener = m.flattener
  | [], _ => rfl
  | (id, text) :: rest, m => by
    have hadd := m.flattener_add id text
    rw [Matcher.addAll]
    generalize m.add id text = r at hadd
    obtain ⟨r, m'⟩ := r
    cases r with
    | ok _ => exact (flattener_addAll rest m').trans hadd
    | error e => exact hadd

/-- A matcher reports for an event the identifiers of just those patterns that fit it,
each with the gates to which it compiles alone. -/
theorem Matcher.matchEvent_iff_fits [LawfulBEq ι] (parser : Option SpecParser) (asked : Nat)
    (patterns : List (ι × String)) (m : Matcher ι)
    (h : (Matcher.empty Json.flatten parser asked).addAll patterns = (.ok (), m))
    (hp : ∀ p ∈ patterns, ∀ pattern, Json.parse? p.2 = some pattern → Json.PlainKeys pattern.valueLists)
    (event : Bytes) (members : List (String × Json)) (hj : Json.parseBytes? event = some (.obj members))
    (he : Json.PlainKeys (Json.obj members).scalars) :
    ∃ ps s ids, (Solo.compileAll parser patterns).exec ⟨0, asked⟩ = (.ok ps, s) ∧ m.matchEvent event = .ok ids ∧
      ∀ x, x ∈ ids ↔ ∃ text p pattern, ((x, text), p) ∈ patterns.zip ps ∧ Json.parse? text = some pattern ∧
        p.Fits pattern (.obj members) := by
  obtain ⟨S, firsts, hroot, -, hall⟩ := Matcher.addAll_ok (rootOk_empty Json.flatten parser asked) h
  obtain ⟨ps, s, hcompile, -, hbegins⟩ := hall ⟨0, asked⟩ rfl
  have hflattener : m.flattener = Json.flatten := by
    have := Matcher.flattener_addAll patterns (Matcher.empty (ι := ι) Json.flatten parser asked)
    rwa [h] at this
  have hevent : m.matchEvent event = .ok (m.matchFields (Json.obj members).fields) := by
    rw [Matcher.matchEvent, hflattener, Json.flatten, hj]
    rfl
  refine ⟨ps, s, _, hcompile, hevent, fun x => ?_⟩
  obtain ⟨hlen, hzip⟩ := List.forall₂_iff_zip.mp (Solo.forall₂_of_exec hcompile)
  have hone : ∀ {id : ι} {text : String} {p : Solo ι}, ((id, text), p) ∈ patterns.zip ps → ∃ pattern,
      Json.parse? text = some pattern ∧ (x ∈ Solo.search [p] none (Field.sortByPath (Json.obj members).fields) ↔
        x = id ∧ p.Fits pattern (.obj members)) := fun {id text p} hmem => by
    obtain ⟨t, t', ht⟩ := hzip hmem
    obtain ⟨pattern, hpattern, rfl, hne, hgates⟩ := Solo.map_fst_gates ht
    exact ⟨pattern, hpattern, Solo.mem_search_fields (Json.uniqueKeys_of_parse? hpattern)
      (hp _ (List.of_mem_zip hmem).1 pattern hpattern) hgates hne (Json.uniqueKeys_of_parseBytes? hj) he⟩
  rw [hroot.matchFields_eq hbegins, Solo.mem_interpret]
  constructor
  · rintro ⟨p, hmem, hx⟩
    rw [← List.map_snd_zip (Nat.le_of_eq hlen.symm)] at hmem
    obtain ⟨⟨⟨id, text⟩, _⟩, hzipped, rfl⟩ := List.mem_map.mp hmem
    obtain ⟨pattern, hpattern, hiff⟩ := hone hzipped
    obtain ⟨rfl, hfits⟩ := hiff.mp hx
    exact ⟨text, _, pattern, hzipped, hpattern, hfits⟩
  · rintro ⟨text, p, pattern, hmem, hpattern, hfits⟩
    obtain ⟨pattern', hpattern', hiff⟩ := hone hmem
    rw [hpattern] at hpattern'
    cases hpattern'
    exact ⟨p, (List.of_mem_zip hmem).2, hiff.mpr ⟨rfl, hfits⟩⟩

/-- Two patterns below one member, and an event that has an array there. -/
theorem Matcher.matchEvent_iff_fits_array :
    ∃ (patterns : List (Bool × String)) (event : Bytes) (m : Matcher Bool) (members : List (String × Json)),
      patterns = [(true, "\x7b\"a\":\x7b\"b\":[1]\x7d\x7d"), (false, "\x7b\"a\":\x7b\"c\":[true]\x7d\x7d")] ∧
      event = Bytes.ofString "\x7b\"a\":[\x7b\"b\":2\x7d,\x7b\"b\":1,\"c\":null\x7d]\x7d" ∧
      (Matcher.empty Json.flatten none 0).addAll patterns = (.ok (), m) ∧
      Json.parseBytes? event = some (.obj members) ∧
      ∃ ps s ids, (Solo.compileAll none patterns).exec ⟨0, 0⟩ = (.ok ps, s) ∧ m.matchEvent event = .ok ids ∧
        ∀ x, x ∈ ids ↔ ∃ text p pattern, ((x, text), p) ∈ patterns.zip ps ∧
          Json.parse? text = some pattern ∧ p.Fits pattern (.obj members) := by
  obtain ⟨m, hm⟩ := exists_eq_ok_of_toBool (x := (Matcher.empty Json.flatten none 0).addAll
    [(true, "\x7b\"a\":\x7b\"b\":[1]\x7d\x7d"), (false, "\x7b\"a\":\x7b\"c\":[true]\x7d\x7d")])
    (by decide +kernel)
  obtain ⟨members, hj⟩ := Json.exists_members (j := Json.parseBytes?
    (Bytes.ofString "\x7b\"a\":[\x7b\"b\":2\x7d,\x7b\"b\":1,\"c\":null\x7d]\x7d")) (by decide +kernel)
  have hpatterns : List.all
      [(true, "\x7b\"a\":\x7b\"b\":[1]\x7d\x7d"), (false, "\x7b\"a\":\x7b\"c\":[true]\x7d\x7d")]
      (fun p => (Json.parse? p.2).all fun pattern => decide (Json.PlainKeys pattern.valueLists)) = true := by
    decide +kernel
  have hevent : (Json.parseBytes?
      (Bytes.ofString "\x7b\"a\":[\x7b\"b\":2\x7d,\x7b\"b\":1,\"c\":null\x7d]\x7d")).all
      (fun event => decide (Json.PlainKeys event.scalars)) = true := by
    decide +kernel
  rw [hj] at hevent
  refine ⟨_, _, m, members, rfl, rfl, hm, hj, ?_⟩
  refine Matcher.matchEvent_iff_fits none 0 _ m hm (fun p hp pattern hpattern => ?_) _ members hj
    (of_decide_eq_true hevent)
  have hplain := List.all_eq_true.mp hpatterns p hp
  rw [hpattern] at hplain
  exact of_decide_eq_true hplain

end EventMatch
