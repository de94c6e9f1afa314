import EventMatch.Proofs.Matcher.Interpreter
import Mathlib.Data.List.Chain

/-!
# What a search finds

A pattern is reported if its gates can `Take` fields in their order, of which each is
compatible with the next (`Solo.mem_search_iff`). Fields in the order of different paths
are always found in that order among the sorted fields (`Field.sublist_sortByPath`).
-/

namespace EventMatch

variable {ι : Type}

/-- A gate takes a field of its path with a value that passes. -/
def Takes (g : String × Gate ι) (f : Field) : Prop := g.1 = f.path ∧ g.2.pass f.value ≠ []

theorem Gate.pass_ne_nil {g : Gate ι} {v : Bytes} :
    g.pass v ≠ [] ↔ g.reaches v ∨ ∃ t ∈ g.tests, t.accepts v = true := by
  rw [Gate.pass, ne_eq, List.append_eq_nil_iff, List.map_eq_nil_iff, List.filter_eq_nil_iff, Gate.reaches,
    Bool.not_eq_true', List.isEmpty_eq_false_iff, not_and_or]
  refine or_congr Iff.rfl ⟨fun h => ?_, fun ⟨t, ht, ha⟩ h => h t ht ha⟩
  obtain ⟨t, ht⟩ := not_forall.mp h
  obtain ⟨hm, ha⟩ := Classical.not_imp.mp ht
  exact ⟨t, hm, not_not.mp ha⟩

namespace Solo

/-- After a field that its first gate takes a pattern goes on with its other gates. -/
theorem mem_entries_singleton {id : ι} {g : String × Gate ι} {gates : List (String × Gate ι)} {f : Field}
    {e : Solo ι} : e ∈ entries [⟨id, g :: gates⟩] f ↔ Takes g f ∧ e = ⟨id, gates⟩ := by
  obtain ⟨path, gate⟩ := g
  simp only [entries, List.mem_append, List.mem_filterMap, List.mem_flatMap, List.mem_singleton, exists_eq_left,
    viaAutomaton?, viaTests, Takes, Gate.pass_ne_nil]
  by_cases hp : path = f.path
  · rw [if_pos hp, List.mem_map]
    simp only [hp, true_and, List.mem_filter]
    constructor
    · rintro (h | ⟨t, ht, rfl⟩)
      · split at h
        · rename_i hr
          cases h
          exact ⟨.inl hr, rfl⟩
        · cases h
      · exact ⟨.inr ⟨t, ht⟩, rfl⟩
    · rintro ⟨hr | ⟨t, ht⟩, rfl⟩
      · exact .inl (if_pos hr)
      · exact .inr ⟨t, ht, rfl⟩
  · simp [hp]

/-- A pattern is reported if its gates take fields in order, and of these each is
compatible with the next. -/
theorem mem_search_iff {x id : ι} : ∀ {fields : List Field} {gates : List (String × Gate ι)}
    {previous : Option Field}, x ∈ search [⟨id, gates⟩] previous fields ↔
      x = id ∧ gates ≠ [] ∧ ∃ fs, fs.Sublist fields ∧ List.Forall₂ Takes gates fs ∧
        (previous.toList ++ fs).IsChain fun f g => f.compatible g = true
  | fields, [], previous => by
    rw [search_done]
    exact iff_of_false List.not_mem_nil fun h => h.2.1 rfl
  | [], g :: gates, previous => by
    refine iff_of_false List.not_mem_nil fun ⟨_, _, fs, hs, ht, _⟩ => ?_
    rw [List.sublist_nil.mp hs] at ht
    cases ht
  | f :: rest, g :: gates, previous => by
    have hchain : ∀ fs, (previous.toList ++ f :: fs).IsChain (fun f g => f.compatible g = true) ↔
        previous.all (·.compatible f) = true ∧ (f :: fs).IsChain fun f g => f.compatible g = true := by
      intro fs
      cases previous with
      | none => exact (and_iff_right rfl).symm
      | some p => exact List.isChain_cons_cons
    rw [mem_search_cons]
    simp only [mem_entries_singleton]
    constructor
    · rintro (⟨hc, e, ⟨ht, rfl⟩, hx⟩ | hx)
      · cases gates with
        | nil =>
          refine ⟨List.mem_singleton.mp hx, List.cons_ne_nil g [], [f], ?_, .cons ht .nil, ?_⟩
          · exact List.singleton_sublist.mpr List.mem_cons_self
          · exact (hchain []).mpr ⟨hc, .singleton f⟩
        | cons g' gates =>
          obtain ⟨hid, _, fs, hs, hts, hfs⟩ := mem_search_iff.mp (show x ∈ search _ _ _ from hx)
          exact ⟨hid, List.cons_ne_nil g _, f :: fs, hs.cons_cons f, .cons ht hts, (hchain fs).mpr ⟨hc, hfs⟩⟩
      · obtain ⟨hid, hne, fs, hs, hts, hfs⟩ := mem_search_iff.mp hx
        exact ⟨hid, hne, fs, hs.cons f, hts, hfs⟩
    · rintro ⟨hid, hne, fs, hs, hts, hfs⟩
      cases hs with
      | cons _ hs => exact .inr (mem_search_iff.mpr ⟨hid, hne, fs, hs, hts, hfs⟩)
      | @cons_cons fs _ _ hs =>
        obtain ⟨hc, hfs⟩ := (hchain fs).mp hfs
        cases hts with
        | cons ht hts =>
          refine .inl ⟨hc, _, ⟨ht, rfl⟩, ?_⟩
          cases gates with
          | nil => exact List.mem_singleton.mpr hid
          | cons g' gates => exact mem_search_iff.mpr ⟨hid, List.cons_ne_nil g' gates, fs, hs, hts, hfs⟩

end Solo

/-! ## Sorted fields -/

/-- Fields of a sorted list that are in the order of different paths are in the list's order. -/
theorem Field.sublist_of_pairwise : ∀ {fields fs : List Field},
    fields.Pairwise (fun f g => Bytes.leString f.path g.path = true) → (∀ f ∈ fs, f ∈ fields) →
    fs.Pairwise (fun f g => Bytes.leString f.path g.path = true ∧ f.path ≠ g.path) → fs.Sublist fields
  | [], fs, _, hm, _ => by
    rw [List.eq_nil_iff_forall_not_mem.mpr fun f hf => List.not_mem_nil (hm f hf)]
  | f :: fields, [], _, _, _ => List.nil_sublist _
  | f :: fields, g :: fs, hl, hm, hs => by
    obtain ⟨hf, hrest⟩ := List.pairwise_cons.mp hl
    obtain ⟨hg, hs'⟩ := List.pairwise_cons.mp hs
    by_cases he : g = f
    · subst he
      refine List.Sublist.cons_cons g (sublist_of_pairwise hrest (fun h hh => ?_) hs')
      exact (List.mem_cons.mp (hm h (List.mem_cons_of_mem _ hh))).resolve_left fun e => (hg h hh).2 (e ▸ rfl)
    · have hgm := (List.mem_cons.mp (hm g List.mem_cons_self)).resolve_left he
      refine (sublist_of_pairwise hrest (fun h hh => ?_) hs).cons f
      refine (List.mem_cons.mp (hm h hh)).resolve_left ?_
      rintro rfl
      rcases List.mem_cons.mp hh with e | hh
      · exact he e.symm
      · exact (hg h hh).2 (Bytes.leString_antisymm (hg h hh).1 (hf g hgm))

theorem Field.sublist_sortByPath {fields fs : List Field} (hm : ∀ f ∈ fs, f ∈ fields)
    (hs : fs.Pairwise fun f g => Bytes.leString f.path g.path = true ∧ f.path ≠ g.path) :
    fs.Sublist (Field.sortByPath fields) :=
  sublist_of_pairwise (Bytes.pairwise_mergeSort_leString Field.path fields)
    (fun f hf => List.mem_mergeSort.mpr (hm f hf)) hs

/-- Fields with different paths are sorted into just one order. -/
theorem Field.sortByPath_eq {fields fs : List Field} (hp : fs.Perm fields)
    (hs : fs.Pairwise fun f g => Bytes.leString f.path g.path = true ∧ f.path ≠ g.path) : Field.sortByPath fields = fs :=
  ((Field.sublist_sortByPath (fun _ hf => hp.mem_iff.mp hf) hs).eq_of_length
    (hp.length_eq.trans (List.length_mergeSort fields).symm)).symm

theorem Field.mem_sortByPath {fields : List Field} {f : Field} : f ∈ Field.sortByPath fields ↔ f ∈ fields :=
  List.mem_mergeSort

end EventMatch
