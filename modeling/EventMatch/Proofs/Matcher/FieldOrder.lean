import EventMatch.Proofs.Matcher.Trails

/-!
# The order of fields

Where the paths of a pattern's arrays are all different, its gates stand in the order of
paths, and so do any fields that they take. Such fields are found in that order among the
sorted fields wherever they stood before, so a matcher answers the same for fields in any
order (`Matcher.matchFields_perm`). Fields of one path keep their order when they are
sorted, but then no pattern takes two of them.
-/

namespace EventMatch

variable {ι : Type}

/-- No two arrays of the pattern are found under one path. -/
def Json.DistinctPaths (pattern : Json) : Prop := (pattern.valueLists.map fun leaf => Path.ofKeys leaf.1).Nodup

instance (pattern : Json) : Decidable pattern.DistinctPaths :=
  inferInstanceAs (Decidable (List.Nodup _))

/-- Different paths are in order where the arrays are. -/
theorem Json.DistinctPaths.pairwise {pattern : Json} (h : pattern.DistinctPaths) :
    (pattern.leafKeys.map Path.ofKeys).Pairwise fun s t => Bytes.leString s t = true ∧ s ≠ t := by
  have hperm : (pattern.leafKeys.map Path.ofKeys).Perm (pattern.valueLists.map fun leaf => Path.ofKeys leaf.1) := by
    rw [show (fun leaf : List String × List Json => Path.ofKeys leaf.1) = Path.ofKeys ∘ Prod.fst from rfl,
      ← List.map_map]
    exact (List.mergeSort_perm _ _).map Path.ofKeys
  have hsorted : (pattern.leafKeys.map Path.ofKeys).Pairwise fun s t => Bytes.leString s t = true :=
    List.pairwise_map.mpr pattern.sorted_leafKeys
  exact hsorted.and (hperm.nodup_iff.mpr h)

/-- Fields that gates with ascending paths take are taken from the same fields in any order. -/
theorem Solo.TakesChain.perm {p : Solo ι} {fields fields' fs : List Field} (h : p.TakesChain fields fs)
    (hpaths : (p.gates.map Prod.fst).Pairwise fun s t => Bytes.leString s t = true ∧ s ≠ t)
    (hperm : fields.Perm fields') : p.TakesChain fields' fs where
  sublist := by
    refine Field.sublist_sortByPath (fun f hf => ?_) ?_
    · exact hperm.mem_iff.mp (Field.mem_sortByPath.mp (h.sublist.subset hf))
    · rw [Takes.map_path h.takes] at hpaths
      exact List.pairwise_map.mp hpaths
  takes := h.takes
  chain := h.chain

variable [BEq ι] [LawfulBEq ι]

/-- Patterns of which none has two arrays under one path report the same for the same fields in any
order. -/
theorem Solo.interpret_perm {parser : Option SpecParser} {patterns : List (ι × String)} {ps : List (Solo ι)}
    {s s' : Supply} (hc : (Solo.compileAll parser patterns).exec s = (.ok ps, s'))
    (hdistinct : ∀ p ∈ patterns, ∀ pattern, Json.parse? p.2 = some pattern → pattern.DistinctPaths)
    {fields fields' : List Field} (hperm : fields.Perm fields') :
    (Solo.interpret ps fields).Perm (Solo.interpret ps fields') := by
  have hpaths : ∀ x text p, ((x, text), p) ∈ patterns.zip ps →
      (p.gates.map Prod.fst).Pairwise fun s t => Bytes.leString s t = true ∧ s ≠ t := by
    intro x text p hzipped
    obtain ⟨-, hzip⟩ := List.forall₂_iff_zip.mp (Solo.forall₂_of_exec hc)
    obtain ⟨t, t', hcompile⟩ := hzip hzipped
    obtain ⟨pattern, hparse, -, -, hgates⟩ := Solo.map_fst_gates hcompile
    rw [hgates]
    exact (hdistinct _ (List.of_mem_zip hzipped).1 pattern hparse).pairwise
  refine (List.perm_ext_iff_of_nodup (Solo.nodup_interpret ps fields) (Solo.nodup_interpret ps fields')).mpr ?_
  intro x
  rw [Solo.mem_interpret_iff_chain hc, Solo.mem_interpret_iff_chain hc]
  constructor
  · rintro ⟨text, p, fs, hzipped, h⟩
    exact ⟨text, p, fs, hzipped, h.perm (hpaths x text p hzipped) hperm⟩
  · rintro ⟨text, p, fs, hzipped, h⟩
    exact ⟨text, p, fs, hzipped, h.perm (hpaths x text p hzipped) hperm.symm⟩

/-- If no pattern has two arrays under one path, a matcher reports the same identifiers for fields in
any order. -/
theorem Matcher.matchFields_perm (flattener : Flattener) (parser : Option SpecParser) (asked : Nat)
    (patterns : List (ι × String)) (m : Matcher ι)
    (h : (Matcher.empty flattener parser asked).addAll patterns = (.ok (), m))
    (hdistinct : ∀ p ∈ patterns, ∀ pattern, Json.parse? p.2 = some pattern → pattern.DistinctPaths)
    (fields fields' : List Field) (hperm : fields.Perm fields') :
    (m.matchFields fields).Perm (m.matchFields fields') := by
  obtain ⟨S, firsts, hroot, -, hall⟩ := Matcher.addAll_ok (rootOk_empty flattener parser asked) h
  obtain ⟨ps, s, hcompile, -, hbegins⟩ := hall ⟨0, asked⟩ rfl
  rw [hroot.matchFields_eq hbegins, hroot.matchFields_eq hbegins]
  exact Solo.interpret_perm hcompile hdistinct hperm

/-- Three fields from the last path to the first. -/
theorem Matcher.matchFields_perm_abreast :
    ∃ (patterns : List (Bool × String)) (m : Matcher Bool) (fields fields' : List Field),
      patterns = [(true, "\x7b\"x\":[true],\"y\":[true],\"z\":[true]\x7d")] ∧
      (Matcher.empty Json.flatten none 0).addAll patterns = (.ok (), m) ∧
      (∀ p ∈ patterns, ∀ pattern, Json.parse? p.2 = some pattern → pattern.DistinctPaths) ∧
      fields' = fields.reverse ∧ true ∈ m.matchFields fields' ∧
      (m.matchFields fields).Perm (m.matchFields fields') := by
  obtain ⟨m, hm, hmem, -⟩ := Matcher.exists_matchFields_abreast
  have hdistinct : ∀ p ∈ [(true, "\x7b\"x\":[true],\"y\":[true],\"z\":[true]\x7d")], ∀ pattern,
      Json.parse? p.2 = some pattern → pattern.DistinctPaths := by
    have hparse : (Json.parse? "\x7b\"x\":[true],\"y\":[true],\"z\":[true]\x7d").all
        (fun pattern => decide pattern.DistinctPaths) = true := by decide +kernel
    rintro p hp pattern h
    rw [List.mem_singleton.mp hp] at h
    rw [h] at hparse
    exact of_decide_eq_true hparse
  have hperm := Matcher.matchFields_perm Json.flatten none 0 _ m hm hdistinct _ _ (List.reverse_perm
    (Field.abreast [⟨1, 0⟩] [⟨1, 0⟩] [⟨1, 0⟩])).symm
  exact ⟨_, m, _, _, rfl, hm, hdistinct, rfl, hperm.mem_iff.mp hmem, hperm⟩

end EventMatch
