import EventMatch.Proofs.Live.LiveSet
import EventMatch.Proofs.Matcher.Alone
import Mathlib.Data.Set.Card

/-!
# What a rebuilt matcher answers

`LiveSet.compile_answers`: the matcher that is compiled from a folded live set
answers for the live pairs, each as if its text were alone, in whatever order the
entries are compiled.
-/

namespace EventMatch.LiveSet

variable {ι : Type} [BEq ι] [LawfulBEq ι]

theorem ncard_liveAfter (ms : List (Mutation ι)) :
    {p : ι × String | LiveAfter ms p.1 p.2}.ncard = (({} : LiveSet ι).fold ms).size := by
  classical
  have hset : {p : ι × String | LiveAfter ms p.1 p.2} = ((({} : LiveSet ι).fold ms).pairs.toFinset : Set (ι × String)) := by
    ext ⟨id, text⟩
    rw [Set.mem_ofPred_eq, Finset.mem_coe, List.mem_toFinset, mem_pairs_fold]
  rw [hset, Set.ncard_coe_finset, List.toFinset_card_of_nodup (ordered_fold ms).nodup_pairs, size]

/-- What is compiled in some order are the live pairs, each once. -/
theorem pairs_of_perm {ms : List (Mutation ι)} {order : List (ι × List String)}
    (h : order.Perm (({} : LiveSet ι).fold ms).entries) :
    (LiveSet.mk order).pairs.Nodup ∧ (LiveSet.mk order).pairs.length = (({} : LiveSet ι).fold ms).size ∧
      ∀ id text, (id, text) ∈ (LiveSet.mk order).pairs ↔ LiveAfter ms id text := by
  have hp := pairs_perm h
  exact ⟨hp.nodup_iff.mpr (ordered_fold ms).nodup_pairs, hp.length_eq,
    fun id text => hp.mem_iff.trans mem_pairs_fold⟩

/-- A matcher compiled in any order answers as the live texts do alone. -/
theorem compile_of_perm (template : Matcher ι) {ms : List (Mutation ι)} {order : List (ι × List String)}
    (horder : order.Perm (({} : LiveSet ι).fold ms).entries)
    (htexts : ∀ id text, .add id text ∈ ms → ∀ asked, (template.alone asked id text).1 = .ok ()) :
    ∃ m, (LiveSet.mk order).compile template = (.ok (), m) ∧ m.size = (({} : LiveSet ι).fold ms).size ∧
      (∀ fields, (m.matchFields fields).Nodup) ∧
      ∃ n : ι → String → Nat, ∀ id fields, id ∈ m.matchFields fields ↔
        ∃ text, LiveAfter ms id text ∧ id ∈ (template.alone (n id text) id text).2.matchFields fields := by
  obtain ⟨hnodup, hlength, hmem⟩ := pairs_of_perm horder
  obtain ⟨m, hadd, hsize, hdistinct, n, hn⟩ := Matcher.addAll_alone template template.supply.asked hnodup
    fun p hp => htexts p.1 p.2 ((hmem p.1 p.2).mp hp).mem
  refine ⟨m, hadd, hsize.trans hlength, hdistinct, n, fun id fields => (hn id fields).trans ?_⟩
  exact exists_congr fun text => and_congr_left' (hmem id text)

omit [LawfulBEq ι] in
/-- If the parser answers by the spec alone, the matchers of single texts may be made at
any time. -/
theorem exists_alone_congr {template : Matcher ι} (hparser : ∀ p, template.parser = some p → p.AnswersBySpec)
    {ms : List (Mutation ι)}
    (htexts : ∀ id text, .add id text ∈ ms → ∀ asked, (template.alone asked id text).1 = .ok ())
    (n n' : ι → String → Nat) (id : ι) (fields : List Field) :
    (∃ text, LiveAfter ms id text ∧ id ∈ (template.alone (n id text) id text).2.matchFields fields) ↔
      ∃ text, LiveAfter ms id text ∧ id ∈ (template.alone (n' id text) id text).2.matchFields fields := by
  refine exists_congr fun text => and_congr_right fun h => ?_
  rw [(Matcher.alone_congr hparser (htexts id text h.mem (n' id text))).2]

/-- The matcher compiled from a folded live set answers for an identifier if one of its
live texts does alone. Neither batches nor the order of entries make a difference, and
nothing that was added before a deletion comes back. -/
theorem compile_answers (template : Matcher ι) (batches : List (List (Mutation ι)))
    (order : List (ι × List String)) (horder : order.Perm (batches.foldl fold ({} : LiveSet ι)).entries)
    (htexts : ∀ id text, .add id text ∈ batches.flatten → ∀ asked, (template.alone asked id text).1 = .ok ()) :
    ∃ m, (LiveSet.mk order).compile template = (.ok (), m) ∧
      -- Every live pair counts once.
      m.size = (batches.foldl fold ({} : LiveSet ι)).size ∧
      m.size = {p : ι × String | LiveAfter batches.flatten p.1 p.2}.ncard ∧
      (∀ fields, (m.matchFields fields).Nodup) ∧
      -- Every live text answers as it would alone, made when the parser had been asked as often.
      (∃ n : ι → String → Nat,
        (∀ id fields, id ∈ m.matchFields fields ↔ ∃ text, LiveAfter batches.flatten id text ∧
          id ∈ (template.alone (n id text) id text).2.matchFields fields) ∧
        ∀ front back id, batches.flatten = front ++ .delete id :: back → ∀ fields, id ∈ m.matchFields fields →
          ∃ text, LiveAfter back id text ∧ id ∈ (template.alone (n id text) id text).2.matchFields fields) ∧
      -- A parser that answers by the spec alone makes the times irrelevant.
      ((∀ p, template.parser = some p → p.AnswersBySpec) →
        (∀ asked id fields, id ∈ m.matchFields fields ↔ ∃ text, LiveAfter batches.flatten id text ∧
          id ∈ (template.alone asked id text).2.matchFields fields) ∧
        ∀ (batches' : List (List (Mutation ι))) (order' : List (ι × List String)),
          (∀ id, batches'.flatten.filter (·.id == id) = batches.flatten.filter (·.id == id)) →
          order'.Perm (batches'.foldl fold ({} : LiveSet ι)).entries →
          ∃ m', (LiveSet.mk order').compile template = (.ok (), m') ∧
            ∀ id fields, id ∈ m'.matchFields fields ↔ id ∈ m.matchFields fields) := by
  rw [foldl_fold] at horder ⊢
  obtain ⟨m, hm, hsize, hdistinct, n, hn⟩ := compile_of_perm template horder htexts
  refine ⟨m, hm, hsize, hsize.trans (ncard_liveAfter _).symm, hdistinct, ⟨n, hn, fun front back id h fields hid => ?_⟩,
    fun hparser => ⟨fun asked id fields => ?_, fun batches' order' hsame horder' => ?_⟩⟩
  · obtain ⟨text, ht, hmatch⟩ := (hn id fields).mp hid
    rw [h] at ht
    exact ⟨text, ht.of_delete, hmatch⟩
  · exact (hn id fields).trans (exists_alone_congr hparser htexts n (fun _ _ => asked) id fields)
  · rw [foldl_fold] at horder'
    have htexts' : ∀ id text, .add id text ∈ batches'.flatten →
        ∀ asked, (template.alone asked id text).1 = .ok () := fun id text h => by
      have hmem : Mutation.add id text ∈ batches'.flatten.filter (·.id == id) :=
        List.mem_filter.mpr ⟨h, beq_self_eq_true id⟩
      rw [hsame] at hmem
      exact htexts id text (List.mem_filter.mp hmem).1
    obtain ⟨m', hm', -, -, n', hn'⟩ := compile_of_perm template horder' htexts'
    refine ⟨m', hm', fun id fields => ?_⟩
    rw [hn', hn, exists_alone_congr hparser htexts n n']
    refine exists_congr fun text => and_congr_left' ?_
    rw [← liveAfter_filter, hsame, liveAfter_filter]

/-- One of two identifiers is deleted again. -/
theorem compile_answers_deleted :
    let batches : List (List (Mutation Bool)) :=
      [[.add true "\x7b\"a\":[true]\x7d", .add false "\x7b\"a\":[true]\x7d"], [.delete true]]
    ∃ m, (batches.foldl fold ({} : LiveSet Bool)).compile (Matcher.empty Json.flatten) = (.ok (), m) ∧
      m.size = 1 ∧ ∀ fields, true ∉ m.matchFields fields := by
  intro batches
  have hparser : ∀ p, (Matcher.empty Json.flatten : Matcher Bool).parser = some p → p.AnswersBySpec :=
    fun p h => by cases h
  have halone : ∀ id, ((Matcher.empty Json.flatten : Matcher Bool).alone 0 id "\x7b\"a\":[true]\x7d").1.toBool := by
    decide +kernel
  have htexts : ∀ id text, .add id text ∈ batches.flatten →
      ∀ asked, ((Matcher.empty Json.flatten : Matcher Bool).alone asked id text).1 = .ok () := fun id text h asked => by
    have htext : text = "\x7b\"a\":[true]\x7d" := by
      rcases List.mem_cons.mp h with h | h
      · cases h
        rfl
      · rcases List.mem_cons.mp h with h | h
        · cases h
          rfl
        · cases List.mem_singleton.mp h
    obtain ⟨m, hm⟩ := exists_eq_ok_of_toBool (halone id)
    rw [htext]
    exact (Matcher.alone_congr (n := 0) hparser (congrArg Prod.fst hm)).1
  obtain ⟨m, hm, hsize, -, -, ⟨n, -, hdelete⟩, -⟩ :=
    compile_answers (Matcher.empty Json.flatten) batches _ (.refl _) htexts
  refine ⟨m, hm, hsize, fun fields h => ?_⟩
  obtain ⟨text, ht, -⟩ := hdelete [.add true _, .add false _] [] true rfl fields h
  exact not_liveAfter_nil ht

end EventMatch.LiveSet
