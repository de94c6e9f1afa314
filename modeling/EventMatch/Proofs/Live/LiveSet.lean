import EventMatch.Live.LiveSet
import EventMatch.Proofs.Text.Bytes
import Mathlib.Data.List.Induction
import Mathlib.Data.List.Nodup

/-!
# The live pairs of a history

`LiveAfter`: a text is live for an identifier after some mutations if it was added
and the identifier not deleted later. The folded live set holds just these pairs
(`mem_pairs_fold`), each once (`nodup_pairs`). What is live for an identifier
depends on the mutations of this identifier only (`liveAfter_filter`).
-/

namespace EventMatch

variable {ι : Type}

/-- The text was added to the identifier, which was not deleted afterwards. -/
def LiveAfter (ms : List (Mutation ι)) (id : ι) (text : String) : Prop :=
  ∃ front back, ms = front ++ .add id text :: back ∧ .delete id ∉ back

theorem not_liveAfter_nil {id : ι} {text : String} : ¬ LiveAfter [] id text := fun ⟨_, _, h, _⟩ =>
  List.append_ne_nil_of_right_ne_nil _ (List.cons_ne_nil _ _) h.symm

theorem liveAfter_append_add {ms : List (Mutation ι)} {x id : ι} {t text : String} :
    LiveAfter (ms ++ [.add x t]) id text ↔ (x = id ∧ t = text) ∨ LiveAfter ms id text := by
  constructor
  · rintro ⟨front, back, h, hb⟩
    rcases List.eq_nil_or_concat back with rfl | ⟨back, m, rfl⟩
    · have := List.append_inj_right' h rfl
      cases this
      exact .inl ⟨rfl, rfl⟩
    · rw [List.concat_eq_append] at h hb
      rw [← List.cons_append, ← List.append_assoc] at h
      exact .inr ⟨front, back, List.append_inj_left' h rfl, fun hm => hb (List.mem_append_left _ hm)⟩
  · rintro (⟨rfl, rfl⟩ | ⟨front, back, rfl, hb⟩)
    · exact ⟨ms, [], rfl, List.not_mem_nil⟩
    · refine ⟨front, back ++ [.add x t], by simp, fun h => ?_⟩
      rcases List.mem_append.mp h with h | h
      · exact hb h
      · cases List.mem_singleton.mp h

theorem liveAfter_append_delete {ms : List (Mutation ι)} {x id : ι} {text : String} :
    LiveAfter (ms ++ [.delete x]) id text ↔ x ≠ id ∧ LiveAfter ms id text := by
  constructor
  · rintro ⟨front, back, h, hb⟩
    rcases List.eq_nil_or_concat back with rfl | ⟨back, m, rfl⟩
    · have := List.append_inj_right' h rfl
      cases this
    · rw [List.concat_eq_append] at h hb
      rw [← List.cons_append, ← List.append_assoc] at h
      have hm := List.append_inj_right' h rfl
      refine ⟨fun e => hb ?_, front, back, List.append_inj_left' h rfl, fun hm => hb (List.mem_append_left _ hm)⟩
      rw [← List.singleton_inj.mp hm, e]
      exact List.mem_append_right _ (List.mem_singleton_self _)
  · rintro ⟨hne, front, back, rfl, hb⟩
    refine ⟨front, back ++ [.delete x], by simp, fun h => ?_⟩
    rcases List.mem_append.mp h with h | h
    · exact hb h
    · cases List.mem_singleton.mp h
      exact hne rfl

/-- Only what was added after a deletion can be live. -/
theorem LiveAfter.of_delete {front back : List (Mutation ι)} {id : ι} {text : String}
    (h : LiveAfter (front ++ .delete id :: back) id text) : LiveAfter back id text := by
  induction back using List.reverseRecOn with
  | nil => exact ((liveAfter_append_delete.mp h).1 rfl).elim
  | append_singleton back m ih =>
    rw [← List.cons_append, ← List.append_assoc] at h
    cases m with
    | add x t => exact liveAfter_append_add.mpr ((liveAfter_append_add.mp h).imp_right ih)
    | delete x =>
      have h := liveAfter_append_delete.mp h
      exact liveAfter_append_delete.mpr ⟨h.1, ih h.2⟩

theorem LiveAfter.mem {ms : List (Mutation ι)} {id : ι} {text : String} (h : LiveAfter ms id text) :
    .add id text ∈ ms := by
  obtain ⟨front, back, rfl, _⟩ := h
  exact List.mem_append_right _ List.mem_cons_self

variable [BEq ι]

/-- What is live for an identifier depends on its own mutations only. -/
theorem liveAfter_filter [LawfulBEq ι] {ms : List (Mutation ι)} {id : ι} {text : String} :
    LiveAfter (ms.filter (·.id == id)) id text ↔ LiveAfter ms id text := by
  induction ms using List.reverseRecOn with
  | nil => exact Iff.rfl
  | append_singleton ms m ih =>
    rw [List.filter_append]
    by_cases hm : m.id == id
    · rw [List.filter_cons_of_pos (p := fun m : Mutation ι => m.id == id) hm, List.filter_nil]
      cases m with
      | add x t => rw [liveAfter_append_add, liveAfter_append_add, ih]
      | delete x => rw [liveAfter_append_delete, liveAfter_append_delete, ih]
    · rw [List.filter_cons_of_neg (p := fun m : Mutation ι => m.id == id) hm, List.filter_nil,
        List.append_nil, ih]
      have hne : m.id ≠ id := fun e => hm (beq_iff_eq.mpr e)
      cases m with
      | add x t => rw [liveAfter_append_add, or_iff_right fun h => hne h.1]
      | delete x => rw [liveAfter_append_delete, and_iff_right (show x ≠ id from hne)]

namespace LiveSet

/-! ## Entries -/

/-- One text comes before another. -/
def TextLT (s t : String) : Prop := Bytes.leString s t = true ∧ s ≠ t

theorem TextLT.trans {r s t : String} (h₁ : TextLT r s) (h₂ : TextLT s t) : TextLT r t :=
  ⟨Bytes.leString_trans h₁.1 h₂.1, fun e => h₁.2 (Bytes.leString_antisymm h₁.1 (e ▸ h₂.1))⟩

theorem mem_insertText {text t : String} : ∀ {texts : List String},
    t ∈ insertText text texts ↔ t = text ∨ t ∈ texts
  | [] => by rw [insertText, List.mem_singleton, or_iff_left List.not_mem_nil]
  | u :: rest => by
    rw [insertText]
    split
    · rename_i h
      rw [h, List.mem_cons]
      exact ⟨.inr, fun h => h.elim .inl id⟩
    · split
      · exact List.mem_cons
      · rw [List.mem_cons, mem_insertText, List.mem_cons]
        exact or_left_comm

theorem pairwise_insertText {text : String} : ∀ {texts : List String}, texts.Pairwise TextLT →
    (insertText text texts).Pairwise TextLT
  | [], _ => List.pairwise_singleton _ _
  | u :: rest, h => by
    obtain ⟨hu, hrest⟩ := List.pairwise_cons.mp h
    rw [insertText]
    split
    · exact h
    · rename_i hne
      split
      · rename_i hle
        have hlt : TextLT text u := ⟨hle, hne⟩
        exact List.pairwise_cons.mpr ⟨fun t ht => (List.mem_cons.mp ht).elim (fun e => e ▸ hlt)
          fun ht => hlt.trans (hu t ht), h⟩
      · rename_i hle
        have hlt : TextLT u text := ⟨(Bytes.leString_total u text).resolve_right hle, fun e => hne e.symm⟩
        refine List.pairwise_cons.mpr ⟨fun t ht => ?_, pairwise_insertText hrest⟩
        exact (mem_insertText.mp ht).elim (fun e => e ▸ hlt) (hu t)

/-- Every identifier has one entry, and every text occurs in it once. -/
structure Ordered (l : LiveSet ι) : Prop where
  ids : (l.entries.map Prod.fst).Nodup
  texts : ∀ e ∈ l.entries, e.2.Pairwise TextLT

section

omit [BEq ι]

theorem mem_pairs {l : LiveSet ι} {id : ι} {text : String} :
    (id, text) ∈ l.pairs ↔ ∃ texts, (id, texts) ∈ l.entries ∧ text ∈ texts := by
  rw [pairs, List.mem_flatMap]
  constructor
  · rintro ⟨⟨x, texts⟩, he, ht⟩
    obtain ⟨t, ht, e⟩ := List.mem_map.mp ht
    cases e
    exact ⟨texts, he, ht⟩
  · rintro ⟨texts, he, ht⟩
    exact ⟨(id, texts), he, List.mem_map.mpr ⟨text, ht, rfl⟩⟩

theorem Ordered.nodup_pairs {l : LiveSet ι} (h : l.Ordered) : l.pairs.Nodup := by
  rw [pairs, List.nodup_flatMap]
  refine ⟨fun e he => ?_, ?_⟩
  · have hn : e.2.Nodup := (h.texts e he).imp fun h => h.2
    exact hn.map fun _ _ e => (Prod.mk.inj e).2
  · refine (List.pairwise_map.mp h.ids).imp fun hne => ?_
    intro p h₁ h₂
    obtain ⟨t, _, rfl⟩ := List.mem_map.mp h₁
    obtain ⟨u, _, e⟩ := List.mem_map.mp h₂
    exact hne (Prod.mk.inj e).1.symm

theorem pairs_perm {entries entries' : List (ι × List String)} (h : entries.Perm entries') :
    (LiveSet.mk entries).pairs.Perm (LiveSet.mk entries').pairs := h.flatMap_right _

end

variable [LawfulBEq ι]

theorem map_fst_insertEntry (id : ι) (text : String) : ∀ entries : List (ι × List String),
    (insertEntry id text entries).map Prod.fst =
      if id ∈ entries.map Prod.fst then entries.map Prod.fst else entries.map Prod.fst ++ [id]
  | [] => rfl
  | (k, texts) :: rest => by
    rw [insertEntry]
    by_cases hk : k = id
    · rw [if_pos (beq_iff_eq.mpr hk), if_pos (by rw [hk]; exact List.mem_cons_self)]
      rfl
    · rw [if_neg fun h => hk (beq_iff_eq.mp h), List.map_cons, map_fst_insertEntry id text rest]
      have hmem : id ∈ ((k, texts) :: rest).map Prod.fst ↔ id ∈ rest.map Prod.fst := by
        rw [List.map_cons, List.mem_cons, or_iff_right fun e => hk e.symm]
      by_cases hr : id ∈ rest.map Prod.fst
      · rw [if_pos hr, if_pos (hmem.mpr hr)]
        rfl
      · rw [if_neg hr, if_neg fun h => hr (hmem.mp h)]
        rfl

theorem mem_pairs_insertEntry {id x : ι} {text t : String} : ∀ {entries : List (ι × List String)},
    (x, t) ∈ (LiveSet.mk (insertEntry id text entries)).pairs ↔
      (id = x ∧ text = t) ∨ (x, t) ∈ (LiveSet.mk entries).pairs
  | [] => by
    have hnil : (x, t) ∉ (LiveSet.mk ([] : List (ι × List String))).pairs := List.not_mem_nil
    rw [show (LiveSet.mk (insertEntry id text [])).pairs = [(id, text)] from rfl, List.mem_singleton,
      Prod.mk.injEq, or_iff_left hnil, eq_comm, eq_comm (a := t)]
  | (k, texts) :: rest => by
    have hcons : ∀ (k : ι) (texts : List String) (rest : List (ι × List String)),
        (x, t) ∈ (LiveSet.mk ((k, texts) :: rest)).pairs ↔ (k = x ∧ t ∈ texts) ∨ (x, t) ∈ (LiveSet.mk rest).pairs := by
      intro k texts rest
      rw [show (LiveSet.mk ((k, texts) :: rest)).pairs = texts.map (fun u => (k, u)) ++ (LiveSet.mk rest).pairs
        from rfl, List.mem_append, List.mem_map]
      refine or_congr_left ⟨fun ⟨u, hu, e⟩ => ?_, fun ⟨e, ht⟩ => ⟨t, ht, by rw [e]⟩⟩
      obtain ⟨e, e'⟩ := Prod.mk.inj e
      exact ⟨e, e' ▸ hu⟩
    rw [insertEntry]
    by_cases hk : k = id
    · rw [if_pos (beq_iff_eq.mpr hk), hcons, hcons, mem_insertText, hk, and_or_left, or_assoc,
        eq_comm (a := t)]
    · rw [if_neg fun h => hk (beq_iff_eq.mp h), hcons, hcons, mem_pairs_insertEntry]
      exact or_left_comm

omit [LawfulBEq ι] in
theorem pairwise_of_mem_insertEntry {id : ι} {text : String} : ∀ {entries : List (ι × List String)},
    (∀ e ∈ entries, e.2.Pairwise TextLT) → ∀ e ∈ insertEntry id text entries, e.2.Pairwise TextLT
  | [], _, e, he => by
    rw [List.mem_singleton.mp he]
    exact List.pairwise_singleton _ _
  | (k, texts) :: rest, h, e, he => by
    have hrest : ∀ e ∈ rest, e.2.Pairwise TextLT := fun e he => h e (List.mem_cons_of_mem _ he)
    rw [insertEntry] at he
    split at he
    · rcases List.mem_cons.mp he with rfl | he
      · exact pairwise_insertText (h _ List.mem_cons_self)
      · exact hrest e he
    · rcases List.mem_cons.mp he with rfl | he
      · exact h _ List.mem_cons_self
      · exact pairwise_of_mem_insertEntry hrest e he

/-! ## Mutations -/

/-- A change keeps one entry for each identifier. -/
theorem Ordered.apply {l : LiveSet ι} (h : l.Ordered) : ∀ m : Mutation ι, (l.apply m).Ordered
  | .add id text => by
    refine ⟨?_, pairwise_of_mem_insertEntry h.texts⟩
    show ((insertEntry id text l.entries).map Prod.fst).Nodup
    rw [map_fst_insertEntry]
    split
    · exact h.ids
    · rename_i hid
      refine List.nodup_append.mpr ⟨h.ids, List.nodup_singleton _, fun a ha b hb e => hid ?_⟩
      rw [← List.mem_singleton.mp hb, ← e]
      exact ha
  | .delete id =>
    ⟨h.ids.sublist (List.filter_sublist.map Prod.fst), fun e he => h.texts e (List.mem_filter.mp he).1⟩

theorem mem_pairs_delete {l : LiveSet ι} {id x : ι} {t : String} :
    (x, t) ∈ (l.apply (.delete id)).pairs ↔ id ≠ x ∧ (x, t) ∈ l.pairs := by
  rw [mem_pairs, mem_pairs]
  constructor
  · rintro ⟨texts, he, ht⟩
    obtain ⟨he, hne⟩ := List.mem_filter.mp he
    refine ⟨fun e => ?_, texts, he, ht⟩
    rw [beq_iff_eq.mpr e.symm] at hne
    cases hne
  · rintro ⟨hne, texts, he, ht⟩
    refine ⟨texts, List.mem_filter.mpr ⟨he, ?_⟩, ht⟩
    rw [beq_false_of_ne fun e : x = id => hne e.symm]
    rfl

/-- Folding any history gives one entry for each identifier. -/
theorem ordered_fold (ms : List (Mutation ι)) : (({} : LiveSet ι).fold ms).Ordered := by
  induction ms using List.reverseRecOn with
  | nil => exact ⟨List.nodup_nil, fun _ h => nomatch h⟩
  | append_singleton ms m ih =>
    rw [fold, List.foldl_append]
    exact ih.apply m

/-- The folded live set holds the pairs that are live after the history. -/
theorem mem_pairs_fold {ms : List (Mutation ι)} {id : ι} {text : String} :
    (id, text) ∈ (({} : LiveSet ι).fold ms).pairs ↔ LiveAfter ms id text := by
  induction ms using List.reverseRecOn with
  | nil => exact iff_of_false List.not_mem_nil not_liveAfter_nil
  | append_singleton ms m ih =>
    have hfold : ({} : LiveSet ι).fold (ms ++ [m]) = (({} : LiveSet ι).fold ms).apply m := by
      rw [fold, List.foldl_append]
      rfl
    rw [hfold]
    cases m with
    | add x t => rw [liveAfter_append_add, ← ih]; exact mem_pairs_insertEntry
    | delete x => rw [liveAfter_append_delete, ← ih, mem_pairs_delete]

omit [LawfulBEq ι] in
/-- Cutting a history into batches makes no difference. -/
theorem foldl_fold (batches : List (List (Mutation ι))) (l : LiveSet ι) :
    batches.foldl fold l = l.fold batches.flatten := by
  induction batches generalizing l with
  | nil => rfl
  | cons batch batches ih => rw [List.foldl_cons, ih, List.flatten_cons, fold, fold, fold, List.foldl_append]

end LiveSet

end EventMatch
