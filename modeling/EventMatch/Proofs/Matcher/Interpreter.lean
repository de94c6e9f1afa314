import EventMatch.Matcher.Search
import EventMatch.Proofs.Matcher.Gate
import Mathlib.Data.List.Forall2
import Mathlib.Data.List.Nodup

/-!
# Patterns interpreted one by one

`Solo.interpret` answers which patterns match without ever merging any: each is
compiled alone (`Solo.compile`), and a search takes them all through the fields
side by side. A junction of the graph `Represents` a list of such patterns if
every field leads from it to chains that are followed as the patterns' entries
for the field are, in the same order; then its search reports what theirs does
(`Represents.search_eq`).
-/

namespace EventMatch

variable {ι : Type}

/-- Whether a value reaches anything on the gate's automaton. -/
def Gate.reaches (g : Gate ι) (v : Bytes) : Bool := !(g.automaton.run (Gate.lookup g.hasNumbers v)).isEmpty

/-- A pattern compiled alone: the paths of its fields with their gates. -/
structure Solo (ι : Type) where
  id : ι
  gates : List (String × Gate ι)

namespace Solo

/-- The chain of a pattern together with the gates on it. -/
def chain (parser : Option SpecParser) (id : ι) (fields : List PatternField) :
    Compile (Junction ι × List (String × Gate ι)) := do
  fields.foldrM (fun f r => do
    let gate ← Gate.ofValues parser f.values r.1
    return (← .fresh (Junction.branching f.path gate), (f.path, gate) :: r.2)) (← .fresh (Junction.completing id), [])

/-- Compiles one pattern alone. -/
def compile (parser : Option SpecParser) (id : ι) (text : String) : Compile (Solo ι) := do
  let fields ← Compile.ofExcept (Pattern.parse text)
  return ⟨id, (← chain parser id fields).2⟩

/-- Compiles each pattern alone, one after the other. -/
def compileAll (parser : Option SpecParser) (patterns : List (ι × String)) : Compile (List (Solo ι)) :=
  patterns.mapM fun p => compile parser p.1 p.2

/-- What is left of a pattern after its next field, if that is `f` by the automaton. -/
def viaAutomaton? (f : Field) : Solo ι → Option (Solo ι)
  | ⟨_, []⟩ => none
  | ⟨id, (path, gate) :: gates⟩ =>
    if path = f.path ∧ gate.reaches f.value then some ⟨id, gates⟩ else none

/-- What is left of a pattern after its next field, once for each predicate that
accepts `f` as that. -/
def viaTests (f : Field) : Solo ι → List (Solo ι)
  | ⟨_, []⟩ => []
  | ⟨id, (path, gate) :: gates⟩ =>
    if path = f.path then (gate.tests.filter (·.accepts f.value)).map fun _ => ⟨id, gates⟩ else []

/-- The entries for a field: what is left of the patterns whose automata accept
it, then of those whose predicates do. -/
def entries (ps : List (Solo ι)) (f : Field) : List (Solo ι) :=
  ps.filterMap (viaAutomaton? f) ++ ps.flatMap (viaTests f)

/-- What a search for the patterns reports, given the field taken last and the
fields still to come. -/
def search (ps : List (Solo ι)) (previous : Option Field) : List Field → List ι
  | [] => []
  | f :: rest =>
    (if previous.all (·.compatible f) then
      (entries ps f).flatMap fun p => if p.gates.isEmpty then [p.id] else search [p] (some f) rest
    else []) ++ search ps previous rest

/-- The patterns' identifiers that match a list of fields, each once. -/
def interpret [BEq ι] (ps : List (Solo ι)) (fields : List Field) : List ι :=
  firstSeen (search ps none (Field.sortByPath fields))

/-- The gates are those of the chain that a pattern is compiled to. -/
theorem fst_chain (parser : Option SpecParser) (id : ι) (fields : List PatternField) :
    (chain parser id fields >>= fun r => pure r.1) = Junction.ofPattern parser id fields := by
  have h : ∀ r : Junction ι × List (String × Gate ι),
      (fields.foldrM (fun f r => do
        let gate ← Gate.ofValues parser f.values r.1
        return (← .fresh (Junction.branching f.path gate), (f.path, gate) :: r.2)) r >>= fun r => pure r.1) =
        (fields.foldrM (fun f next => do
          let gate ← Gate.ofValues parser f.values next
          .fresh (Junction.branching f.path gate)) r.1 : Compile (Junction ι)) := fun r => by
    induction fields with
    | nil => rfl
    | cons f fields ih => simp only [List.foldrM_cons, ← ih, bind_assoc, pure_bind, bind_pure]
  simp only [chain, Junction.ofPattern, bind_assoc, h]

/-- A pattern without fields reports nothing. -/
theorem search_done (id : ι) (previous : Option Field) (fields : List Field) :
    search [⟨id, []⟩] previous fields = [] := by
  induction fields with
  | nil => rfl
  | cons f rest ih =>
    rw [search, ih]
    split <;> rfl

/-! ## Members of answers -/

theorem mem_entries {ps : List (Solo ι)} {f : Field} {e : Solo ι} :
    e ∈ entries ps f ↔ ∃ p ∈ ps, e ∈ entries [p] f := by
  simp only [entries, List.mem_append, List.mem_filterMap, List.mem_flatMap, List.mem_singleton,
    exists_eq_left]
  constructor
  · rintro (⟨p, hp, h⟩ | ⟨p, hp, h⟩)
    · exact ⟨p, hp, .inl h⟩
    · exact ⟨p, hp, .inr h⟩
  · rintro ⟨p, hp, h | h⟩
    · exact .inl ⟨p, hp, h⟩
    · exact .inr ⟨p, hp, h⟩

theorem id_of_mem_entries {p : Solo ι} {f : Field} {e : Solo ι} (h : e ∈ entries [p] f) : e.id = p.id := by
  obtain ⟨id, gates⟩ := p
  rcases List.mem_append.mp h with h | h
  · obtain ⟨q, hq, h⟩ := List.mem_filterMap.mp h
    rw [List.mem_singleton.mp hq] at h
    cases gates with
    | nil => cases h
    | cons g gates =>
      rw [viaAutomaton?] at h
      split at h
      · cases h
        rfl
      · cases h
  · obtain ⟨q, hq, h⟩ := List.mem_flatMap.mp h
    rw [List.mem_singleton.mp hq] at h
    cases gates with
    | nil => cases h
    | cons g gates =>
      rw [viaTests] at h
      split at h
      · obtain ⟨t, _, rfl⟩ := List.mem_map.mp h
        rfl
      · cases h

/-- What the search reports for a field and the entries for it. -/
theorem mem_search_cons {ps : List (Solo ι)} {previous : Option Field} {f : Field} {rest : List Field} {x : ι} :
    x ∈ search ps previous (f :: rest) ↔
      (previous.all (·.compatible f) = true ∧ ∃ e ∈ entries ps f,
        x ∈ if e.gates.isEmpty then [e.id] else search [e] (some f) rest) ∨ x ∈ search ps previous rest := by
  rw [search, List.mem_append]
  refine or_congr_left ?_
  by_cases h : previous.all (·.compatible f) = true
  · rw [if_pos h, List.mem_flatMap, and_iff_right h]
  · rw [if_neg h]
    exact iff_of_false List.not_mem_nil fun h' => h h'.1

/-- A search reports what it would report for the patterns one by one. -/
theorem mem_search {ps : List (Solo ι)} {previous : Option Field} {x : ι} : ∀ {fields : List Field},
    x ∈ search ps previous fields ↔ ∃ p ∈ ps, x ∈ search [p] previous fields
  | [] => iff_of_false List.not_mem_nil fun ⟨_, _, h⟩ => List.not_mem_nil h
  | f :: rest => by
    rw [mem_search_cons, mem_search]
    constructor
    · rintro (⟨hc, e, he, hx⟩ | ⟨p, hp, hx⟩)
      · obtain ⟨p, hp, he⟩ := mem_entries.mp he
        exact ⟨p, hp, mem_search_cons.mpr (.inl ⟨hc, e, he, hx⟩)⟩
      · exact ⟨p, hp, mem_search_cons.mpr (.inr hx)⟩
    · rintro ⟨p, hp, hx⟩
      rcases mem_search_cons.mp hx with ⟨hc, e, he, hx⟩ | hx
      · exact .inl ⟨hc, e, mem_entries.mpr ⟨p, hp, he⟩, hx⟩
      · exact .inr ⟨p, hp, hx⟩

/-- A pattern reports its own identifier only. -/
theorem id_of_mem_search {x : ι} : ∀ {fields : List Field} {p : Solo ι} {previous : Option Field},
    x ∈ search [p] previous fields → x = p.id
  | [], _, _, h => (List.not_mem_nil h).elim
  | f :: rest, p, previous, h => by
    rcases mem_search_cons.mp h with ⟨_, e, he, hx⟩ | hx
    · rw [← id_of_mem_entries he]
      split at hx
      · exact List.mem_singleton.mp hx
      · exact id_of_mem_search hx
    · exact id_of_mem_search hx

end Solo

section

variable [BEq ι] [LawfulBEq ι]

theorem mem_union {as bs : List ι} {x : ι} : x ∈ union as bs ↔ x ∈ as ∨ x ∈ bs := by
  induction bs generalizing as with
  | nil => rw [or_iff_left List.not_mem_nil]; rfl
  | cons b bs ih =>
    show x ∈ union (if as.any (· == b) then as else as ++ [b]) bs ↔ _
    rw [ih, List.mem_cons]
    by_cases hb : as.any (· == b)
    · obtain ⟨a, ha, e⟩ := List.any_eq_true.mp hb
      rw [if_pos hb]
      refine ⟨Or.imp_right .inr, fun h => ?_⟩
      rcases h with h | rfl | h
      · exact .inl h
      · exact .inl (beq_iff_eq.mp e ▸ ha)
      · exact .inr h
    · rw [if_neg hb, List.mem_append, List.mem_singleton, or_assoc]

theorem nodup_union {as bs : List ι} (h : as.Nodup) : (union as bs).Nodup := by
  induction bs generalizing as with
  | nil => exact h
  | cons b bs ih =>
    have hstep : List.Nodup (if as.any (· == b) then as else as ++ [b]) → (union as (b :: bs)).Nodup := ih
    refine hstep ?_
    split
    · exact h
    · rename_i hb
      refine List.nodup_append.mpr ⟨h, List.nodup_singleton _, fun a ha c hc e => hb ?_⟩
      rw [List.mem_singleton.mp hc] at e
      exact List.any_eq_true.mpr ⟨a, ha, beq_iff_eq.mpr e⟩

theorem Solo.mem_interpret {ps : List (Solo ι)} {fields : List Field} {x : ι} :
    x ∈ Solo.interpret ps fields ↔ ∃ p ∈ ps, x ∈ Solo.search [p] none (Field.sortByPath fields) := by
  rw [Solo.interpret, firstSeen, mem_union, or_iff_right List.not_mem_nil, Solo.mem_search]

theorem Solo.nodup_interpret (ps : List (Solo ι)) (fields : List Field) : (Solo.interpret ps fields).Nodup :=
  nodup_union List.nodup_nil

end

/-! ## Representation -/

/-- The chain from the junction on passes the values that the gates pass, and
ends in the identifier. -/
def Follows : Junction ι → ι → List (String × Gate ι) → Prop
  | j, id, [] => j.complete = [id] ∧ j.branches = []
  | j, id, (path, gate) :: gates => j.complete = [] ∧ ∃ own next, j.branches = [(path, own)] ∧
      (∀ v, own.pass v = (if gate.reaches v then [next] else []) ++
        (gate.tests.filter (·.accepts v)).map fun _ => next) ∧ Follows next id gates

/-- Every field leads from the junction to where it leads the patterns. -/
def Represents (j : Junction ι) (ps : List (Solo ι)) : Prop :=
  ∀ f : Field, List.Forall₂ (fun next p => Follows next p.id p.gates) (j.pass f.path f.value) (Solo.entries ps f)

theorem Follows.represents : ∀ {gates : List (String × Gate ι)} {j : Junction ι} {id : ι},
    Follows j id gates → Represents j [⟨id, gates⟩]
  | [], j, id, h, f => by
    rw [Junction.pass, Junction.gate?, h.2]
    exact .nil
  | (path, gate) :: gates, j, id, ⟨_, own, next, hb, hpass, hn⟩, f => by
    rw [Junction.pass, Junction.gate?, hb]
    by_cases hp : path = f.path
    · subst hp
      have hlookup : [(f.path, own)].lookup f.path = some own := List.lookup_cons_self
      simp only [hlookup, hpass, Solo.entries, List.filterMap_cons, List.filterMap_nil, List.flatMap_cons,
        List.flatMap_nil, Solo.viaAutomaton?, Solo.viaTests, true_and, if_true, List.append_nil]
      refine List.rel_append ?_ ?_
      · by_cases hr : gate.reaches f.value
        · rw [if_pos hr, if_pos hr]
          exact .cons hn .nil
        · rw [if_neg hr, if_neg hr]
          exact .nil
      · generalize gate.tests.filter (·.accepts f.value) = ts
        induction ts with
        | nil => exact .nil
        | cons t ts ih => exact .cons hn ih
    · have hlookup : [(path, own)].lookup f.path = none := by
        rw [List.lookup_cons, beq_false_of_ne fun e => hp e.symm]
        rfl
      simp only [hlookup, Solo.entries, List.filterMap_cons, List.filterMap_nil, List.flatMap_cons,
        List.flatMap_nil, Solo.viaAutomaton?, Solo.viaTests, hp, false_and, if_false, List.append_nil]
      exact .nil

/-- The search from a junction reports what the search for its patterns does. -/
theorem Represents.search_eq : ∀ {fields : List Field} {j : Junction ι} {ps : List (Solo ι)}
    (previous : Option Field), Represents j ps → j.search previous fields = Solo.search ps previous fields
  | [], _, _, _, _ => rfl
  | f :: rest, j, ps, previous, h => by
    have hnext : ∀ {next : Junction ι} {p : Solo ι}, Follows next p.id p.gates →
        next.complete ++ next.search (some f) rest =
          if p.gates.isEmpty then [p.id] else Solo.search [p] (some f) rest := by
      intro next p hf
      rw [hf.represents.search_eq (some f)]
      cases hg : p.gates with
      | nil =>
        rw [hg] at hf
        rw [hf.1, Solo.search_done]
        rfl
      | cons g gates =>
        rw [hg] at hf
        rw [hf.1, ← hg, List.nil_append, if_neg fun h => by rw [hg] at h; cases h]
    have hlist : ∀ {js : List (Junction ι)} {es : List (Solo ι)},
        List.Forall₂ (fun next p => Follows next p.id p.gates) js es →
        (js.flatMap fun next => next.complete ++ next.search (some f) rest) =
          es.flatMap fun p => if p.gates.isEmpty then [p.id] else Solo.search [p] (some f) rest := by
      intro js es hs
      induction hs with
      | nil => rfl
      | cons hf _ ih => rw [List.flatMap_cons, List.flatMap_cons, ih, hnext hf]
    rw [Junction.search, Solo.search, h.search_eq previous, hlist (h f)]

end EventMatch
