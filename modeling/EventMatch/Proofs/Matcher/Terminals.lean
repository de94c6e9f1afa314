import EventMatch.Proofs.Automaton.Terminals
import EventMatch.Proofs.Matcher.Additions
import EventMatch.Proofs.Matcher.Trails
import EventMatch.Proofs.Pattern.Grammar

/-!
# Where the automata of a graph have exits

A junction has its own gates and those behind them (`Junction.HasGate`). The gate of a field
holds texts and keys only, so all gates of a chain are disciplined (`ChainOk.disciplined`). When a
chain is merged into the root, one gate is new, the merge of two disciplined gates, and what it
leads to is what these lead to (`RootOk.disciplined_mergeWith`). By induction over the additions
this holds of the whole graph of every matcher (`Matcher.terminals`).
-/

namespace EventMatch

open Compile Numeral

variable {ι : Type}

/-! ## Words of patterns -/

namespace Pattern

theorem denotes_of_parse {text : String} {fields : List PatternField} (h : parse text = .ok fields)
    {f : PatternField} (hf : f ∈ fields) : ∀ v ∈ f.values, ∃ j, Denotes j v := by
  obtain ⟨members, _, hobj, -⟩ := parse_eq_ok h
  obtain ⟨fs, hfs, -, rfl⟩ := (parse_eq_ok_iff hobj).mp h
  obtain ⟨n, -, items, -, -, hvalues⟩ :=
    exists_forall₂_iff.mp ⟨_, hfs.flip⟩ f ((List.mergeSort_perm fs _).mem_iff.mp hf)
  exact exists_forall₂_iff.mp ⟨_, hvalues.flip⟩

theorem Denotes.digits {j : Json} {ds : Bytes} (h : Denotes j (.number ds)) : ds.length = keyWidth ∧ IsDigits ds := by
  -- `cases` on `h` itself would compute the digits
  generalize hv : ValueSpec.number ds = v at h
  cases h with
  | number _ =>
    rw [ValueSpec.number.inj hv]
    exact ⟨length_lastDigits keyWidth _, isDigits_lastDigits keyWidth _⟩
  | _ => cases hv

theorem Denotes.isWord {j : Json} {v : ValueSpec} (h : Denotes j v) {w : Bytes} (hw : v.Words w) :
    IsWord v.hasNumbers w := by
  cases v with
  | literal text =>
    obtain ⟨hproper, -⟩ := ValueSpec.proper_of_value (value_of_denotes "" h)
    exact .inl ⟨text, hw, fun hm => absurd (hproper _ hm) (by decide), fun hm => absurd (hproper _ hm) (by decide)⟩
  | number ds =>
    obtain ⟨hlen, hds⟩ := h.digits
    exact .inr ⟨rfl, ds, by rw [hw, List.cons_append], hlen, hds⟩
  | numeric c =>
    obtain ⟨happrox, is, -, u, rfl, hkey⟩ := hw
    obtain ⟨ds, rfl, hlen, hds, -⟩ := keyWord_iff_digits.mp hkey
    exact .inr ⟨by rw [ValueSpec.hasNumbers, happrox]; rfl, ds, rfl, hlen, hds⟩
  | extension spec => exact hw.elim

end Pattern

/-! ## The graph behind a junction -/

/-- The junction is an exit somewhere in the gate's automaton, or a test leads to it. -/
def Gate.LeadsTo (g : Gate ι) (j : Junction ι) : Prop :=
  (∃ w, j ∈ Automaton.exitsAt g.automaton w) ∨ ∃ t ∈ g.tests, t.next = j

/-- The gates on a junction's branches, and those behind them. -/
inductive Junction.HasGate : Junction ι → Gate ι → Prop
  | own {j : Junction ι} {path : String} {g : Gate ι} (h : j.gate? path = some g) : HasGate j g
  | behind {j next : Junction ι} {path : String} {g h : Gate ι} (hg : j.gate? path = some g)
      (hl : g.LeadsTo next) (hh : HasGate next h) : HasGate j h

/-- The gate's automaton is disciplined, and keys are looked up if it holds any. -/
structure Gate.Disciplined (g : Gate ι) : Prop where
  words : g.automaton.Disciplined g.hasNumbers
  tables : ∃ S n, Pool S n ∧ g.automaton.WellFormed (· ∈ S)

/-- All gates on the junction's branches and behind them are disciplined. -/
def Junction.Disciplined (j : Junction ι) : Prop := ∀ g, j.HasGate g → g.Disciplined

theorem Junction.disciplined_of_branches_eq_nil {j : Junction ι} (hb : j.branches = []) : j.Disciplined := by
  rintro g (⟨h⟩ | ⟨h⟩) <;> rw [gate?, hb] at h <;> cases h

/-- What is behind the gates of `j` is behind those of `a` or of `b`. -/
theorem Junction.Disciplined.of_gates {j a b : Junction ι} (ha : a.Disciplined) (hb : b.Disciplined)
    (hgates : ∀ path g, j.gate? path = some g → g.Disciplined ∧ ∀ k, g.LeadsTo k →
      (∃ p h, a.gate? p = some h ∧ h.LeadsTo k) ∨ ∃ p h, b.gate? p = some h ∧ h.LeadsTo k) : j.Disciplined := by
  intro g hg
  cases hg with
  | own h => exact (hgates _ g h).1
  | behind hown hl hbehind =>
    rcases (hgates _ _ hown).2 _ hl with ⟨p, h, hp, hk⟩ | ⟨p, h, hp, hk⟩
    · exact ha g (.behind hp hk hbehind)
    · exact hb g (.behind hp hk hbehind)

/-! ## Chains -/

section

variable {S : Set (State (Junction ι))} {lo n n' : Nat} {next : Junction ι} {g : Gate ι} {values : List ValueSpec}
  {preds : List Predicate}

theorem GateOk.disciplined (hg : GateOk S lo n next g values preds) (hp : Pool S n')
    (hv : ∀ v ∈ values, ∃ j, Pattern.Denotes j v) : g.Disciplined where
  words := hg.recognizes.disciplined fun w ⟨v, hm, hw⟩ => by
    obtain ⟨j, hj⟩ := hv v hm
    rw [hg.hasNumbers]
    exact (hj.isWord hw).imp_right fun ⟨hn, hds⟩ => ⟨List.any_eq_true.mpr ⟨v, hm, hn⟩, hds⟩
  tables := ⟨S, n', hp, hg.wellFormed⟩

theorem GateOk.eq_of_leadsTo (hg : GateOk S lo n next g values preds) {k : Junction ι} (h : g.LeadsTo k) :
    k = next := by
  rcases h with ⟨w, hk⟩ | ⟨t, ht, rfl⟩
  · by_cases hw : ValuesWords values w
    · rw [hg.exitsAt_of_words hw] at hk
      exact List.mem_singleton.mp hk
    · rw [hg.exitsAt_of_not_words hw] at hk
      cases hk
  · exact hg.next t ht

/-- All gates of a chain are of values that items of a pattern denote. -/
theorem ChainOk.disciplined {id : ι} {j : Junction ι} {gates : List (String × Gate ι)} {fields : List PatternField}
    {preds : List (List Predicate)} (h : ChainOk S lo n id j gates fields preds) (hp : Pool S n')
    (hf : ∀ f ∈ fields, ∀ v ∈ f.values, ∃ i, Pattern.Denotes i v) : j.Disciplined := by
  -- by induction over the fields: a gate leads to one junction, from which the chain goes on
  induction h with
  | done _ hb _ _ => exact Junction.disciplined_of_branches_eq_nil hb
  | @field j _ g₀ _ _ _ _ _ _ hb _ _ hg _ ih =>
    obtain ⟨hv, hf⟩ := List.forall_mem_cons.mp hf
    have hown : ∀ {path g'}, j.gate? path = some g' → g' = g₀ := fun {path g'} he => by
      rw [Junction.gate?, hb, List.lookup_cons] at he
      split at he
      · exact (Option.some.inj he).symm
      · cases he
    intro h hh
    cases hh with
    | own he => exact hown he ▸ hg.disciplined hp hv
    | behind he hl hbehind =>
      obtain rfl := hown he
      obtain rfl := hg.eq_of_leadsTo hl
      exact ih hf h hbehind

end

/-! ## The root -/

section

variable {S S' : Set (State (Junction ι))} {n n' : Nat} {g h : Gate ι}

/-- The merge of two gates is disciplined if they are, and leads where either does. -/
theorem Gate.Disciplined.mergeWith (hg : g.Disciplined) (hh : h.Disciplined) {p : MergePass (Junction ι)}
    (hp : SoundPass S p) (hgw : g.automaton.WellFormed (· ∈ S)) (hhw : h.automaton.WellFormed (· ∈ S)) :
    ((g.mergeWith h).run p).1.Disciplined ∧
      ∀ k, ((g.mergeWith h).run p).1.LeadsTo k → g.LeadsTo k ∨ h.LeadsTo k := by
  obtain ⟨S', hgrow, hw, he⟩ := mergeWith_ok hp hgw hhw
  refine ⟨⟨hg.words.merge hh.words he, S', _, hgrow.sound.pool, hw⟩, fun k hk => ?_⟩
  rcases hk with ⟨w, hk⟩ | ⟨t, ht, hk⟩
  · change k ∈ (Automaton.exitsAt? ((g.automaton.mergeWith h.automaton).run p).1 w).getD [] at hk
    obtain ⟨rest, hmerge, hrest, -⟩ :=
      Automaton.exists_merge_getD (g.automaton.exitsAt? w) (h.automaton.exitsAt? w)
    rw [he, hmerge] at hk
    exact (List.mem_append.mp hk).imp (fun hk => .inl ⟨w, hk⟩) fun hk => .inl ⟨w, hrest.subset hk⟩
  · exact (mem_or_mem_of_mem_union ht).imp (fun ht => .inr ⟨t, ht, hk⟩) fun ht => .inr ⟨t, ht, hk⟩

theorem RootOk.disciplined_mergeWith [BEq ι] {root j : Junction ι} {firsts : List (String × Gate ι)} {path : String}
    (h : RootOk S n root firsts) (hS : S ⊆ S') (hp : Pool S' n') (hb : j.branches = [(path, g)]) (hl : n ≤ j.label)
    (hw : g.automaton.WellFormed (· ∈ S')) (hroot : root.Disciplined) (hj : j.Disciplined) :
    ((Automaton.withFreshMemo (root.mergeWith j)).run n').1.Disciplined := by
  have hown : j.gate? path = some g := by
    rw [Junction.gate?, hb]
    exact List.lookup_cons_self
  rw [Junction.mergeWith_run (h.beq_eq_false hl) hb]
  refine .of_gates hroot hj fun p g' hg' => ?_
  -- only the gate on the chain's first path is not the root's own
  change List.lookup p ((Junction.addBranch path g root.branches).run ⟨n', ∅⟩).1 = some g' at hg'
  by_cases he : path = p
  · subst he
    rcases addBranch_run path g root.branches ⟨n', ∅⟩ with ⟨-, h₂, -⟩ | ⟨own, h₁, h₂, -⟩
    · obtain rfl := Option.some.inj (hg'.symm.trans h₂)
      exact ⟨hj g' (.own hown), fun k hk => .inr ⟨path, g', hown, hk⟩⟩
    · obtain rfl := Option.some.inj (hg'.symm.trans h₂)
      have hgate : root.gate? path = some own := h₁
      have hown' : own.automaton.WellFormed (· ∈ S') := by
        have hat := (h.gates path).wellFormed
        rw [Junction.gateAt, hgate] at hat
        exact hat.mono fun _ hs => hS hs
      obtain ⟨hd, hleads⟩ := (hroot own (.own hgate)).mergeWith (hj g (.own hown)) (.start hp) hown' hw
      exact ⟨hd, fun k hk => (hleads k hk).imp (fun hk => ⟨path, own, hgate, hk⟩) fun hk => ⟨path, g, hown, hk⟩⟩
  · rw [lookup_addBranch_ne he] at hg'
    exact ⟨hroot g' (.own hg'), fun k hk => .inl ⟨p, g', hg', hk⟩⟩

end

/-! ## Matchers -/

namespace Matcher

variable [BEq ι] {m : Matcher ι}

/-- The graph is that of some patterns, and all gates in it are disciplined. -/
def Disciplined (m : Matcher ι) : Prop :=
  ∃ S firsts, RootOk S m.supply.label m.root firsts ∧ m.root.Disciplined

omit [BEq ι] in
theorem disciplined_empty (flattener : Flattener) (parser : Option SpecParser) (asked : Nat) :
    (empty (ι := ι) flattener parser asked).Disciplined :=
  ⟨∅, [], rootOk_empty flattener parser asked, Junction.disciplined_of_branches_eq_nil rfl⟩

/-- One addition. -/
theorem Disciplined.add (h : m.Disciplined) (id : ι) (text : String) : (m.add id text).2.Disciplined := by
  obtain ⟨S, firsts, hroot, hd⟩ := h
  rcases hx : (m.extend id text).exec m.supply with ⟨r, s⟩
  cases r with
  | error e =>
    rw [add_of_error hx]
    exact ⟨S, firsts, hroot, hd⟩
  | ok root =>
    rw [add_of_ok hx]
    obtain ⟨fields, preds, s₂, S', n, j, gates, hp, -, -, hS, hpool, hc, hrun⟩ := exec_extend_merge hroot.pool hx
    obtain ⟨hne, hproper⟩ := Pattern.proper_of_parse hp
    obtain ⟨f, fs, rfl⟩ := List.exists_cons_of_ne_nil hne
    obtain ⟨S'', -, -, hroot'⟩ := hroot.mergeWith hS hpool hc (hproper f List.mem_cons_self)
    have hchain := hc.disciplined hpool fun f hf => Pattern.denotes_of_parse hp hf
    cases hc with
    | field _ hb hl _ hg _ =>
      have hd' := hroot.disciplined_mergeWith hS hpool hb hl hg.wellFormed hd hchain
      rw [hrun] at hroot' hd'
      exact ⟨S'', _, hroot', hd'⟩

/-- Any number of additions, whether or not they succeed. -/
theorem Disciplined.addEach : ∀ (patterns : List (ι × String)) {m : Matcher ι}, m.Disciplined →
    (m.addEach patterns).2.Disciplined
  | [], _, h => h
  | (id, text) :: rest, _, h => Disciplined.addEach rest (h.add id text)

end Matcher

/-- Whatever patterns are added to a matcher, in every automaton of its graph a state has exits just if the bytes that
lead to it end in their first terminator, and then its table is empty. Bytes that begin with the mark lead
somewhere only if the gate holds numbers, and to exits only if they are the mark, the digits of a key and a
terminator; nowhere else do such bytes hold the mark. So a value reaches the exits of one state at most. -/
theorem Matcher.terminals [BEq ι] (flattener : Flattener) (parser : Option SpecParser) (asked : Nat)
    (patterns : List (ι × String)) (g : Gate ι)
    (hg : ((Matcher.empty flattener parser asked).addEach patterns).2.root.HasGate g) :
    (∀ u s, g.automaton.stateAt? u = some s →
      (s.exits ≠ [] ↔ ∃ v, u = v ++ [terminator] ∧ terminator ∉ v) ∧
      (s.exits ≠ [] → s.table.isEmpty = true) ∧
      (u.head? = some numberMark → g.hasNumbers = true ∧ (s.exits ≠ [] →
        ∃ ds, u = numberMark :: (ds ++ [terminator]) ∧ ds.length = keyWidth ∧ IsDigits ds)) ∧
      numberMark ∉ u.tail) ∧
    ∀ v, g.automaton.run v = (g.automaton.stateAt? (v.upToTerminator ++ [terminator])).elim [] State.exits := by
  obtain ⟨-, -, -, hd⟩ := (disciplined_empty flattener parser asked).addEach patterns
  obtain ⟨hwords, S, n, hp, hw⟩ := hd g hg
  refine ⟨fun u s hs => ?_, hwords.run_eq⟩
  have he : g.automaton.exitsAt? u = some s.exits := by rw [Automaton.exitsAt?, hs, Option.map_some]
  obtain ⟨⟨r, hr⟩, hiff⟩ := hwords u s.exits he
  refine ⟨hiff, fun hne => ?_, fun hmark => ?_, hr.numberMark_not_mem_tail⟩
  · exact hwords.isEmpty (hiff.mp hne) hs (hp.closed s (hp.stateAt? hw hs))
  · obtain ⟨hnumbers, ds, hds⟩ := hr.of_numberMark hmark
    refine ⟨hnumbers, fun hne => ⟨ds, ?_⟩⟩
    rwa [hr.eq_nil_of_endsInTerminator (hiff.mp hne), List.append_nil] at hds

/-- The gate of a pattern's second field, which holds the key of 1, is behind that of the first. The state at the
key's digits and a terminator has exits, and they are what the digits reach. -/
theorem Matcher.terminals_behind :
    let word : Bytes := numberMark :: keyDigits (Numeral.mk false ⟨1, []⟩ none none).keyOf
    ∃ (g : Gate Bool) (s : State (Junction Bool)),
      ((Matcher.empty Json.flatten none 0).addEach
        [(true, "\x7b\"a\":[true],\"b\":[1]\x7d")]).2.root.HasGate g ∧
      g.automaton.stateAt? (word ++ [terminator]) = some s ∧ s.exits ≠ [] ∧ s.table.isEmpty = true ∧
      g.hasNumbers = true ∧ g.automaton.run word = s.exits := by
  intro word
  have hparse : Pattern.parse "\x7b\"a\":[true],\"b\":[1]\x7d" = .ok [⟨"a", [.literal (Bytes.ofString "true")]⟩,
      ⟨"b", [.number (keyDigits (Numeral.mk false ⟨1, []⟩ none none).keyOf)]⟩] :=
    Pattern.parse_of_unsorted (by decide +kernel) (by simp) (by decide +kernel)
  obtain ⟨root, t, hx, hgates⟩ : ∃ root t, ((Matcher.empty Json.flatten none 0 : Matcher Bool).extend true
      "\x7b\"a\":[true],\"b\":[1]\x7d").exec ⟨1, 0⟩ = (.ok root, t) ∧
      ((root.gate? "a").bind fun g => (Automaton.exitsAt g.automaton (Bytes.ofString "true" ++ [terminator])).head?.bind
        fun next => (next.gate? "b").bind fun h => (h.automaton.stateAt? (word ++ [terminator])).map
          fun s => s.exits.isEmpty) = some false := by
    rw [Matcher.extend, hparse]
    exact Compile.exists_exec_eq_ok (by decide +kernel)
  simp only [Option.bind_eq_some_iff, Option.map_eq_some_iff] at hgates
  obtain ⟨g, hg, next, hnext, h, hh, s, hs, hexits⟩ := hgates
  have hhas : ((Matcher.empty Json.flatten none 0).addEach
      [(true, "\x7b\"a\":[true],\"b\":[1]\x7d")]).2.root.HasGate h := by
    rw [Matcher.addEach, Matcher.addEach, Matcher.add_of_ok hx]
    exact .behind hg (.inl ⟨_, List.mem_of_mem_head? hnext⟩) (.own hh)
  have hne : s.exits ≠ [] := List.isEmpty_eq_false_iff.mp hexits
  obtain ⟨hstates, hrun⟩ := Matcher.terminals Json.flatten none 0 _ h hhas
  obtain ⟨-, hempty, hmark, -⟩ := hstates _ s hs
  refine ⟨h, s, hhas, hs, hne, hempty hne, (hmark rfl).1, ?_⟩
  have hword : Bytes.upToTerminator word = word := by decide +kernel
  rw [hrun, hword, hs]
  rfl

end EventMatch
