import EventMatch.Matcher.Basic
import EventMatch.Proofs.Matcher.Root

/-!
# The graph and its patterns

`RootOk.represents`: the root leads where the patterns added to it lead, each by
itself. By induction over the additions, `Matcher.matchFields_eq_interpret`: a
matcher answers as its patterns do when they are interpreted one by one.
-/

namespace EventMatch

open Compile

variable {ι : Type}

/-- A step that does not fail leaves something. -/
theorem exists_eq_ok_of_toBool {ε σ : Type} : ∀ {x : Except ε Unit × σ}, x.1.toBool = true →
    ∃ a, x = (.ok (), a)
  | (.ok (), a), _ => ⟨a, rfl⟩

/-! ## What the root represents -/

/-- The gate with which a chain begins, and the pattern alone that it is the chain of. -/
def Begins (b : String × Gate ι) (p : Solo ι) : Prop :=
  ∃ alone gates next, p.gates = (b.1, alone) :: gates ∧ Stands b.2 alone next ∧ Follows next p.id gates

section

variable {firsts : List (String × Gate ι)} {ps : List (Solo ι)}

theorem Begins.exits (hb : List.Forall₂ Begins firsts ps) (f : Field) {b : Bool}
    (hn : ∀ g ∈ gatesFor f.path firsts, g.hasNumbers = true → b = true) :
    List.Forall₂ (fun next p => Follows next p.id p.gates)
      ((gatesFor f.path firsts).flatMap fun g => Automaton.exitsAt g.automaton (Gate.lookupWord b f.value))
      (ps.filterMap (Solo.viaAutomaton? f)) := by
  induction hb with
  | nil => exact .nil
  | @cons first p firsts ps hfirst _ ih =>
    obtain ⟨path, own⟩ := first
    obtain ⟨id, _⟩ := p
    obtain ⟨alone, gates, next, rfl, hs, hf⟩ := hfirst
    by_cases hp : path = f.path
    · have hg : gatesFor f.path ((path, own) :: firsts) = own :: gatesFor f.path firsts := by
        simp [gatesFor, hp]
      rw [hg] at hn ⊢
      have ih := ih fun g hg => hn g (List.mem_cons_of_mem _ hg)
      rw [List.flatMap_cons, hs.exits b f.value (hn own List.mem_cons_self), List.filterMap_cons]
      by_cases hr : alone.reaches f.value
      · simp only [Solo.viaAutomaton?, hp, hr, and_self, if_true]
        exact .cons hf ih
      · have hvia : Solo.viaAutomaton? f ⟨id, (path, alone) :: gates⟩ = none := if_neg fun h => hr h.2
        rw [if_neg hr, hvia]
        exact ih
    · have hg : gatesFor f.path ((path, own) :: firsts) = gatesFor f.path firsts := by
        simp [gatesFor, hp]
      rw [hg] at hn ⊢
      simp only [List.filterMap_cons, Solo.viaAutomaton?, hp, false_and, if_false]
      exact ih hn

theorem Begins.tests (hb : List.Forall₂ Begins firsts ps) (f : Field) :
    List.Forall₂ (fun next p => Follows next p.id p.gates)
      ((((gatesFor f.path firsts).flatMap Gate.tests).filter (·.accepts f.value)).map (·.next))
      (ps.flatMap (Solo.viaTests f)) := by
  induction hb with
  | nil => exact .nil
  | @cons first p firsts ps hfirst _ ih =>
    obtain ⟨path, own⟩ := first
    obtain ⟨id, _⟩ := p
    obtain ⟨alone, gates, next, rfl, hs, hf⟩ := hfirst
    by_cases hp : path = f.path
    · have hg : gatesFor f.path ((path, own) :: firsts) = own :: gatesFor f.path firsts := by
        simp [gatesFor, hp]
      rw [hg, List.flatMap_cons, List.filter_append, List.map_append, List.flatMap_cons]
      refine List.rel_append ?_ ih
      rw [hs.tests, Solo.viaTests, if_pos hp]
      generalize alone.tests.filter (·.accepts f.value) = ts
      induction ts with
      | nil => exact .nil
      | cons t ts ih' => exact .cons hf ih'
    · have hg : gatesFor f.path ((path, own) :: firsts) = gatesFor f.path firsts := by
        simp [gatesFor, hp]
      rw [hg, List.flatMap_cons, Solo.viaTests, if_neg hp, List.nil_append]
      exact ih

/-- The root represents the patterns of which it joins the first gates. -/
theorem RootOk.represents {S : Set (State (Junction ι))} {n : Nat} {root : Junction ι}
    (h : RootOk S n root firsts) (hb : List.Forall₂ Begins firsts ps) : Represents root ps := by
  intro f
  have hg := h.gates f.path
  rw [Junction.pass_eq, Gate.pass, Automaton.run_eq hg.ends, ← Gate.lookupWord, hg.exits, hg.tests]
  refine List.rel_append (Begins.exits hb f fun g hm hn => ?_) (Begins.tests hb f)
  rw [hg.hasNumbers]
  exact List.any_eq_true.mpr ⟨g, hm, hn⟩

end

/-! ## Compiling alone -/

theorem Compile.SpendsNoLabels.exec_eq {α : Type} {x : Compile α} (h : x.SpendsNoLabels) {s s' : Supply}
    (ha : s'.asked = s.asked) : x.exec s' = ((x.exec s).1, { (x.exec s).2 with label := s'.label }) := by
  have := h s s'.label
  rwa [show ({ s with label := s'.label } : Supply) = s' by rw [← ha]] at this

/-- A text whose predicates can be read compiles alone. -/
theorem Solo.exec_compile (id : ι) {parser : Option SpecParser} {text : String}
    {fields : List PatternField} (hp : Pattern.parse text = .ok fields) {s s' : Supply}
    {preds : List (List Predicate)} (hr : (readFields parser fields).exec s = (.ok preds, s')) :
    ∃ gates s₁, (Solo.compile parser id text).exec s = (.ok ⟨id, gates⟩, s₁) ∧ s₁.asked = s'.asked ∧
      ∃ S n j, ChainOk S s.label n id j gates fields preds := by
  rcases (chain_ok parser id fields (.empty s.label)).cases with
    ⟨⟨j, gates⟩, ps, s₁, s₂, S, hx, hy, _, he, _, _, hc⟩ | ⟨e, s₁, s₂, _, hy, _, _⟩
  · rw [hr] at hy
    cases hy
    refine ⟨gates, s₁, ?_, he, S, s₁.label, j, hc⟩
    rw [Solo.compile, hp, ofExcept_ok, pure_bind, exec_bind_ok hx]
    rfl
  · rw [hr] at hy
    cases hy

/-- What compiles alone is a pattern of which the predicates can be read, with the
gates of its chain. -/
theorem Solo.of_exec_compile {parser : Option SpecParser} {id : ι} {text : String} {s s' : Supply} {p : Solo ι}
    (h : (Solo.compile parser id text).exec s = (.ok p, s')) : ∃ fields preds s₁ S n j,
      Pattern.parse text = .ok fields ∧ (readFields parser fields).exec s = (.ok preds, s₁) ∧ p.id = id ∧
      ChainOk S s.label n id j p.gates fields preds := by
  obtain ⟨fields, t, hofExcept, hrest⟩ := exec_bind_eq_ok h
  obtain ⟨hp, rfl⟩ := Prod.mk.inj hofExcept
  obtain ⟨⟨j, gates⟩, t, hchain, hpure⟩ := exec_bind_eq_ok hrest
  cases hpure
  rcases (chain_ok parser id fields (.empty s.label)).cases with
    ⟨r, preds, s₁, s₂, S, hx, hy, _, _, _, _, hc⟩ | ⟨e, s₁, s₂, hx, _, _, _⟩
  · rw [hchain] at hx
    cases hx
    exact ⟨fields, preds, s₂, S, _, j, hp, hy, rfl, hc⟩
  · rw [hchain] at hx
    cases hx

/-! ## Histories -/

variable [BEq ι]

theorem Matcher.add_of_ok {m : Matcher ι} {id : ι} {text : String} {root : Junction ι} {s : Supply}
    (h : (m.extend id text).exec m.supply = (.ok root, s)) :
    m.add id text = (.ok (), { m with root, size := m.size + 1, supply := s }) := by
  rw [Matcher.add, show (m.extend id text).run.run m.supply = _ from h]

theorem Matcher.add_of_error {m : Matcher ι} {id : ι} {text : String} {e : MatchError} {s : Supply}
    (h : (m.extend id text).exec m.supply = (.error e, s)) :
    m.add id text = (.error e, { m with supply := { m.supply with asked := s.asked } }) := by
  rw [Matcher.add, show (m.extend id text).run.run m.supply = _ from h]

omit [BEq ι] in
/-- The root of the matcher without patterns. -/
theorem rootOk_empty (flattener : Flattener) (parser : Option SpecParser) (asked : Nat) :
    RootOk ∅ (Matcher.empty (ι := ι) flattener parser asked).supply.label
      (Matcher.empty (ι := ι) flattener parser asked).root [] :=
  ⟨.empty _, Nat.zero_lt_one, fun _ => Joins.empty ∅ 1⟩

/-- When a pattern has been compiled, the new root is the merge of the old one with the chain of the
pattern. -/
theorem Matcher.exec_extend_merge {S : Set (State (Junction ι))} {m : Matcher ι} (hp : Pool S m.supply.label)
    {id : ι} {text : String} {root : Junction ι} {s' : Supply}
    (he : (m.extend id text).exec m.supply = (.ok root, s')) :
    ∃ fields preds s₂ S' n j gates, Pattern.parse text = .ok fields ∧
      (readFields m.parser fields).exec m.supply = (.ok preds, s₂) ∧ s'.asked = s₂.asked ∧ S ⊆ S' ∧ Pool S' n ∧
      ChainOk S' m.supply.label n id j gates fields preds ∧
      (Automaton.withFreshMemo (m.root.mergeWith j)).run n = (root, s'.label) := by
  obtain ⟨fields, t, hofExcept, hrest⟩ := exec_bind_eq_ok he
  obtain ⟨hparse, rfl⟩ := Prod.mk.inj hofExcept
  rw [← Solo.fst_chain, bind_assoc] at hrest
  rcases (chain_ok m.parser id fields hp).cases with
    ⟨⟨j, gates⟩, preds, s₁, s₂, S', hx, hy, hle, ha, hS, hpool, hc⟩ | ⟨e, s₁, s₂, hx, hy, _, _⟩
  · rw [exec_bind_ok hx, pure_bind, exec_fresh] at hrest
    cases hrest
    exact ⟨_, preds, s₂, S', _, j, gates, hparse, hy, ha, hS, hpool, hc, rfl⟩
  · rw [exec_bind_error hx] at hrest
    cases hrest

/-- What is known of the pattern and of the root when a pattern has been compiled and
merged. -/
theorem Matcher.exec_extend {S : Set (State (Junction ι))} {m : Matcher ι}
    {firsts : List (String × Gate ι)} (h : RootOk S m.supply.label m.root firsts) {id : ι} {text : String}
    {root : Junction ι} {s' : Supply} (he : (m.extend id text).exec m.supply = (.ok root, s')) :
    ∃ fields preds s₂ S' n j gates S'', Pattern.parse text = .ok fields ∧
      (readFields m.parser fields).exec m.supply = (.ok preds, s₂) ∧ s'.asked = s₂.asked ∧
      ChainOk S' m.supply.label n id j gates fields preds ∧
      RootOk S'' s'.label root (firsts ++ gates.take 1) := by
  obtain ⟨fields, preds, s₂, S', n, j, gates, hp, hy, ha, hS, hpool, hc, hrun⟩ := Matcher.exec_extend_merge h.pool he
  obtain ⟨hne, hproper⟩ := Pattern.proper_of_parse hp
  obtain ⟨f, fs, rfl⟩ := List.exists_cons_of_ne_nil hne
  obtain ⟨S'', _, _, hroot⟩ := h.mergeWith hS hpool hc (hproper f List.mem_cons_self)
  rw [hrun] at hroot
  exact ⟨_, preds, s₂, S', n, j, gates, S'', hp, hy, ha, hc, hroot⟩

/-- Over a history of successful additions the root comes to join the first gates of
all patterns added, and the patterns compile alone. -/
theorem Matcher.addAll_ok : ∀ {patterns : List (ι × String)} {S : Set (State (Junction ι))} {m m' : Matcher ι}
    {firsts : List (String × Gate ι)}, RootOk S m.supply.label m.root firsts →
    m.addAll patterns = (.ok (), m') → ∃ S' firsts', RootOk S' m'.supply.label m'.root (firsts ++ firsts') ∧
      m'.parser = m.parser ∧ ∀ s : Supply, s.asked = m.supply.asked → ∃ ps s',
        (Solo.compileAll m.parser patterns).exec s = (.ok ps, s') ∧ s'.asked = m'.supply.asked ∧
        List.Forall₂ Begins firsts' ps
  | [], S, m, m', firsts, h, ha => by
    cases ha
    exact ⟨S, [], by rwa [List.append_nil], rfl, fun s hs => ⟨[], s, rfl, hs, .nil⟩⟩
  | (id, text) :: rest, S, m, m', firsts, h, ha => by
    rcases hx : (m.extend id text).exec m.supply with ⟨r, s₁⟩
    cases r with
    | error e =>
      rw [Matcher.addAll, Matcher.add_of_error hx] at ha
      cases ha
    | ok root =>
      rw [Matcher.addAll, Matcher.add_of_ok hx] at ha
      obtain ⟨fields, preds, s₂, S₁, n, j, gates, S₂, hp, hr, he, hc, hroot⟩ := Matcher.exec_extend h hx
      obtain ⟨S', firsts', hroot', hparser, hrest⟩ := Matcher.addAll_ok (S := S₂) hroot ha
      refine ⟨S', gates.take 1 ++ firsts', by rwa [← List.append_assoc], hparser, fun s hs => ?_⟩
      have hr' := (spendsNoLabels_readFields m.parser fields).exec_eq hs
      rw [hr] at hr'
      obtain ⟨alone, t, hcompile, hasked, S₃, n₃, j₃, hc'⟩ := Solo.exec_compile id hp hr'
      obtain ⟨ps, s', hall, hasked', hbegins⟩ := hrest t (hasked.trans he.symm)
      refine ⟨⟨id, alone⟩ :: ps, s', ?_, hasked', ?_⟩
      · have hall' : (rest.mapM fun p => Solo.compile m.parser p.1 p.2).exec t = (.ok ps, s') := hall
        rw [Solo.compileAll, List.mapM_cons, exec_bind_ok hcompile, exec_bind_ok hall']
        rfl
      · obtain ⟨hne, hproper⟩ := Pattern.proper_of_parse hp
        cases hc with
        | done => exact (hne rfl).elim
        | field _ _ _ _ hg hcn =>
          cases hc' with
          | field _ _ _ _ hg' hcn' =>
            refine .cons ⟨_, _, _, rfl, hg.stands hg' (hproper _ List.mem_cons_self).2, ?_⟩ hbegins
            exact hcn.follows hcn' fun f hf => hproper f (List.mem_cons_of_mem _ hf)

/-- A matcher of which the root joins the first gates of some patterns answers as these
do when they are interpreted one by one. -/
theorem RootOk.matchFields_eq {S : Set (State (Junction ι))} {n : Nat} {m : Matcher ι}
    {firsts : List (String × Gate ι)} {ps : List (Solo ι)} (h : RootOk S n m.root firsts)
    (hb : List.Forall₂ Begins firsts ps) (fields : List Field) : m.matchFields fields = Solo.interpret ps fields := by
  rw [Matcher.matchFields, (h.represents hb).search_eq none]
  rfl

/-- A matcher answers as the patterns added to it do when each is compiled alone and
none are merged. -/
theorem Matcher.matchFields_eq_interpret (flattener : Flattener) (parser : Option SpecParser) (asked : Nat)
    (patterns : List (ι × String)) (m : Matcher ι)
    (h : (Matcher.empty flattener parser asked).addAll patterns = (.ok (), m)) :
    ∃ ps s, (Solo.compileAll parser patterns).exec ⟨0, asked⟩ = (.ok ps, s) ∧
      ∀ fields, m.matchFields fields = Solo.interpret ps fields := by
  obtain ⟨S, firsts, hroot', -, hall⟩ := Matcher.addAll_ok (rootOk_empty flattener parser asked) h
  obtain ⟨ps, s, hcompile, -, hbegins⟩ := hall ⟨0, asked⟩ rfl
  exact ⟨ps, s, hcompile, hroot'.matchFields_eq hbegins⟩

/-- A number and a range of numbers on one path, for two identifiers. -/
theorem Matcher.matchFields_eq_interpret_range :
    ∃ m, (Matcher.empty Json.flatten none 0).addAll [(true, "\x7b\"a\":[1]\x7d"),
        (false, "\x7b\"a\":[\x7b\"numeric\":[\"<\",5]\x7d]\x7d")] = (.ok (), m) ∧
      ∃ ps s, (Solo.compileAll none [(true, "\x7b\"a\":[1]\x7d"),
        (false, "\x7b\"a\":[\x7b\"numeric\":[\"<\",5]\x7d]\x7d")]).exec ⟨0, 0⟩ = (.ok ps, s) ∧
        ∀ fields, m.matchFields fields = Solo.interpret ps fields := by
  obtain ⟨m, hm⟩ := exists_eq_ok_of_toBool (x := (Matcher.empty Json.flatten none 0).addAll
    [(true, "\x7b\"a\":[1]\x7d"), (false, "\x7b\"a\":[\x7b\"numeric\":[\"<\",5]\x7d]\x7d")]) (by decide +kernel)
  exact ⟨m, hm, Matcher.matchFields_eq_interpret Json.flatten none 0 _ m hm⟩

end EventMatch
