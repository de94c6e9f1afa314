import EventMatch.Proofs.Matcher.Equivalence

/-!
# Matchers of one pattern

`Matcher.addAll_alone`: patterns of which each can be added to a matcher of its own
can be added to one matcher, and this answers what the matchers of single patterns
answer. How often the spec parser was asked before matters only if the parser does
not answer by the spec alone.
-/

namespace EventMatch

open Compile

variable {ι α γ : Type}

/-! ## Parsers that answer by the spec -/

/-- The parser's answers do not depend on what it was asked before. -/
def SpecParser.AnswersBySpec (p : SpecParser) : Prop :=
  ∀ asked asked' spec, p.parse asked spec = p.parse asked' spec

theorem SpecParser.answersBySpec_ofFunction (f : Bytes → Except MatchError Predicate) :
    (SpecParser.ofFunction f).AnswersBySpec := fun _ _ _ => rfl

namespace Compile

/-- What the step gives, and the next label, do not depend on how often the parser was
asked before. -/
def IgnoresAsked (x : Compile α) : Prop := ∀ s s' : Supply, s.label = s'.label →
  (x.exec s).1 = (x.exec s').1 ∧ (x.exec s).2.label = (x.exec s').2.label

namespace IgnoresAsked

theorem pure (a : α) : IgnoresAsked (Pure.pure a : Compile α) := fun _ _ h => ⟨rfl, h⟩

theorem ofExcept (x : Except MatchError α) : IgnoresAsked (.ofExcept x) := fun _ _ h => ⟨rfl, h⟩

theorem fresh (x : Fresh α) : IgnoresAsked (.fresh x) := fun s s' h => by
  rw [exec_fresh, exec_fresh, h]
  exact ⟨rfl, rfl⟩

theorem bind {x : Compile α} {f : α → Compile γ} (hx : x.IgnoresAsked) (hf : ∀ a, (f a).IgnoresAsked) :
    (x >>= f).IgnoresAsked := by
  intro s s' h
  obtain ⟨h₁, h₂⟩ := hx s s' h
  rcases e : x.exec s with ⟨r, t⟩
  rcases e' : x.exec s' with ⟨r', t'⟩
  rw [e, e'] at h₁ h₂
  obtain rfl : r = r' := h₁
  cases r with
  | ok a =>
    rw [exec_bind_ok e, exec_bind_ok e']
    exact hf a t t' h₂
  | error err =>
    rw [exec_bind_error e, exec_bind_error e']
    exact ⟨rfl, h₂⟩

theorem foldlM {f : γ → α → Compile γ} (hf : ∀ c a, (f c a).IgnoresAsked) :
    ∀ (as : List α) (c : γ), (as.foldlM f c).IgnoresAsked
  | [], c => .pure c
  | a :: as, c => by
    rw [List.foldlM_cons]
    exact .bind (hf c a) fun c => foldlM hf as c

theorem foldrM {f : α → γ → Compile γ} (hf : ∀ a c, (f a c).IgnoresAsked) :
    ∀ (as : List α) (c : γ), (as.foldrM f c).IgnoresAsked
  | [], c => .pure c
  | a :: as, c => by
    rw [List.foldrM_cons]
    exact .bind (foldrM hf as c) fun c => hf a c

end IgnoresAsked

end Compile

variable {parser : Option SpecParser} (hparser : ∀ p, parser = some p → p.AnswersBySpec)

include hparser

theorem SpecParser.ignoresAsked_predicate (spec : String) : IgnoresAsked (SpecParser.predicate parser spec) := by
  cases parser with
  | none => exact fun _ _ h => ⟨rfl, h⟩
  | some p =>
    intro s s' h
    rw [SpecParser.exec_predicate, SpecParser.exec_predicate, hparser p rfl s.asked s'.asked]
    exact ⟨rfl, h⟩

theorem ignoresAsked_addValue (next : Junction ι) (d : GateDraft ι) (v : ValueSpec) :
    IgnoresAsked (GateDraft.addValue parser next d v) := by
  cases v with
  | literal text =>
    rw [GateDraft.addValue]
    exact .fresh _
  | number digits =>
    rw [GateDraft.addValue]
    exact .fresh _
  | numeric c =>
    rw [GateDraft.addValue]
    split
    · exact .fresh _
    · exact .bind (.ofExcept _) fun _ => .fresh _
  | extension spec =>
    rw [GateDraft.addValue]
    exact .bind (SpecParser.ignoresAsked_predicate hparser spec) fun _ => .fresh _

theorem Solo.ignoresAsked_compile (id : ι) (text : String) : IgnoresAsked (Solo.compile parser id text) := by
  refine .bind (.ofExcept _) fun fields => .bind ?_ fun _ => .pure _
  refine .bind (.fresh _) fun j => .foldrM (fun f r => ?_) fields (j, [])
  refine .bind ?_ fun gate => .bind (.fresh _) fun _ => .pure _
  exact .bind (.foldlM (ignoresAsked_addValue hparser r.1) f.values _) fun _ => .pure _

omit hparser

/-! ## Matchers of one pattern -/

/-- The text spells a pattern, and all its predicates can be read. -/
def Readable (parser : Option SpecParser) (text : String) (s : Supply) : Prop :=
  ∃ fields preds s', Pattern.parse text = .ok fields ∧ (readFields parser fields).exec s = (.ok preds, s')

theorem Readable.congr {text : String} {s s' : Supply} (h : Readable parser text s) (ha : s'.asked = s.asked) :
    Readable parser text s' := by
  obtain ⟨fields, preds, t, hp, hr⟩ := h
  have hr' := (spendsNoLabels_readFields parser fields).exec_eq ha
  rw [hr] at hr'
  exact ⟨fields, preds, _, hp, hr'⟩

theorem Solo.exec_compile_iff (id : ι) {text : String} {s : Supply} :
    (∃ p s', (Solo.compile parser id text).exec s = (.ok p, s')) ↔ Readable parser text s := by
  constructor
  · rintro ⟨p, s', h⟩
    obtain ⟨fields, preds, s₁, _, _, _, hp, hr, _, _⟩ := Solo.of_exec_compile h
    exact ⟨fields, preds, s₁, hp, hr⟩
  · rintro ⟨fields, preds, s', hp, hr⟩
    obtain ⟨gates, s₁, h, -⟩ := Solo.exec_compile id hp hr
    exact ⟨_, _, h⟩

/-- The patterns alone are those that their texts compile to, each from some supply. -/
theorem Solo.forall₂_of_exec : ∀ {patterns : List (ι × String)} {s s' : Supply} {ps : List (Solo ι)},
    (Solo.compileAll parser patterns).exec s = (.ok ps, s') →
    List.Forall₂ (fun (p : ι × String) alone => ∃ t t', (Solo.compile parser p.1 p.2).exec t = (.ok alone, t'))
      patterns ps
  | [], _, _, _, h => by
    cases h
    exact .nil
  | p :: patterns, s, s', ps, h => by
    rw [Solo.compileAll, List.mapM_cons] at h
    obtain ⟨alone, t, hp, h⟩ := exec_bind_eq_ok h
    obtain ⟨rest, u, hrest, h⟩ := exec_bind_eq_ok h
    cases h
    exact .cons ⟨s, t, hp⟩ (forall₂_of_exec hrest)

theorem Solo.id_of_exec_compile {id : ι} {text : String} {s s' : Supply} {p : Solo ι}
    (h : (Solo.compile parser id text).exec s = (.ok p, s')) : p.id = id := by
  obtain ⟨_, _, _, _, _, _, _, _, hid, _⟩ := Solo.of_exec_compile h
  exact hid

/-- Related lists, the first without repetitions, are related by a function. -/
theorem exists_map_of_forall₂ {r : α → γ → Prop} {as : List α} {cs : List γ} (h : List.Forall₂ r as cs)
    (hn : as.Nodup) (c : γ) : ∃ f : α → γ, cs = as.map f ∧ ∀ a ∈ as, r a (f a) := by
  classical
  induction h with
  | nil => exact ⟨fun _ => c, rfl, fun _ h => nomatch h⟩
  | @cons a b as cs hr _ ih =>
    obtain ⟨ha, hn⟩ := List.nodup_cons.mp hn
    obtain ⟨f, rfl, hf⟩ := ih hn
    have hne : ∀ x ∈ as, x ≠ a := fun x hx e => ha (e ▸ hx)
    refine ⟨fun x => if x = a then b else f x, ?_, fun x hx => ?_⟩
    · rw [List.map_cons, if_pos rfl]
      exact congrArg _ (List.map_congr_left fun x hx => (if_neg (hne x hx)).symm)
    · show r x (if x = a then b else f x)
      by_cases hxa : x = a
      · rw [if_pos hxa, hxa]
        exact hr
      · rw [if_neg hxa]
        exact hf x ((List.mem_cons.mp hx).resolve_left hxa)

variable [BEq ι]

namespace Matcher

/-- The attempt to make a matcher that holds one text, configured like the template.
The spec parser has been asked `asked` times before. -/
def alone (template : Matcher ι) (asked : Nat) (id : ι) (text : String) : Except MatchError Unit × Matcher ι :=
  (empty template.flattener template.parser asked).add id text

/-- A matcher of one text answers as its pattern, wherever that was compiled. -/
theorem matchFields_alone {template : Matcher ι} {id : ι} {text : String} {s s' : Supply}
    {p : Solo ι} (h : (template.alone s.asked id text).1 = .ok ())
    (hp : (Solo.compile template.parser id text).exec s = (.ok p, s')) (fields : List Field) :
    (template.alone s.asked id text).2.matchFields fields = Solo.interpret [p] fields := by
  have hadd : (empty template.flattener template.parser s.asked).addAll [(id, text)] =
      (.ok (), (template.alone s.asked id text).2) := by
    rw [addAll]
    rcases e : (empty template.flattener template.parser s.asked).add id text with ⟨r, m⟩
    rw [alone, e] at h
    rw [alone, e, show r = .ok () from h]
    rfl
  obtain ⟨S, firsts, hroot, -, hall⟩ :=
    addAll_ok (rootOk_empty template.flattener template.parser s.asked) hadd
  obtain ⟨ps, t, hcompile, -, hbegins⟩ := hall s rfl
  have hps : ps = [p] := by
    have hone : (Solo.compileAll template.parser [(id, text)]).exec s = (.ok [p], s') := by
      rw [Solo.compileAll, List.mapM_cons, exec_bind_ok hp]
      rfl
    rw [show (Matcher.empty template.flattener template.parser s.asked : Matcher ι).parser = template.parser
      from rfl, hone] at hcompile
    cases hcompile
    rfl
  exact hroot.matchFields_eq (hps ▸ hbegins) fields

/-- A text can be added to any matcher of which the parser can read its predicates. -/
theorem exec_extend_of_readable {S : Set (State (Junction ι))} {m : Matcher ι}
    {firsts : List (String × Gate ι)} (hm : RootOk S m.supply.label m.root firsts) (id : ι) {text : String}
    (h : Readable m.parser text m.supply) : ∃ root s', (m.extend id text).exec m.supply = (.ok root, s') := by
  obtain ⟨fields, preds, s₂, hp, hr⟩ := h
  rcases (chain_ok m.parser id fields hm.pool).cases with
    ⟨⟨j, gates⟩, ps, s₁, _, _, hc, _, _, _, _, _, _⟩ | ⟨e, s₁, s₂, _, hy, _, _⟩
  · have he : (m.extend id text).exec m.supply =
        (Compile.fresh (Automaton.withFreshMemo (m.root.mergeWith j))).exec s₁ := by
      rw [extend, hp, ofExcept_ok, pure_bind, ← Solo.fst_chain, bind_assoc, exec_bind_ok hc, pure_bind]
    exact ⟨_, _, he.trans (exec_fresh _ _)⟩
  · rw [hr] at hy
    cases hy

/-- A matcher of its own takes a text of which the predicates can be read. -/
theorem alone_ok_iff {template : Matcher ι} {id : ι} {text : String} {s : Supply} :
    (template.alone s.asked id text).1 = .ok () ↔ Readable template.parser text s := by
  have hroot := rootOk_empty (ι := ι) template.flattener template.parser s.asked
  constructor
  · intro h
    rcases hx : ((empty template.flattener template.parser s.asked : Matcher ι).extend id text).exec
      (empty (ι := ι) template.flattener template.parser s.asked).supply with ⟨r, t⟩
    cases r with
    | error e =>
      rw [alone, add_of_error hx] at h
      cases h
    | ok root =>
      obtain ⟨fields, preds, s₂, _, _, _, _, _, hp, hr, -, -, -⟩ := exec_extend hroot hx
      exact Readable.congr ⟨fields, preds, s₂, hp, hr⟩ rfl
  · intro h
    obtain ⟨root, s', hx⟩ := exec_extend_of_readable hroot id (h.congr rfl)
    rw [alone, add_of_ok hx]

/-- Texts of which each is taken by a matcher of its own are all taken by one. -/
theorem exists_addAll : ∀ {patterns : List (ι × String)} {S : Set (State (Junction ι))} {m : Matcher ι}
    {firsts : List (String × Gate ι)}, RootOk S m.supply.label m.root firsts →
    (∀ p ∈ patterns, ∀ asked, (m.alone asked p.1 p.2).1 = .ok ()) →
    ∃ m', m.addAll patterns = (.ok (), m') ∧ m'.size = m.size + patterns.length
  | [], _, m, _, _, _ => ⟨m, rfl, rfl⟩
  | (id, text) :: rest, S, m, firsts, hm, h => by
    obtain ⟨root, s', hx⟩ := exec_extend_of_readable hm id
      (alone_ok_iff.mp (h (id, text) List.mem_cons_self m.supply.asked))
    obtain ⟨_, _, _, _, _, _, gates, S', _, _, _, _, hroot⟩ := exec_extend hm hx
    obtain ⟨m', hadd, hsize⟩ := exists_addAll (m := { m with root, size := m.size + 1, supply := s' }) hroot
      fun p hp => h p (List.mem_cons_of_mem _ hp)
    refine ⟨m', ?_, ?_⟩
    · rw [addAll, add_of_ok hx]
      exact hadd
    · rw [hsize, List.length_cons]
      show m.size + 1 + rest.length = _
      omega

/-- If the parser answers by the spec alone, it makes no difference what it was asked
before a matcher was made. -/
theorem alone_congr {template : Matcher ι} (hparser : ∀ p, template.parser = some p → p.AnswersBySpec)
    {n n' : Nat} {id : ι} {text : String} (h : (template.alone n id text).1 = .ok ()) :
    (template.alone n' id text).1 = .ok () ∧
      ∀ fields, (template.alone n' id text).2.matchFields fields = (template.alone n id text).2.matchFields fields := by
  obtain ⟨p, t, hp⟩ := (Solo.exec_compile_iff id).mpr (alone_ok_iff (s := ⟨0, n⟩).mp h)
  have hp' := (Solo.ignoresAsked_compile hparser id text ⟨0, n⟩ ⟨0, n'⟩ rfl).1
  rw [hp] at hp'
  obtain ⟨t', hp'⟩ : ∃ t', (Solo.compile template.parser id text).exec ⟨0, n'⟩ = (.ok p, t') := by
    rcases e : (Solo.compile template.parser id text).exec ⟨0, n'⟩ with ⟨r, t'⟩
    rw [e] at hp'
    exact ⟨t', by rw [show r = .ok p from hp'.symm]⟩
  have h' : (template.alone n' id text).1 = .ok () :=
    alone_ok_iff (s := ⟨0, n'⟩).mpr ((Solo.exec_compile_iff id).mp ⟨p, t', hp'⟩)
  refine ⟨h', fun fields => ?_⟩
  rw [matchFields_alone (s := ⟨0, n'⟩) h' hp', matchFields_alone (s := ⟨0, n⟩) h hp]

variable [LawfulBEq ι]

/-- Different patterns of which each is taken alone are taken together, and each
answers in one matcher as it does alone. -/
theorem addAll_alone (template : Matcher ι) (asked : Nat) {patterns : List (ι × String)} (hn : patterns.Nodup)
    (h : ∀ p ∈ patterns, ∀ n, (template.alone n p.1 p.2).1 = .ok ()) :
    ∃ m, (empty template.flattener template.parser asked).addAll patterns = (.ok (), m) ∧
      m.size = patterns.length ∧ (∀ fields, (m.matchFields fields).Nodup) ∧
      ∃ n : ι → String → Nat, ∀ x fields, x ∈ m.matchFields fields ↔
        ∃ t, (x, t) ∈ patterns ∧ x ∈ (template.alone (n x t) x t).2.matchFields fields := by
  have hempty := rootOk_empty (ι := ι) template.flattener template.parser asked
  obtain ⟨m, hadd, hsize⟩ := exists_addAll hempty h
  obtain ⟨S, firsts, hroot, -, hall⟩ := addAll_ok hempty hadd
  obtain ⟨ps, s', hcompile, -, hbegins⟩ := hall ⟨0, asked⟩ rfl
  have hmatch := hroot.matchFields_eq hbegins
  refine ⟨m, hadd, hsize.trans (Nat.zero_add _), fun fields => by rw [hmatch]; exact Solo.nodup_interpret ps fields, ?_⟩
  cases hpat : patterns with
  | nil =>
    have hps := Solo.forall₂_of_exec hcompile
    rw [hpat] at hps
    cases hps
    refine ⟨fun _ _ => 0, fun x fields => ?_⟩
    rw [hmatch, Solo.mem_interpret]
    exact iff_of_false (fun ⟨_, h, _⟩ => List.not_mem_nil h) fun ⟨_, h, _⟩ => List.not_mem_nil h
  | cons first _ =>
    rw [← hpat]
    obtain ⟨f, hf, hcomp⟩ := exists_map_of_forall₂ (Solo.forall₂_of_exec hcompile) hn ⟨first.1, []⟩
    have hsupply : ∀ p : ι × String, ∃ t : Supply, p ∈ patterns →
        ∃ t', (Solo.compile template.parser p.1 p.2).exec t = (.ok (f p), t') := fun p => by
      by_cases hp : p ∈ patterns
      · obtain ⟨t, t', ht⟩ := hcomp p hp
        exact ⟨t, fun _ => ⟨t', ht⟩⟩
      · exact ⟨⟨0, 0⟩, fun h => absurd h hp⟩
    choose supply hsupply using hsupply
    refine ⟨fun x t => (supply (x, t)).asked, fun x fields => ?_⟩
    have hone : ∀ p ∈ patterns, (x ∈ Solo.search [f p] none (Field.sortByPath fields) ↔
        x ∈ (template.alone (supply p).asked p.1 p.2).2.matchFields fields) := fun p hp => by
      obtain ⟨t', ht⟩ := hsupply p hp
      rw [matchFields_alone (h p hp _) ht, Solo.mem_interpret]
      simp only [List.mem_singleton, exists_eq_left]
    rw [hmatch, Solo.mem_interpret, hf]
    constructor
    · rintro ⟨_, hmem, hx⟩
      obtain ⟨p, hp, rfl⟩ := List.mem_map.mp hmem
      obtain ⟨t', ht⟩ := hsupply p hp
      obtain rfl : x = p.1 := (Solo.id_of_mem_search hx).trans (Solo.id_of_exec_compile ht)
      exact ⟨p.2, hp, (hone p hp).mp hx⟩
    · rintro ⟨t, hp, hx⟩
      exact ⟨f (x, t), List.mem_map.mpr ⟨_, hp, rfl⟩, (hone _ hp).mpr hx⟩

end Matcher

end EventMatch
