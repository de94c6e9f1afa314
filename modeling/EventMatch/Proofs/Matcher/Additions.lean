import EventMatch.Proofs.Matcher.Faults

/-!
# Additions that fail

Whether a text can be added depends on the text and on the spec parser, not on the patterns
that the matcher holds. `Matcher.add_outcome`: an addition fails as the reading of the text
does, or else at the first of its values, from the last field to the first, of which no gate
can be made. After that the matcher is what it was, only that its spec parser may have been
asked: with a parser that answers by the spec alone, whatever is added later goes as if the
failed addition had not been tried (`Matcher.addEach_withAsked`).
-/

namespace EventMatch

open Compile

variable {ι : Type}

namespace Matcher

/-- The same matcher after its spec parser was asked so often. -/
def withAsked (m : Matcher ι) (n : Nat) : Matcher ι := { m with supply := { m.supply with asked := n } }

variable [BEq ι]

/-- Adds patterns in order, and goes on after those that cannot be added. Gives what came of each. -/
def addEach (m : Matcher ι) : List (ι × String) → List (Except MatchError Unit) × Matcher ι
  | [] => ([], m)
  | (id, text) :: rest => (((m.add id text).1 :: ((m.add id text).2.addEach rest).1),
      ((m.add id text).2.addEach rest).2)

/-- The matchers hold as many patterns and answer alike. -/
structure AnswersAs (m m' : Matcher ι) : Prop where
  size : m.size = m'.size
  fields : ∀ fields, m.matchFields fields = m'.matchFields fields
  event : ∀ event, m.matchEvent event = m'.matchEvent event

theorem answersAs_withAsked (m : Matcher ι) (n : Nat) : (m.withAsked n).AnswersAs m :=
  ⟨rfl, fun _ => rfl, fun _ => rfl⟩

/-! ## One addition -/

variable {m : Matcher ι} {id : ι} {text : String}

theorem add_ok_iff : (m.add id text).1 = .ok () ↔ ∃ root s, (m.extend id text).exec m.supply = (.ok root, s) := by
  rcases hx : (m.extend id text).exec m.supply with ⟨r, s⟩
  cases r with
  | ok root =>
    rw [add_of_ok hx]
    exact iff_of_true rfl ⟨root, s, rfl⟩
  | error e =>
    rw [add_of_error hx]
    exact iff_of_false nofun fun ⟨_, _, h⟩ => nomatch h

theorem add_error_iff {e : MatchError} :
    (m.add id text).1 = .error e ↔ ∃ s, (m.extend id text).exec m.supply = (.error e, s) := by
  rcases hx : (m.extend id text).exec m.supply with ⟨r, s⟩
  cases r with
  | ok root =>
    rw [add_of_ok hx]
    exact iff_of_false nofun fun ⟨_, h⟩ => nomatch h
  | error e' =>
    rw [add_of_error hx]
    refine ⟨fun h => ⟨s, ?_⟩, fun ⟨_, h⟩ => ?_⟩
    · rw [Except.error.inj h]
    · cases h
      rfl

theorem exec_extend_of_parse_error {e : MatchError} (h : Pattern.parse text = .error e) :
    (m.extend id text).exec m.supply = (.error e, m.supply) := by
  rw [extend, h]
  rfl

/-- What is done after the text is read goes through the values. -/
theorem goesThrough_extend {fields : List PatternField} (h : Pattern.parse text = .ok fields) :
    GoesThrough m.parser (Pattern.compileOrder fields) (m.extend id text) := by
  rw [extend, h, ofExcept_ok, pure_bind]
  exact (Junction.goesThrough_ofPattern m.parser id fields).bind_nil fun _ => .fresh _

theorem add_ok_iff_allCompilable : (m.add id text).1 = .ok () ↔ ∃ fields, Pattern.parse text = .ok fields ∧
    AllCompilable m.parser m.supply.asked (Pattern.compileOrder fields) := by
  rw [add_ok_iff]
  cases hp : Pattern.parse text with
  | ok fields =>
    simp only [(goesThrough_extend hp).exists_ok_iff, Except.ok.injEq, exists_eq_left']
  | error e =>
    rw [exec_extend_of_parse_error hp]
    exact iff_of_false (fun ⟨_, _, h⟩ => nomatch h) fun ⟨_, h, _⟩ => nomatch h

theorem add_error_iff_firstFault {e : MatchError} : (m.add id text).1 = .error e ↔ Pattern.parse text = .error e ∨
    ∃ fields, Pattern.parse text = .ok fields ∧
      FirstFault m.parser m.supply.asked (Pattern.compileOrder fields) e := by
  rw [add_error_iff]
  cases hp : Pattern.parse text with
  | ok fields =>
    simp only [(goesThrough_extend hp).exists_error_iff, reduceCtorEq, false_or, Except.ok.injEq, exists_eq_left']
  | error e' =>
    rw [exec_extend_of_parse_error hp]
    simp only [Prod.mk.injEq, Except.error.injEq, exists_and_left, exists_eq', and_true, reduceCtorEq, false_and,
      exists_false, or_false]

/-- What comes of an addition depends on nothing of the matcher but its parser and how often that was
asked. -/
theorem add_fst_congr {m' : Matcher ι} (hm : m'.parser = m.parser) (ha : m'.supply.asked = m.supply.asked) {id' : ι} :
    (m'.add id' text).1 = (m.add id text).1 := by
  cases h : (m.add id text).1 with
  | ok =>
    rw [add_ok_iff_allCompilable] at h
    rwa [add_ok_iff_allCompilable, hm, ha]
  | error e =>
    rw [add_error_iff_firstFault] at h
    rwa [add_error_iff_firstFault, hm, ha]

/-- A failed addition leaves the matcher what it was, but for the parser that was asked. -/
theorem exists_withAsked_of_add_error {e : MatchError} (h : (m.add id text).1 = .error e) :
    ∃ n, (m.add id text).2 = m.withAsked n := by
  obtain ⟨s, hx⟩ := add_error_iff.mp h
  exact ⟨s.asked, by rw [add_of_error hx]; rfl⟩

/-! ## Later additions -/

section

variable (hparser : ∀ p, m.parser = some p → p.AnswersBySpec)

include hparser

theorem ignoresAsked_extend (id : ι) (text : String) : IgnoresAsked (m.extend id text) := by
  refine .bind (.ofExcept _) fun fields => .bind (.bind (.fresh _) fun last => ?_) fun _ => .fresh _
  refine .foldrM (fun f next => ?_) fields last
  refine .bind (.bind ?_ fun _ => .pure _) fun _ => .fresh _
  exact .foldlM (ignoresAsked_addValue hparser next) f.values _

/-- What an addition does is the same however often the parser was asked before. -/
theorem add_withAsked (n : Nat) (id : ι) (text : String) :
    ∃ k, (m.withAsked n).add id text = ((m.add id text).1, (m.add id text).2.withAsked k) := by
  obtain ⟨hresult, hlabel⟩ := ignoresAsked_extend hparser id text m.supply (m.withAsked n).supply rfl
  rcases hx : (m.extend id text).exec m.supply with ⟨r, s⟩
  rcases hy : ((m.withAsked n).extend id text).exec (m.withAsked n).supply with ⟨r', s'⟩
  rw [hx, show m.extend id text = (m.withAsked n).extend id text from rfl, hy] at hresult hlabel
  obtain rfl : r = r' := hresult
  have hs : s' = { s with asked := s'.asked } := by rw [show s.label = s'.label from hlabel]
  cases r with
  | ok root =>
    rw [add_of_ok hx, add_of_ok hy, hs]
    exact ⟨s'.asked, rfl⟩
  | error e =>
    rw [add_of_error hx, add_of_error hy]
    exact ⟨s'.asked, rfl⟩

end

theorem parser_add (m : Matcher ι) (id : ι) (text : String) : (m.add id text).2.parser = m.parser := by
  rcases hx : (m.extend id text).exec m.supply with ⟨r, s⟩
  cases r with
  | ok root => rw [add_of_ok hx]
  | error e => rw [add_of_error hx]

/-- So are any number of additions, whether or not they succeed. -/
theorem addEach_withAsked : ∀ (later : List (ι × String)) {m : Matcher ι},
    (∀ p, m.parser = some p → p.AnswersBySpec) → ∀ n, ∃ k,
      (m.withAsked n).addEach later = ((m.addEach later).1, (m.addEach later).2.withAsked k)
  | [], m, _, n => ⟨n, rfl⟩
  | (id, text) :: rest, m, hparser, n => by
    obtain ⟨k, hadd⟩ := add_withAsked hparser n id text
    obtain ⟨k', hrest⟩ := addEach_withAsked rest (m := (m.add id text).2) (parser_add m id text ▸ hparser) k
    exact ⟨k', by rw [addEach, addEach, hadd, hrest]⟩

end Matcher

/-! ## What comes of an addition -/

variable [BEq ι]

/-- A text is added just if it spells a pattern of which all values can be compiled. If it spells
none, the addition fails as its reading does; else it fails as the first value that cannot be
compiled, from the last field to the first. After a failure the matcher is what it was before,
but for the number of specs its parser was given. If the parser answers by the spec alone,
neither the order of the values nor what the matcher holds makes a difference to whether a
text is added, and a failure makes none to any later additions. -/
theorem Matcher.add_outcome (m : Matcher ι) (id : ι) (text : String) :
    ((m.add id text).1 = .ok () ↔ ∃ fields, Pattern.parse text = .ok fields ∧
      AllCompilable m.parser m.supply.asked (Pattern.compileOrder fields)) ∧
    (∀ e, (m.add id text).1 = .error e ↔ Pattern.parse text = .error e ∨
      ∃ fields, Pattern.parse text = .ok fields ∧
        FirstFault m.parser m.supply.asked (Pattern.compileOrder fields) e) ∧
    (∀ e, (m.add id text).1 = .error e →
      (∃ n, (m.add id text).2 = m.withAsked n) ∧ (m.add id text).2.AnswersAs m) ∧
    ((∀ p, m.parser = some p → p.AnswersBySpec) →
      ((m.add id text).1 = .ok () ↔ ∃ fields, Pattern.parse text = .ok fields ∧
        ∀ f ∈ fields, ∀ v ∈ f.values, ∀ n, v.Compilable m.parser n) ∧
      (∀ m' : Matcher ι, m'.parser = m.parser → ∀ id', (m'.add id' text).1 = (m.add id text).1) ∧
      ∀ e, (m.add id text).1 = .error e → ∀ later,
        ((m.add id text).2.addEach later).1 = (m.addEach later).1 ∧
        ((m.add id text).2.addEach later).2.AnswersAs (m.addEach later).2) := by
  refine ⟨add_ok_iff_allCompilable, fun e => add_error_iff_firstFault, fun e h => ?_, fun hparser => ⟨?_, ?_, ?_⟩⟩
  · obtain ⟨n, hn⟩ := exists_withAsked_of_add_error h
    exact ⟨⟨n, hn⟩, hn ▸ m.answersAs_withAsked n⟩
  · rw [add_ok_iff_allCompilable]
    simp only [allCompilable_iff_forall hparser, Pattern.mem_compileOrder, forall_exists_index, and_imp]
    refine exists_congr fun fields => and_congr_right fun _ => ?_
    exact ⟨fun h f hf v hv => h v f hf hv, fun h v f hf hv => h f hf v hv⟩
  · intro m' hm' id'
    have hparsers : m'.parser = (m.withAsked m'.supply.asked).parser := hm'
    have hsame : (m'.add id' text).1 = ((m.withAsked m'.supply.asked).add id text).1 := add_fst_congr hparsers rfl
    obtain ⟨k, hk⟩ := add_withAsked hparser m'.supply.asked id text
    rw [hsame, hk]
  · intro e h later
    obtain ⟨n, hn⟩ := exists_withAsked_of_add_error h
    obtain ⟨k, hk⟩ := addEach_withAsked later hparser n
    rw [hn, hk]
    exact ⟨rfl, answersAs_withAsked _ k⟩

/-- Of two values that cannot be compiled, an argument that is out of range and an extension for
which there is no parser, the one in the last field is reported; the next text is added. -/
theorem Matcher.add_outcome_refused : ∃ (m : Matcher Bool) (text : String),
    m = Matcher.empty Json.flatten none 0 ∧
    text = "\x7b\"a\":[\x7b\"numeric\":[\"<\",1e10]\x7d],\"b\":[\x7b\"extension\":1\x7d]\x7d" ∧
    (m.add true text).1 = .error (.spec .noParser) ∧ (m.add true text).2.AnswersAs m ∧
    ((m.add true text).2.addEach [(false, "\x7b\"a\":[true]\x7d")]).1 = [.ok ()] := by
  have hparse : ∃ f, Pattern.parse
      "\x7b\"a\":[\x7b\"numeric\":[\"<\",1e10]\x7d],\"b\":[\x7b\"extension\":1\x7d]\x7d" =
        .ok [f, ⟨"b", [.extension "1"]⟩] := by
    let n : Numeral := ⟨false, ⟨1, []⟩, none, some ⟨false, some .plus, ⟨1, [0]⟩⟩⟩
    exact ⟨⟨"a", [.numeric ⟨[⟨.less, Binary64.ofNumeral n, n⟩]⟩]⟩,
      Pattern.parse_of_unsorted (by decide +kernel) (by simp) (by decide +kernel)⟩
  have hlater : Pattern.parse "\x7b\"a\":[true]\x7d" = .ok [⟨"a", [.literal (Bytes.ofString "true")]⟩] :=
    Pattern.parse_of_unsorted (by decide +kernel) (by simp) (by simp)
  obtain ⟨f, hparse⟩ := hparse
  obtain ⟨-, herror, hsame, hbySpec⟩ := Matcher.add_outcome (Matcher.empty Json.flatten none 0) true
    "\x7b\"a\":[\x7b\"numeric\":[\"<\",1e10]\x7d],\"b\":[\x7b\"extension\":1\x7d]\x7d"
  have hfail := (herror (.spec .noParser)).mpr (.inr ⟨_, hparse, .here _ (.noParser _ rfl)⟩)
  refine ⟨_, _, rfl, rfl, hfail, (hsame _ hfail).2, ?_⟩
  rw [((hbySpec nofun).2.2 _ hfail _).1, Matcher.addEach, Matcher.addEach]
  refine congrArg (fun r => [r]) ((Matcher.add_outcome _ false _).1.mpr ⟨_, hlater, trivial, trivial⟩)

end EventMatch
