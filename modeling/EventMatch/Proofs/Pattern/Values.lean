import EventMatch.Matcher.Compile
import EventMatch.Pattern.Parser
import EventMatch.Proofs.Automaton.Ranges
import EventMatch.Proofs.Numeral.Spelling
import EventMatch.Proofs.Text.Bytes

/-!
# The values of patterns

A value has `Words`, which the automaton for it recognizes. The values that a
pattern's text spells are `Proper` (`Pattern.proper_of_parse`): no word holds a
terminator before its end, and a literal is never the plain text of a number
that has a key. Hence it makes no difference to a gate that holds no numbers
whether values are looked up as if it did (`words_lookup_congr`).
-/

namespace EventMatch

/-! ## Steps that may fail -/

section

variable {ε α γ : Type} {x : Except ε α}

theorem Except.map_eq_ok {f : α → γ} {c : γ} : x.map f = .ok c ↔ ∃ a, x = .ok a ∧ f a = c := by
  cases x with
  | error e => exact iff_of_false nofun nofun
  | ok a =>
    refine ⟨fun h => ⟨a, rfl, Except.ok.inj h⟩, ?_⟩
    rintro ⟨_, h, rfl⟩
    cases h
    rfl

theorem Except.bind_eq_ok {f : α → Except ε γ} {c : γ} : (x >>= f) = .ok c ↔ ∃ a, x = .ok a ∧ f a = .ok c := by
  cases x with
  | error e => exact iff_of_false nofun nofun
  | ok a =>
    refine ⟨fun h => ⟨a, rfl, h⟩, ?_⟩
    rintro ⟨_, h, hf⟩
    cases h
    exact hf

end

/-! ## Intervals of clauses -/

namespace KeyInterval

/-- An interval that is not empty and holds keys only. -/
def Spans (i : KeyInterval) : Prop := i.lo ≤ i.hi ∧ i.hi ≤ Numeral.maxKey

theorem spans_all : all.Spans := ⟨Nat.zero_le _, Nat.le_refl _⟩

/-- What two lists have in common are intervals again, within the first list's. -/
theorem spans_of_mem_intersect : ∀ {as bs : List KeyInterval}, (∀ a ∈ as, a.Spans) →
    ∀ i ∈ intersect as bs, i.Spans
  | [], bs, _, i, hi => by
    rw [intersect] at hi
    cases hi
  | a :: as, [], _, i, hi => by
    rw [intersect] at hi
    cases hi
  | a :: as, b :: bs, ha, i, hi => by
    have hrest : ∀ i ∈ (if a.hi < b.hi then intersect as (b :: bs) else intersect (a :: as) bs), i.Spans := by
      intro i hi
      split at hi
      · exact spans_of_mem_intersect (fun a h => ha a (List.mem_cons_of_mem _ h)) i hi
      · exact spans_of_mem_intersect ha i hi
    rw [intersect] at hi
    split at hi
    · rename_i hle
      rcases List.mem_cons.mp hi with rfl | hi
      · exact ⟨hle, Nat.le_trans (Nat.min_le_left _ _) (ha a List.mem_cons_self).2⟩
      · exact hrest i hi
    · exact hrest i hi
termination_by as bs => as.length + bs.length

end KeyInterval

theorem NumericClause.spans_of_foldlM : ∀ {cs : List NumericConstraint} {acc is : List KeyInterval},
    (∀ i ∈ acc, i.Spans) →
    cs.foldlM (fun acc k => k.intervals.map (KeyInterval.intersect acc)) acc = Except.ok is →
    ∀ i ∈ is, i.Spans
  | [], _, _, hacc, h => Except.ok.inj h ▸ hacc
  | c :: cs, acc, is, hacc, h => by
    rw [List.foldlM_cons] at h
    obtain ⟨_, hmap, h⟩ := Except.bind_eq_ok.mp h
    obtain ⟨ks, _, rfl⟩ := Except.map_eq_ok.mp hmap
    exact spans_of_foldlM (KeyInterval.spans_of_mem_intersect hacc) h

theorem NumericClause.spans_of_intervals {c : NumericClause} {is : List KeyInterval}
    (h : c.intervals = .ok is) : ∀ i ∈ is, i.Spans :=
  spans_of_foldlM (fun _ hi => List.mem_singleton.mp hi ▸ KeyInterval.spans_all) h

/-! ## Words of values -/

namespace ValueSpec

/-- The words that the automaton for a value recognizes. -/
def Words : ValueSpec → Bytes → Prop
  | literal text, w => w = text ++ [terminator]
  | number digits, w => w = numberMark :: digits ++ [terminator]
  | numeric c, w => c.isApproximate = false ∧ ∃ is, c.intervals = .ok is ∧
      ∃ u, w = numberMark :: u ∧ KeyWord Numeral.keyWidth (InSome is) u
  | extension _, _ => False

/-- Whether the automaton for a value holds keys of numbers. -/
def hasNumbers : ValueSpec → Bool
  | literal _ => false
  | number _ => true
  | numeric c => !c.isApproximate
  | extension _ => false

/-- What holds for the values of patterns that texts spell. -/
def Proper : ValueSpec → Prop
  | literal text => (∀ b ∈ text, b.toNat < 0xF5) ∧
      ∀ n : Numeral, Numeral.plainText n.spelling = text → ∀ ds, Numeral.canonical n.spelling ≠ .ok ds
  | number digits => terminator ∉ digits
  | numeric _ => True
  | extension _ => True

theorem numberMark_ne_terminator : numberMark ≠ terminator := by decide

/-- The words of proper values end in their first terminator. -/
theorem Proper.endTerminated : ∀ {v : ValueSpec}, v.Proper → EndTerminated v.Words
  | literal text, h, w, hw => ⟨text, hw, fun ht => absurd (h.1 _ ht) (by decide)⟩
  | number digits, h, w, hw => ⟨numberMark :: digits, hw, fun ht =>
      (List.mem_cons.mp ht).elim (fun e => numberMark_ne_terminator e.symm) h⟩
  | numeric c, _, w, ⟨_, is, _, hw⟩ =>
    EndTerminated.cons numberMark_ne_terminator (KeyWord.endTerminated _ _) w hw
  | extension _, _, _, hw => hw.elim

/-! ## Reading values -/

/-- A text that begins with neither a minus nor a digit is the plain text of no number. -/
theorem proper_text {c : Char} (hc : c.toNat < 0x80) (hne : UInt8.ofNat c.toNat ≠ 0x2D)
    (hd : ¬ (0x30 ≤ (UInt8.ofNat c.toNat).toNat ∧ (UInt8.ofNat c.toNat).toNat < 0x3A)) (cs : List Char) :
    Proper (literal (Bytes.ofString (String.ofList (c :: cs)))) := by
  refine ⟨fun b hb => Bytes.toNat_lt_of_mem_ofString hb, fun n hn => ?_⟩
  obtain ⟨b, v, hv, hb⟩ := n.plain.spelling_head
  rw [Numeral.plainText_spelling, hv, Bytes.ofString_ofList_cons hc] at hn
  obtain ⟨rfl, -⟩ := List.cons.inj hn
  exact (hb.elim hne hd).elim

theorem proper_of_number {n : Numeral} {v : ValueSpec} (h : Pattern.number n = .ok v) : v.Proper := by
  unfold Pattern.number at h
  split at h
  · rename_i ds hds
    cases h
    exact fun ht => absurd (Numeral.mem_canonical hds ht).2 (by decide)
  · rename_i hr
    cases h
    refine ⟨fun b hb => ?_, fun m hm ds hds => ?_⟩
    · rw [Numeral.plainText_spelling] at hb
      exact Nat.lt_trans (Numeral.toNat_lt_of_mem_spelling hb) (by decide)
    · rw [Numeral.canonical_of_plainText_eq hm hds] at hr
      cases hr
  · cases h

theorem proper_of_operator {path name : String} {arg : Json} {v : ValueSpec}
    (h : Pattern.operator path name arg = .ok v) : v.Proper := by
  unfold Pattern.operator at h
  split at h
  · split at h
    · obtain ⟨c, _, rfl⟩ := Except.map_eq_ok.mp h
      trivial
    · cases h
  · split at h
    · cases h
      trivial
    · cases h

theorem proper_of_value {path : String} {j : Json} {v : ValueSpec}
    (h : Pattern.value path j = .ok v) : v.Proper := by
  unfold Pattern.value at h
  split at h
  · exact proper_of_number h
  · exact proper_of_operator h
  · cases h
  · cases h
  · rename_i hnum hop hobj harr
    cases h
    cases j with
    | null => exact proper_text (c := 'n') (by decide) (by decide) (by decide) _
    | bool b =>
      cases b with
      | true => exact proper_text (c := 't') (by decide) (by decide) (by decide) _
      | false => exact proper_text (c := 'f') (by decide) (by decide) (by decide) _
    | num n => exact (hnum n rfl).elim
    | str s =>
      show Proper (literal (Bytes.ofString (String.ofList (Json.renderString s))))
      exact proper_text (c := '"') (by decide) (by decide) (by decide) _
    | arr items => exact (harr items rfl).elim
    | obj members => exact (hobj members rfl).elim

end ValueSpec

/-- A field with values, all of which are proper. -/
def PatternField.Proper (f : PatternField) : Prop := f.values ≠ [] ∧ ∀ v ∈ f.values, v.Proper

namespace Pattern

theorem proper_of_mapM {path : String} : ∀ {items : List Json} {values : List ValueSpec},
    items.mapM (value path) = .ok values → values.length = items.length ∧ ∀ v ∈ values, v.Proper
  | [], values, h => by
    cases h
    exact ⟨rfl, fun _ hv => by cases hv⟩
  | j :: items, values, h => by
    rw [List.mapM_cons] at h
    obtain ⟨v, hj, h⟩ := Except.bind_eq_ok.mp h
    obtain ⟨vs, hm, h⟩ := Except.bind_eq_ok.mp h
    cases h
    obtain ⟨hlen, hp⟩ := proper_of_mapM hm
    exact ⟨congrArg Nat.succ hlen, fun w hw =>
      (List.mem_cons.mp hw).elim (fun e => e ▸ ValueSpec.proper_of_value hj) (hp w)⟩

theorem proper_of_field {path : String} {items : List Json} {f : PatternField}
    (h : field path items = .ok f) : f.path = path ∧ f.Proper := by
  unfold field at h
  split at h
  · cases h
  · rename_i hne
    obtain ⟨values, hm, rfl⟩ := Except.map_eq_ok.mp h
    obtain ⟨hlen, hp⟩ := proper_of_mapM hm
    refine ⟨rfl, fun he => hne ?_, hp⟩
    rw [show values = [] from he, List.length_nil] at hlen
    exact List.isEmpty_iff.mpr (List.length_eq_zero_iff.mp hlen.symm)

theorem fieldsOf_cons_eq_ok {path key : String} {j : Json} {ms : List (String × Json)} {fields : List PatternField}
    (h : fieldsOf path ((key, j) :: ms) = .ok fields) : ∃ front back,
      fieldsAt (Path.extend path key) j = .ok front ∧ fieldsOf path ms = .ok back ∧ fields = front ++ back := by
  rw [fieldsOf] at h
  obtain ⟨front, hj, h⟩ := Except.bind_eq_ok.mp h
  obtain ⟨back, hm, h⟩ := Except.bind_eq_ok.mp h
  exact ⟨front, back, hj, hm, (Except.ok.inj h).symm⟩

/-- A pattern is an object that leads to some fields. -/
theorem parse_eq_ok {text : String} {fields : List PatternField} (h : parse text = .ok fields) :
    ∃ members fs, Json.parse? text = some (.obj members) ∧ fieldsOf "" members = .ok fs ∧ fs ≠ [] ∧
      fields = sortByPath fs := by
  unfold parse at h
  split at h
  · cases h
  · rename_i j hj
    unfold ofJson at h
    split at h
    · rename_i members
      obtain ⟨fs, hfs, h⟩ := Except.bind_eq_ok.mp h
      split at h
      · cases h
      · rename_i hne
        exact ⟨members, fs, hj, hfs, fun e => hne (List.isEmpty_iff.mpr e), (Except.ok.inj h).symm⟩
    · cases h

/-- The fields of a text as its members name them one after the other. -/
def unsorted? (text : String) : Option (List PatternField) :=
  match Json.parse? text with
  | some (.obj members) => (fieldsOf "" members).toOption
  | _ => none

/-- A text that names its fields in the order of their paths. -/
theorem parse_of_unsorted {text : String} {fields : List PatternField} (h : unsorted? text = some fields)
    (hne : fields ≠ []) (hs : fields.Pairwise fun f g => Bytes.leString f.path g.path = true) :
    parse text = .ok fields := by
  unfold unsorted? at h
  split at h
  · rename_i members hj
    have hfields : fieldsOf "" members = .ok fields := by
      cases hf : fieldsOf "" members with
      | error e => rw [hf] at h; cases h
      | ok fs => rw [hf] at h; cases h; rfl
    have hempty : fields.isEmpty = false := List.isEmpty_eq_false_iff.mpr hne
    rw [parse, hj]
    simp only [ofJson, hfields, bind, Except.bind, hempty, Bool.false_eq_true, if_false]
    rw [sortByPath, List.mergeSort_of_pairwise hs]
  · cases h

mutual

theorem proper_of_fieldsAt {path : String} : ∀ {j : Json} {fields : List PatternField},
    fieldsAt path j = .ok fields → ∀ f ∈ fields, f.Proper
  | .obj members, fields, h => by
    rw [fieldsAt] at h
    exact proper_of_fieldsOf h
  | .arr items, fields, h => by
    rw [fieldsAt] at h
    obtain ⟨f, hf, rfl⟩ := Except.map_eq_ok.mp h
    exact List.forall_mem_singleton.mpr (proper_of_field hf).2
  | .null, _, h | .bool _, _, h | .num _, _, h | .str _, _, h => by
    unfold fieldsAt at h
    cases h

theorem proper_of_fieldsOf {path : String} : ∀ {members : List (String × Json)}
    {fields : List PatternField}, fieldsOf path members = .ok fields → ∀ f ∈ fields, f.Proper
  | [], fields, h => by
    rw [fieldsOf] at h
    cases h
    exact fun f hf => by cases hf
  | (key, j) :: ms, fields, h => by
    obtain ⟨front, back, hj, hm, rfl⟩ := fieldsOf_cons_eq_ok h
    exact fun f hf => (List.mem_append.mp hf).elim (proper_of_fieldsAt hj f) (proper_of_fieldsOf hm f)

end

/-- A pattern has fields, and each is proper. -/
theorem proper_of_parse {text : String} {fields : List PatternField} (h : parse text = .ok fields) :
    fields ≠ [] ∧ ∀ f ∈ fields, f.Proper := by
  obtain ⟨members, fs, _, hfs, hne, rfl⟩ := parse_eq_ok h
  have hperm : (sortByPath fs).Perm fs := List.mergeSort_perm fs _
  exact ⟨fun e => hne (e ▸ hperm).symm.eq_nil, fun f hf => proper_of_fieldsOf hfs f (hperm.mem_iff.mp hf)⟩

end Pattern

/-! ## Looking values up -/

/-- The words that some value of a list has. -/
def ValuesWords (values : List ValueSpec) (w : Bytes) : Prop := ∃ v ∈ values, v.Words w

/-- The word of which a value's way through an automaton depends. -/
def Gate.lookupWord (hasNumbers : Bool) (v : Bytes) : Bytes :=
  (lookup hasNumbers v).upToTerminator ++ [terminator]

namespace Gate

theorem lookupWord_of_plainText {hasNumbers : Bool} {n : Numeral}
    (h : lookup hasNumbers n.spelling = Numeral.plainText n.spelling) :
    lookupWord hasNumbers n.spelling = Numeral.plainText n.spelling ++ [terminator] := by
  rw [lookupWord, h, Bytes.upToTerminator_of_not_mem]
  intro ht
  rw [Numeral.plainText_spelling] at ht
  exact absurd (Numeral.toNat_lt_of_mem_spelling ht) (by decide)

/-- To proper values that are not looked up as numbers it makes no difference
whether others at their gate are. -/
theorem words_lookup_congr {values : List ValueSpec} (hp : ∀ v ∈ values, v.Proper)
    (hn : ∀ v ∈ values, v.hasNumbers = false) (u : Bytes) :
    ValuesWords values (lookupWord true u) ↔ ValuesWords values (lookupWord false u) := by
  cases hu : Numeral.parse? u with
  | none =>
    have : ∀ b, lookup b u = u := fun b => by rw [lookup, Numeral.isNumeral, hu]; rfl
    rw [lookupWord, lookupWord, this, this]
  | some n =>
    obtain rfl := Numeral.spelling_of_parse? hu
    have hnum := n.isNumeral_spelling
    have hfalse : lookup false n.spelling = Numeral.plainText n.spelling := by
      rw [lookup, if_pos hnum]
      rfl
    cases hc : Numeral.canonical n.spelling with
    | error e =>
      have htrue : lookup true n.spelling = Numeral.plainText n.spelling := by
        rw [lookup, if_pos hnum, if_pos rfl, hc]
      rw [lookupWord, lookupWord, htrue, hfalse]
    | ok ds =>
      have htrue : lookup true n.spelling = numberMark :: ds := by
        rw [lookup, if_pos hnum, if_pos rfl, hc]
      have hnot : terminator ∉ numberMark :: ds := fun ht =>
        (List.mem_cons.mp ht).elim (fun e => ValueSpec.numberMark_ne_terminator e.symm)
          fun ht => absurd (Numeral.mem_canonical hc ht).2 (by decide)
      rw [lookupWord_of_plainText hfalse, lookupWord, htrue, Bytes.upToTerminator_of_not_mem hnot]
      -- Neither the key nor the plain text is one of the literals.
      constructor
      · rintro ⟨v, hv, hw⟩
        cases v with
        | literal t =>
          obtain rfl := List.append_cancel_right hw
          exact absurd ((hp _ hv).1 numberMark List.mem_cons_self) (by decide)
        | number _ => cases hn _ hv
        | numeric c => exact absurd (hn _ hv) (by rw [ValueSpec.hasNumbers, hw.1]; decide)
        | extension _ => exact hw.elim
      · rintro ⟨v, hv, hw⟩
        cases v with
        | literal t => exact ((hp _ hv).2 n (List.append_cancel_right hw) ds hc).elim
        | number _ => cases hn _ hv
        | numeric c => exact absurd (hn _ hv) (by rw [ValueSpec.hasNumbers, hw.1]; decide)
        | extension _ => exact hw.elim

end Gate

end EventMatch
