import EventMatch.Proofs.Pattern.Values

/-!
# Compiled gates

What a step of compiling does apart from labels, its `exec` shows: the result or
the error, and how often the spec parser was asked. `Compiles` compares a step
with a second one that spends no labels. `ofValues_ok`: the gate of a field's values
recognizes their words and has their predicates, and if it cannot be compiled
this is because the predicates cannot be read (`ValueSpec.readTests`).
-/

namespace EventMatch

variable {ι α γ δ ε : Type}

/-! ## Steps of compiling -/

namespace Compile

/-- What a step gives from a supply, and the supply it leaves. -/
def exec (x : Compile α) (s : Supply) : Except MatchError α × Supply := x.run.run s

theorem ofExcept_ok (a : α) : ofExcept (.ok a) = (pure a : Compile α) := rfl

theorem exec_fresh (x : Fresh α) (s : Supply) :
    exec (.fresh x) s = (.ok (x.run s.label).1, { s with label := (x.run s.label).2 }) := rfl

theorem exec_bind_ok {x : Compile α} {f : α → Compile γ} {s s' : Supply} {a : α}
    (h : x.exec s = (.ok a, s')) : (x >>= f).exec s = (f a).exec s' := by
  show ((x.run.run s : Except MatchError α × Supply) |> fun r => (ExceptT.bindCont f r.1).run r.2) = _
  rw [show x.run.run s = (Except.ok a, s') from h]
  rfl

theorem exec_bind_error {x : Compile α} {f : α → Compile γ} {s s' : Supply} {e : MatchError}
    (h : x.exec s = (.error e, s')) : (x >>= f).exec s = (.error e, s') := by
  show ((x.run.run s : Except MatchError α × Supply) |> fun r => (ExceptT.bindCont f r.1).run r.2) = _
  rw [show x.run.run s = (Except.error e, s') from h]
  rfl

/-- A sequence of steps that gives something has two steps that do. -/
theorem exec_bind_eq_ok {x : Compile α} {f : α → Compile γ} {s s' : Supply} {c : γ}
    (h : (x >>= f).exec s = (.ok c, s')) : ∃ a t, x.exec s = (.ok a, t) ∧ (f a).exec t = (.ok c, s') := by
  rcases hx : x.exec s with ⟨r, t⟩
  cases r with
  | ok a => exact ⟨a, t, rfl, (exec_bind_ok hx).symm.trans h⟩
  | error e =>
    rw [exec_bind_error hx] at h
    cases h

/-- The step neither uses nor looks at labels. -/
def SpendsNoLabels (x : Compile α) : Prop :=
  ∀ s l, x.exec { s with label := l } = ((x.exec s).1, { (x.exec s).2 with label := l })

theorem SpendsNoLabels.label {x : Compile α} (h : x.SpendsNoLabels) (s : Supply) :
    (x.exec s).2.label = s.label := by
  have := congrArg (fun r => r.2.label) (h s s.label)
  exact this

theorem SpendsNoLabels.pure (a : α) : SpendsNoLabels (Pure.pure a : Compile α) := fun _ _ => rfl

theorem SpendsNoLabels.ofExcept (x : Except MatchError α) : SpendsNoLabels (.ofExcept x) := fun _ _ => rfl

theorem SpendsNoLabels.bind {x : Compile α} {f : α → Compile γ} (hx : x.SpendsNoLabels)
    (hf : ∀ a, (f a).SpendsNoLabels) : (x >>= f).SpendsNoLabels := by
  intro s l
  have h := hx s l
  rcases e : x.exec s with ⟨r, s'⟩
  rw [e] at h
  cases r with
  | ok a => rw [exec_bind_ok e, exec_bind_ok h, hf a]
  | error e' => rw [exec_bind_error e, exec_bind_error h]

end Compile

open Compile

/-- What a spec parser is asked once for. -/
theorem SpecParser.exec_predicate (p : SpecParser) (spec : String) (s : Supply) :
    (SpecParser.predicate (some p) spec).exec s =
      (match p.parse s.asked (Bytes.ofString spec) with
        | .ok accepts => .ok accepts
        | .error e => .error (if e.kind = .extension then e else .parsingSpec spec e),
        { s with asked := s.asked + 1 }) := by
  show Compile.exec (match p.parse s.asked (Bytes.ofString spec) with
    | .ok accepts => (pure accepts : Compile Predicate)
    | .error e => throw (if e.kind = .extension then e else .parsingSpec spec e))
    { s with asked := s.asked + 1 } = _
  cases p.parse s.asked (Bytes.ofString spec) <;> rfl

theorem SpecParser.spendsNoLabels_predicate (parser : Option SpecParser) (spec : String) :
    SpendsNoLabels (SpecParser.predicate parser spec) := by
  cases parser with
  | none => exact fun _ _ => rfl
  | some p =>
    intro s l
    rw [SpecParser.exec_predicate, SpecParser.exec_predicate]

/-! ## Steps compared -/

/-- From the pool `S`, `x` fails as `y` does, or both give results that are
related by `Q` with a larger pool and the next label. -/
def Compiles (S : Set (State (Junction ι))) (s : Supply) (x : Compile α) (y : Compile γ)
    (Q : Set (State (Junction ι)) → Nat → α → γ → Prop) : Prop :=
  s.label ≤ (x.exec s).2.label ∧ (x.exec s).2.asked = (y.exec s).2.asked ∧
    match (x.exec s).1, (y.exec s).1 with
    | .ok a, .ok c => ∃ S', S ⊆ S' ∧ Pool S' (x.exec s).2.label ∧ Q S' (x.exec s).2.label a c
    | .error e, .error e' => e = e'
    | _, _ => False

namespace Compiles

variable {S : Set (State (Junction ι))} {s : Supply}
  {Q : Set (State (Junction ι)) → Nat → α → γ → Prop}
  {R : Set (State (Junction ι)) → Nat → δ → ε → Prop}

theorem ok {x : Compile α} {y : Compile γ} {a : α} {c : γ} {s₁ s₂ : Supply}
    (hx : x.exec s = (.ok a, s₁)) (hy : y.exec s = (.ok c, s₂)) (hle : s.label ≤ s₁.label)
    (he : s₁.asked = s₂.asked) {S' : Set (State (Junction ι))} (hS : S ⊆ S') (hp : Pool S' s₁.label)
    (hq : Q S' s₁.label a c) : Compiles S s x y Q := by
  unfold Compiles
  rw [hx, hy]
  exact ⟨hle, he, S', hS, hp, hq⟩

theorem error {x : Compile α} {y : Compile γ} {e : MatchError} {s₁ s₂ : Supply}
    (hx : x.exec s = (.error e, s₁)) (hy : y.exec s = (.error e, s₂)) (hle : s.label ≤ s₁.label)
    (he : s₁.asked = s₂.asked) : Compiles S s x y Q := by
  unfold Compiles
  rw [hx, hy]
  exact ⟨hle, he, rfl⟩

/-- Either both steps give results or both fail. -/
theorem cases {x : Compile α} {y : Compile γ} (h : Compiles S s x y Q) :
    (∃ a c s₁ s₂ S', x.exec s = (.ok a, s₁) ∧ y.exec s = (.ok c, s₂) ∧ s.label ≤ s₁.label ∧
      s₁.asked = s₂.asked ∧ S ⊆ S' ∧ Pool S' s₁.label ∧ Q S' s₁.label a c) ∨
    ∃ e s₁ s₂, x.exec s = (.error e, s₁) ∧ y.exec s = (.error e, s₂) ∧ s.label ≤ s₁.label ∧
      s₁.asked = s₂.asked := by
  unfold Compiles at h
  rcases hx : x.exec s with ⟨r, s₁⟩
  rcases hy : y.exec s with ⟨q, s₂⟩
  rw [hx, hy] at h
  obtain ⟨hle, he, h⟩ := h
  cases r with
  | ok a =>
    cases q with
    | ok c =>
      obtain ⟨S', hS, hp, hq⟩ := h
      exact .inl ⟨a, c, s₁, s₂, S', rfl, rfl, hle, he, hS, hp, hq⟩
    | error e => exact h.elim
  | error e =>
    cases q with
    | ok c => exact h.elim
    | error e' => exact .inr ⟨e, s₁, s₂, rfl, by rw [show e = e' from h], hle, he⟩

theorem pure (hp : Pool S s.label) {a : α} {c : γ} (hq : Q S s.label a c) :
    Compiles S s (Pure.pure a) (Pure.pure c) Q :=
  .ok rfl rfl (Nat.le_refl _) rfl subset_rfl hp hq

theorem fresh {x : Fresh α} {c : γ} (hle : s.label ≤ (x.run s.label).2)
    {S' : Set (State (Junction ι))} (hS : S ⊆ S') (hp : Pool S' (x.run s.label).2)
    (hq : Q S' (x.run s.label).2 (x.run s.label).1 c) :
    Compiles S s (.fresh x) (Pure.pure c) Q :=
  .ok (Compile.exec_fresh x s) rfl hle rfl hS hp hq

theorem bind {x : Compile α} {y : Compile γ} {f : α → Compile δ} {g : γ → Compile ε}
    (h : Compiles S s x y Q) (hg : ∀ c, SpendsNoLabels (g c))
    (hf : ∀ {S' : Set (State (Junction ι))} {s' : Supply} {a : α} {c : γ}, S ⊆ S' →
      s.label ≤ s'.label → Pool S' s'.label → Q S' s'.label a c → Compiles S' s' (f a) (g c) R) :
    Compiles S s (x >>= f) (y >>= g) R := by
  rcases h.cases with ⟨a, c, s₁, s₂, S', hx, hy, hle, he, hS, hp, hq⟩ | ⟨e, s₁, s₂, hx, hy, hle, he⟩
  · -- The second step goes on from another label, to which it is blind.
    have hs : ({ s₂ with label := s₁.label } : Supply) = s₁ := by rw [← he]
    have hg' := hg c s₂ s₁.label
    rw [hs] at hg'
    rcases (hf hS hle hp hq).cases with
      ⟨b, d, t₁, t₂, S'', hfx, hgy, hle', he', hS', hp', hr⟩ | ⟨e, t₁, t₂, hfx, hgy, hle', he'⟩
    · rw [hgy] at hg'
      have h₁ := congrArg Prod.fst hg'
      have h₂ := congrArg (fun r => r.2.asked) hg'
      have hgy' : (y >>= g).exec s = (.ok d, ((g c).exec s₂).2) :=
        (exec_bind_ok hy).trans (Prod.ext h₁.symm rfl)
      exact .ok ((exec_bind_ok hx).trans hfx) hgy' (hle.trans hle') (he'.trans h₂) (hS.trans hS') hp' hr
    · rw [hgy] at hg'
      have h₁ := congrArg Prod.fst hg'
      have h₂ := congrArg (fun r => r.2.asked) hg'
      have hgy' : (y >>= g).exec s = (.error e, ((g c).exec s₂).2) :=
        (exec_bind_ok hy).trans (Prod.ext h₁.symm rfl)
      exact .error ((exec_bind_ok hx).trans hfx) hgy' (hle.trans hle') (he'.trans h₂)
  · exact .error (exec_bind_error hx) (exec_bind_error hy) hle he

/-- A step without labels compared with itself. -/
theorem self {x : Compile α} (hx : x.SpendsNoLabels) (hp : Pool S s.label) :
    Compiles S s x x fun S' n a c => S' = S ∧ n = s.label ∧ a = c := by
  have hl := hx.label s
  rcases h : x.exec s with ⟨r, s'⟩
  rw [h] at hl
  cases r with
  | ok a => exact .ok h h (Nat.le_of_eq hl.symm) rfl subset_rfl (hl ▸ hp) ⟨rfl, hl, rfl⟩
  | error e => exact .error h h (Nat.le_of_eq hl.symm) rfl

end Compiles

/-! ## Gates -/

instance : EquivBEq (Junction ι) where
  rfl := fun {j} => beq_self_eq_true j.label
  symm := fun {j k} h => BEq.symm (a := j.label) (b := k.label) h
  trans := fun {j k l} h₁ h₂ => BEq.trans (a := j.label) (b := k.label) (c := l.label) h₁ h₂

/-- The predicates that a value adds to a gate. Reading them may fail. -/
def ValueSpec.readTests (parser : Option SpecParser) : ValueSpec → Compile (List Predicate)
  | literal _ | number _ => return []
  | numeric c =>
    if c.isApproximate then return [c.predicate]
    else do
      let _ ← Compile.ofExcept c.intervals
      return []
  | extension spec => return [← SpecParser.predicate parser spec]

/-- The predicates that a list of values makes for a gate, in order. -/
def readTests (parser : Option SpecParser) (values : List ValueSpec) : Compile (List Predicate) :=
  values.foldlM (fun preds v => return preds ++ (← v.readTests parser)) []

theorem ValueSpec.spendsNoLabels_readTests (parser : Option SpecParser) (v : ValueSpec) :
    SpendsNoLabels (v.readTests parser) := by
  cases v with
  | literal _ => exact .pure _
  | number _ => exact .pure _
  | numeric c =>
    by_cases h : c.isApproximate
    · simp only [readTests, h, if_true]
      exact .pure _
    · simp only [readTests, h]
      exact .bind (.ofExcept _) fun _ => .pure _
  | extension spec => exact .bind (SpecParser.spendsNoLabels_predicate parser spec) fun _ => .pure _

theorem spendsNoLabels_foldlM {f : γ → α → Compile γ} (hf : ∀ c a, SpendsNoLabels (f c a)) :
    ∀ (as : List α) (c : γ), SpendsNoLabels (as.foldlM f c)
  | [], c => .pure c
  | a :: as, c => by
    rw [List.foldlM_cons]
    exact .bind (hf c a) fun c => spendsNoLabels_foldlM hf as c

theorem spendsNoLabels_readTests (parser : Option SpecParser) (values : List ValueSpec) :
    SpendsNoLabels (readTests parser values) :=
  spendsNoLabels_foldlM (fun _ v => .bind (v.spendsNoLabels_readTests parser) fun _ => .pure _) values []

/-- The gate of some values that all lead to `next`: its states are of the pool `S`,
its tests have labels from `lo` on and below `n`. -/
structure GateOk (S : Set (State (Junction ι))) (lo n : Nat) (next : Junction ι) (g : Gate ι)
    (values : List ValueSpec) (preds : List Predicate) : Prop where
  wellFormed : g.automaton.WellFormed (· ∈ S)
  recognizes : Automaton.Recognizes g.automaton (ValuesWords values) next
  hasNumbers : g.hasNumbers = values.any ValueSpec.hasNumbers
  accepts : g.tests.map PredicateTest.accepts = preds
  next : ∀ t ∈ g.tests, t.next = next
  sorted : g.tests.Pairwise (·.label < ·.label)
  labels : ∀ t ∈ g.tests, lo ≤ t.label ∧ t.label < n

theorem GateOk.mono {S S' : Set (State (Junction ι))} {lo lo' n n' : Nat} {next : Junction ι} {g : Gate ι}
    {values : List ValueSpec} {preds : List Predicate} (h : GateOk S lo n next g values preds)
    (hS : S ⊆ S') (hlo : lo' ≤ lo) (hn : n ≤ n') : GateOk S' lo' n' next g values preds :=
  { h with
    wellFormed := h.wellFormed.mono fun _ hs => hS hs
    labels := fun t ht => ⟨hlo.trans (h.labels t ht).1, Nat.lt_of_lt_of_le (h.labels t ht).2 hn⟩ }

section

variable {S : Set (State (Junction ι))} {lo n : Nat} {next : Junction ι} {d : GateDraft ι}
  {values : List ValueSpec} {preds : List Predicate}

theorem valuesWords_append_singleton (values : List ValueSpec) (v : ValueSpec) (w : Bytes) :
    ValuesWords (values ++ [v]) w ↔ ValuesWords values w ∨ v.Words w := by
  simp only [ValuesWords, List.mem_append, List.mem_singleton, or_and_right, exists_or, exists_eq_left]

/-- Merging in an automaton that was made for a value. -/
theorem addAutomaton_ok {build : Fresh (Automaton (Junction ι))} {v : ValueSpec}
    (hb : Makes S n build fun S' t => t.WellFormed (· ∈ S') ∧ t.Recognizes v.Words next)
    (hp : SoundPass S ⟨n, d.memo⟩) (hd : GateOk S lo n next d.gate values preds) :
    let r := (do d.addAutomaton (← build) v.hasNumbers : Fresh (GateDraft ι)).run n
    ∃ S', S ⊆ S' ∧ n ≤ r.2 ∧ SoundPass S' ⟨r.2, r.1.memo⟩ ∧
      GateOk S' lo r.2 next r.1.gate (values ++ [v]) preds := by
  obtain ⟨S₁, hS₁, hn₁, hp₁, hw₁, hr₁⟩ := hb
  obtain ⟨S₂, hg, hw₂, he⟩ := mergeWith_ok (hp.grow hS₁ hp₁) (hd.wellFormed.mono fun _ hs => hS₁ hs) hw₁
  refine ⟨S₂, hS₁.trans hg.pool, hn₁.trans hg.next, hg.sound, hw₂,
    (hd.recognizes.merge hr₁ he).congr (valuesWords_append_singleton values v), ?_, hd.accepts, hd.next,
    hd.sorted, fun t ht => ⟨(hd.labels t ht).1, Nat.lt_of_lt_of_le (hd.labels t ht).2 (hn₁.trans hg.next)⟩⟩
  show (d.gate.hasNumbers || v.hasNumbers) = _
  rw [hd.hasNumbers, List.any_append, List.any_cons, List.any_nil, Bool.or_false]

/-- Adding a test for a value whose automaton recognizes nothing. -/
theorem addTest_ok {v : ValueSpec} (hv : ∀ w, ¬ v.Words w) (hb : v.hasNumbers = false) (accepts : Predicate)
    (hlo : lo ≤ n) (hp : SoundPass S ⟨n, d.memo⟩) (hd : GateOk S lo n next d.gate values preds) :
    let r := (d.addTest accepts next).run n
    n ≤ r.2 ∧ SoundPass S ⟨r.2, r.1.memo⟩ ∧
      GateOk S lo r.2 next r.1.gate (values ++ [v]) (preds ++ [accepts]) := by
  refine ⟨Nat.le_succ n, hp.grow subset_rfl (hp.pool.mono (Nat.le_succ n)), hd.wellFormed,
    hd.recognizes.congr fun w => ?_, ?_, ?_, fun t ht => ?_, ?_, fun t ht => ?_⟩
  · rw [valuesWords_append_singleton, or_iff_left (hv w)]
  · show d.gate.hasNumbers = _
    rw [hd.hasNumbers, List.any_append, List.any_cons, List.any_nil, Bool.or_false, hb, Bool.or_false]
  · show (d.gate.tests ++ [PredicateTest.mk n accepts next]).map PredicateTest.accepts = _
    rw [List.map_append, hd.accepts]
    rfl
  · rcases List.mem_append.mp ht with ht | ht
    · exact hd.next t ht
    · exact List.mem_singleton.mp ht ▸ rfl
  · refine List.pairwise_append.mpr ⟨hd.sorted, List.pairwise_singleton _ _, fun t ht u hu => ?_⟩
    rw [List.mem_singleton.mp hu]
    exact (hd.labels t ht).2
  · rcases List.mem_append.mp ht with ht | ht
    · exact ⟨(hd.labels t ht).1, Nat.lt_succ_of_lt (hd.labels t ht).2⟩
    · rw [List.mem_singleton.mp ht]
      exact ⟨hlo, Nat.lt_succ_self n⟩

end

variable {S : Set (State (Junction ι))} {s : Supply} {lo : Nat} {next : Junction ι}

/-- One value more. -/
theorem addValue_ok (parser : Option SpecParser) {d : GateDraft ι} {values : List ValueSpec}
    {preds : List Predicate} (v : ValueSpec) (hlo : lo ≤ s.label) (hp : SoundPass S ⟨s.label, d.memo⟩)
    (hd : GateOk S lo s.label next d.gate values preds) :
    Compiles S s (GateDraft.addValue parser next d v) (do return preds ++ (← v.readTests parser))
      fun S' n d' preds' => SoundPass S' ⟨n, d'.memo⟩ ∧
        GateOk S' lo n next d'.gate (values ++ [v]) preds' := by
  have hauto : ∀ {build : Fresh (Automaton (Junction ι))} {b : Bool}, v.hasNumbers = b →
      Makes S s.label build (fun S' t => t.WellFormed (· ∈ S') ∧ t.Recognizes v.Words next) →
      Compiles S s (.fresh do d.addAutomaton (← build) b) (pure preds)
        fun S' n d' preds' => SoundPass S' ⟨n, d'.memo⟩ ∧
          GateOk S' lo n next d'.gate (values ++ [v]) preds' := by
    rintro build _ rfl hb
    obtain ⟨S', hS, hn, hp', hd'⟩ := addAutomaton_ok hb hp hd
    exact .fresh hn hS hp'.pool ⟨hp', hd'⟩
  have htest : ∀ {S' : Set (State (Junction ι))} {s' : Supply}, S' = S → s'.label = s.label →
      ∀ accepts : Predicate, (∀ w, ¬ v.Words w) → v.hasNumbers = false →
      Compiles S' s' (.fresh (d.addTest accepts next)) (pure (preds ++ [accepts]))
        fun S' n d' preds' => SoundPass S' ⟨n, d'.memo⟩ ∧
          GateOk S' lo n next d'.gate (values ++ [v]) preds' := fun hS hl accepts hw hb => by
    rw [hS]
    obtain ⟨hn, hp', hd'⟩ := addTest_ok hw hb accepts (hl ▸ hlo) (hl ▸ hp) (hl ▸ hd)
    exact .fresh hn subset_rfl hp'.pool ⟨hp', hd'⟩
  cases v with
  | literal text =>
    simp only [GateDraft.addValue, ValueSpec.readTests, pure_bind, List.append_nil]
    exact hauto rfl (makes_literal hp.pool text next)
  | number digits =>
    have hb : Makes S s.label (Automaton.number digits next) fun S' t =>
        t.WellFormed (· ∈ S') ∧ t.Recognizes (ValueSpec.number digits).Words next :=
      makes_literal hp.pool (numberMark :: digits) next
    simp only [GateDraft.addValue, ValueSpec.readTests, pure_bind, List.append_nil]
    exact hauto rfl hb
  | numeric c =>
    by_cases h : c.isApproximate
    · have hw : ∀ w, ¬ (ValueSpec.numeric c).Words w := fun w hw => by
        rw [hw.1] at h
        cases h
      rw [GateDraft.addValue, ValueSpec.readTests, if_pos h, if_pos h, pure_bind]
      exact htest rfl rfl c.predicate hw (by rw [ValueSpec.hasNumbers, h]; rfl)
    · have hb : (ValueSpec.numeric c).hasNumbers = true := by
        rw [ValueSpec.hasNumbers, Bool.eq_false_of_not_eq_true h]
        rfl
      rw [GateDraft.addValue, ValueSpec.readTests, if_neg h, if_neg h]
      simp only [bind_assoc, pure_bind, List.append_nil]
      cases hc : c.intervals with
      | error e => exact .error rfl rfl (Nat.le_refl _) rfl
      | ok is =>
        rw [ofExcept_ok, pure_bind, pure_bind]
        refine hauto hb ((makes_ranges hp.pool (NumericClause.spans_of_intervals hc) next).weaken
          fun S' t _ ht => ⟨ht.1, ht.2.congr fun w => ⟨fun hw => ?_, fun hu => ?_⟩⟩)
        · obtain ⟨-, js, hj, hu⟩ := hw
          rw [hc] at hj
          cases hj
          exact hu
        · exact ⟨Bool.eq_false_of_not_eq_true h, is, hc, hu⟩
  | extension spec =>
    simp only [GateDraft.addValue, ValueSpec.readTests, bind_assoc, pure_bind]
    refine (Compiles.self (SpecParser.spendsNoLabels_predicate parser spec) hp.pool).bind
      (fun _ => .pure _) fun _ _ _ hself => ?_
    obtain ⟨hS, hl, ha⟩ := hself
    exact ha ▸ htest hS hl _ (fun _ => id) rfl

theorem foldlM_addValue_ok (parser : Option SpecParser) : ∀ (rest : List ValueSpec) {S : Set (State (Junction ι))}
    {s : Supply} {d : GateDraft ι} {values : List ValueSpec} {preds : List Predicate}, lo ≤ s.label →
    SoundPass S ⟨s.label, d.memo⟩ → GateOk S lo s.label next d.gate values preds →
    Compiles S s (rest.foldlM (GateDraft.addValue parser next) d)
      (rest.foldlM (fun preds v => do return preds ++ (← v.readTests parser)) preds)
      fun S' n d' preds' => GateOk S' lo n next d'.gate (values ++ rest) preds'
  | [], S, s, d, values, preds, _, hp, hd => .pure hp.pool (by rwa [List.append_nil])
  | v :: rest, S, s, d, values, preds, hlo, hp, hd => by
    rw [List.foldlM_cons, List.foldlM_cons]
    refine (addValue_ok parser v hlo hp hd).bind
      (spendsNoLabels_foldlM (fun _ v => .bind (v.spendsNoLabels_readTests parser) fun _ => .pure _) rest)
      fun _ hle _ ⟨hp', hd'⟩ => ?_
    have := foldlM_addValue_ok parser rest (hlo.trans hle) hp' hd'
    rwa [List.append_assoc, List.singleton_append] at this

/-- The gate of a field's values. -/
theorem ofValues_ok (parser : Option SpecParser) (values : List ValueSpec) (next : Junction ι)
    (hp : Pool S s.label) :
    Compiles S s (Gate.ofValues parser values next) (readTests parser values)
      fun S' n g preds => GateOk S' s.label n next g values preds := by
  have hd : GateOk S s.label s.label next (Gate.empty : Gate ι) [] [] :=
    { wellFormed := RangeTable.wellFormed_empty _
      recognizes := (Automaton.recognizes_empty next).congr fun w =>
        ⟨fun ⟨_, h, _⟩ => (List.not_mem_nil h).elim, False.elim⟩
      hasNumbers := rfl
      accepts := rfl
      next := fun _ h => nomatch h
      sorted := .nil
      labels := fun _ h => nomatch h }
  have h := (foldlM_addValue_ok parser values (d := ⟨.empty, ∅⟩) (Nat.le_refl _) (.start hp) hd).bind
    (f := fun d => pure d.gate) (g := pure) (R := fun S' n g preds => GateOk S' s.label n next g values preds)
    (fun _ => .pure _) fun _ _ hp hq => .pure hp hq
  rwa [bind_pure] at h

end EventMatch
