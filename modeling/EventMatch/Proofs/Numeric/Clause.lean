import EventMatch.Proofs.Pattern.Values
import Mathlib.Data.List.Forall2

/-!
# The grammar of numeric clauses

`NumericClause.Spells` relates the items of a clause to the constraints that they
form: operators and numbers in turn, each number one that some finite value is
nearest to. A clause is read from a list of items if and only if there are some and
they spell it (`NumericClause.ofJson_eq_ok_iff`). Reading goes through a list of
steps that may fail, of which the first failure counts (`Except.mapM_eq_error`).
-/

namespace EventMatch

/-! ## Lists of steps that may fail -/

section

variable {ε α γ : Type} {f : α → Except ε γ}

theorem Except.mapM_eq_ok : ∀ {as : List α} {cs : List γ},
    as.mapM f = .ok cs ↔ List.Forall₂ (fun a c => f a = .ok c) as cs
  | [], cs => by
    rw [List.mapM_nil, List.forall₂_nil_left_iff]
    exact ⟨fun h => (Except.ok.inj h).symm, fun h => h ▸ rfl⟩
  | a :: as, cs => by
    rw [List.mapM_cons, Except.bind_eq_ok, List.forall₂_cons_left_iff]
    constructor
    · rintro ⟨c, hc, h⟩
      obtain ⟨cs', hcs, h⟩ := Except.bind_eq_ok.mp h
      exact ⟨c, cs', hc, Except.mapM_eq_ok.mp hcs, (Except.ok.inj h).symm⟩
    · rintro ⟨c, cs', hc, hcs, rfl⟩
      exact ⟨c, hc, Except.bind_eq_ok.mpr ⟨cs', Except.mapM_eq_ok.mpr hcs, rfl⟩⟩

theorem Except.map_eq_error {g : α → γ} {e : ε} : ∀ {x : Except ε α}, x.map g = .error e ↔ x = .error e
  | .ok _ => iff_of_false nofun nofun
  | .error _ => ⟨fun h => congrArg _ (Except.error.inj h), fun h => congrArg _ (Except.error.inj h)⟩

theorem exists_forall₂_iff {r : α → γ → Prop} : ∀ {as : List α},
    (∃ cs, List.Forall₂ r as cs) ↔ ∀ a ∈ as, ∃ c, r a c
  | [] => iff_of_true ⟨[], .nil⟩ fun a ha => absurd ha List.not_mem_nil
  | a :: as => by
    rw [List.forall_mem_cons, ← exists_forall₂_iff]
    constructor
    · rintro ⟨_, _ | ⟨hc, hcs⟩⟩
      exact ⟨⟨_, hc⟩, _, hcs⟩
    · rintro ⟨⟨c, hc⟩, cs, hcs⟩
      exact ⟨c :: cs, .cons hc hcs⟩

/-- Each element of the second list is related to one of the first. -/
theorem exists_of_mem_right {r : α → γ → Prop} {as : List α} {cs : List γ}
    (h : List.Forall₂ r as cs) {c : γ} (hc : c ∈ cs) : ∃ a ∈ as, r a c := by
  induction h with
  | nil => cases hc
  | cons hr _ ih =>
    rcases List.mem_cons.mp hc with rfl | hc
    · exact ⟨_, List.mem_cons_self, hr⟩
    · obtain ⟨a, ha, hr⟩ := ih hc
      exact ⟨a, List.mem_cons_of_mem _ ha, hr⟩

/-- The error of a list of steps is that of the first which fails. -/
theorem Except.mapM_eq_error {e : ε} : ∀ {as : List α}, as.mapM f = .error e ↔
    ∃ front a back, as = front ++ a :: back ∧ (∀ b ∈ front, ∃ c, f b = .ok c) ∧ f a = .error e
  | [] => by
    refine iff_of_false (fun h => by cases h) fun ⟨front, a, back, h, _⟩ => ?_
    exact List.append_ne_nil_of_right_ne_nil front (List.cons_ne_nil a back) h.symm
  | a :: as => by
    rw [List.mapM_cons]
    cases ha : f a with
    | error e' =>
      constructor
      · intro h
        exact ⟨[], a, as, rfl, fun b hb => absurd hb List.not_mem_nil, ha.trans (congrArg _ (Except.error.inj h))⟩
      · rintro ⟨front, b, back, h, hfront, hb⟩
        cases front with
        | nil =>
          obtain ⟨rfl, -⟩ := List.cons.inj h
          exact congrArg _ (Except.error.inj (ha.symm.trans hb))
        | cons c front =>
          obtain ⟨rfl, -⟩ := List.cons.inj h
          obtain ⟨_, hc⟩ := hfront a List.mem_cons_self
          cases ha.symm.trans hc
    | ok c =>
      have hrest : (do let cs ← as.mapM f; pure (c :: cs)) = Except.error e ↔ as.mapM f = .error e := by
        cases as.mapM f <;> simp [bind, Except.bind, pure, Except.pure]
      show (do let cs ← as.mapM f; pure (c :: cs)) = Except.error e ↔ _
      rw [hrest, Except.mapM_eq_error]
      constructor
      · rintro ⟨front, b, back, rfl, hfront, hb⟩
        exact ⟨a :: front, b, back, rfl, List.forall_mem_cons.mpr ⟨⟨c, ha⟩, hfront⟩, hb⟩
      · rintro ⟨front, b, back, h, hfront, hb⟩
        cases front with
        | nil =>
          obtain ⟨rfl, -⟩ := List.cons.inj h
          cases ha.symm.trans hb
        | cons d front =>
          obtain ⟨rfl, rfl⟩ := List.cons.inj h
          exact ⟨front, b, back, rfl, (List.forall_mem_cons.mp hfront).2, hb⟩

end

/-! ## Operators and numbers in turn -/

/-- Relations and numbers in turn, and the constraints that they form. -/
inductive NumericClause.Spells : List Json → List NumericConstraint → Prop
  | nil : Spells [] []
  | cons {op : String} {r : Relation} {n : Numeral} {items : List Json} {cs : List NumericConstraint}
      (hr : Relation.ofOperator? op = some r) (hn : (Binary64.ofNumeral n).isFinite = true)
      (h : Spells items cs) : Spells (.str op :: .num n :: items) (⟨r, Binary64.ofNumeral n, n⟩ :: cs)

theorem NumericConstraint.ofPair_eq_ok_iff {pair : Json × Json} {t : NumericConstraint} :
    ofPair pair = .ok t ↔ ∃ op r n, pair = (.str op, .num n) ∧ Relation.ofOperator? op = some r ∧
      (Binary64.ofNumeral n).isFinite = true ∧ t = ⟨r, Binary64.ofNumeral n, n⟩ := by
  obtain ⟨a, b⟩ := pair
  constructor
  · intro h
    obtain ⟨r, hr, h⟩ := Except.bind_eq_ok.mp h
    obtain ⟨op, rfl, hop⟩ : ∃ op, a = .str op ∧ Relation.ofOperator? op = some r := by
      cases a with
      | str op =>
        refine ⟨op, rfl, ?_⟩
        cases hop : Relation.ofOperator? op <;> simp [Relation.ofJson, hop] at hr
        rw [hr]
      | null | bool _ | num _ | arr _ | obj _ => cases hr
    cases b with
    | num n =>
      dsimp only at h
      split at h
      · rename_i hfinite
        exact ⟨op, r, n, rfl, hop, hfinite, (Except.ok.inj h).symm⟩
      · cases h
    | null | bool _ | str _ | arr _ | obj _ => cases h
  · rintro ⟨op, r, n, he, hop, hfinite, rfl⟩
    obtain ⟨rfl, rfl⟩ := Prod.mk.inj he
    simp [ofPair, Relation.ofJson, hop, hfinite, bind, Except.bind]

namespace NumericClause

theorem spells_iff : ∀ {items : List Json} {cs : List NumericConstraint},
    Spells items cs ↔ items.length % 2 = 0 ∧ (pairs items).mapM NumericConstraint.ofPair = .ok cs
  | [], cs => by
    show _ ↔ _ ∧ Except.ok [] = Except.ok cs
    exact ⟨fun h => by cases h; exact ⟨rfl, rfl⟩, fun h => Except.ok.inj h.2 ▸ .nil⟩
  | [a], cs => iff_of_false (fun h => by cases h) fun h => absurd (show 1 % 2 = 0 from h.1) (by decide)
  | a :: b :: items, cs => by
    rw [pairs, Except.mapM_eq_ok, List.forall₂_cons_left_iff]
    have hlen : (a :: b :: items).length % 2 = items.length % 2 := Nat.add_mod_right items.length 2
    rw [hlen]
    constructor
    · rintro (_ | ⟨hr, hn, h⟩)
      obtain ⟨heven, hcs⟩ := spells_iff.mp h
      exact ⟨heven, _, _, NumericConstraint.ofPair_eq_ok_iff.mpr ⟨_, _, _, rfl, hr, hn, rfl⟩,
        Except.mapM_eq_ok.mp hcs, rfl⟩
    · rintro ⟨heven, t, ts, ht, hts, rfl⟩
      obtain ⟨op, r, n, he, hr, hn, rfl⟩ := NumericConstraint.ofPair_eq_ok_iff.mp ht
      obtain ⟨rfl, rfl⟩ := Prod.mk.inj he
      exact .cons hr hn (spells_iff.mpr ⟨heven, Except.mapM_eq_ok.mpr hts⟩)

/-- Clauses are spelled by relations and numbers in turn, of which there are some. -/
theorem ofJson_eq_ok_iff {items : List Json} {c : NumericClause} :
    ofJson items = .ok c ↔ items ≠ [] ∧ Spells items c.constraints := by
  rw [ofJson, spells_iff]
  cases items with
  | nil => exact iff_of_false (fun h => by cases h) fun h => h.1 rfl
  | cons a items =>
    rw [if_neg (show ¬ ((a :: items).isEmpty = true) from Bool.false_ne_true)]
    by_cases hlen : (a :: items).length % 2 = 0
    · rw [if_neg (not_not_intro hlen), Except.map_eq_ok]
      refine ⟨?_, fun h => ⟨_, h.2.2, rfl⟩⟩
      rintro ⟨cs, hcs, rfl⟩
      exact ⟨List.cons_ne_nil a items, hlen, hcs⟩
    · rw [if_pos hlen]
      exact iff_of_false (fun h => by cases h) fun h => hlen h.2.1

end NumericClause

end EventMatch
