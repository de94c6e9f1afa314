import EventMatch.Proofs.Event.Flatten
import EventMatch.Proofs.Json.Keys
import Mathlib.Data.List.Chain

/-!
# Choosing elements of arrays

A value `Thins` to another if that has one element left of every array with elements.
The scalars left are spots of which no two lie in different elements of one array
(`Thins.exists_spots`). Conversely it is enough to compare neighbours: spots of which
each agrees with the next are left by some choice, if those that lead through the same
member stand together (`exists_thin`).
-/

namespace EventMatch

/-- Neighbours in a list of spots agree if their trails do. -/
def Spot.Agrees (l l' : Spot) : Prop := Agree l.trail l'.trail

theorem Agree.symm {s t : List ArrayPos} (h : Agree s t) : Agree t s := fun p hp q hq he =>
  (h q hq p hp he.symm).symm

/-- Between two key sequences that begin alike there are only others that do. -/
def Contiguous (ks : List (List String)) : Prop :=
  ∀ a b c qs, [a, b, c].Sublist ks → qs <+: a → qs <+: c → qs <+: b

theorem Contiguous.sublist {ks ls : List (List String)} (h : Contiguous ls) (hs : ks.Sublist ls) :
    Contiguous ks := fun a b c qs hk => h a b c qs (hk.trans hs)

theorem Contiguous.of_cons (key : String) {ks : List (List String)} (h : Contiguous (ks.map (key :: ·))) :
    Contiguous ks := fun a b c qs hk ha hc => by
  have := h (key :: a) (key :: b) (key :: c) (key :: qs) (hk.map (key :: ·))
    (List.cons_prefix_cons.mpr ⟨rfl, ha⟩) (List.cons_prefix_cons.mpr ⟨rfl, hc⟩)
  exact (List.cons_prefix_cons.mp this).2

namespace Spot

/-- What a spot is in the value of a member. -/
def below? (key : String) : Spot → Option Spot
  | ⟨k :: ks, value, trail⟩ => if k = key then some ⟨ks, value, trail⟩ else none
  | ⟨[], _, _⟩ => none

theorem below?_eq_some {key : String} {l l' : Spot} : l.below? key = some l' ↔ l'.under key = l := by
  obtain ⟨keys, value, trail⟩ := l
  cases keys with
  | nil => exact iff_of_false nofun nofun
  | cons k ks =>
    rw [below?]
    split
    · rename_i h
      subst h
      constructor <;> rintro ⟨⟩ <;> rfl
    · rename_i h
      exact iff_of_false nofun fun h' => h (List.cons.inj (congrArg keys h')).1.symm

theorem map_under_below (key : String) : ∀ ls : List Spot,
    ((ls.filterMap (below? key)).map (under key)).Sublist ls
  | [] => List.Sublist.refl []
  | l :: ls => by
    cases h : l.below? key with
    | none =>
      rw [List.filterMap_cons_none h]
      exact (map_under_below key ls).cons l
    | some l' =>
      rw [List.filterMap_cons_some h, List.map_cons, below?_eq_some.mp h]
      exact (map_under_below key ls).cons_cons l

theorem contiguous_below (key : String) {ls : List Spot} (h : Contiguous (ls.map keys)) :
    Contiguous ((ls.filterMap (below? key)).map keys) := by
  refine Contiguous.of_cons key (h.sublist ?_)
  have := (map_under_below key ls).map keys
  rwa [List.map_map, show keys ∘ under key = (key :: ·) ∘ keys from rfl, ← List.map_map] at this

/-- Neighbours that agree still do among the spots in the value of a member, if those
stand together. -/
theorem isChain_below (key : String) : ∀ {ls : List Spot}, ls.IsChain Agrees → Contiguous (ls.map keys) →
    (ls.filterMap (below? key)).IsChain Agrees
  | [], _, _ => .nil
  | l :: ls, hc, hk => by
    have ih : (ls.filterMap (below? key)).IsChain Agrees :=
      isChain_below key hc.tail (hk.sublist (List.sublist_cons_self _ _))
    cases h : l.below? key with
    | none =>
      rw [List.filterMap_cons_none h]
      exact ih
    | some l' =>
      rw [List.filterMap_cons_some h]
      refine ih.cons fun y hy => ?_
      obtain rfl := below?_eq_some.mp h
      cases ls with
      | nil => cases hy
      | cons m ls =>
        cases hm : m.below? key with
        | some m' =>
          rw [List.filterMap_cons_some hm] at hy
          cases hy
          obtain rfl := below?_eq_some.mp hm
          exact (List.isChain_cons_cons.mp hc).1
        | none =>
          -- Nothing comes after a spot outside the member.
          rw [List.filterMap_cons_none hm] at hy
          obtain ⟨n, hn, hny⟩ := List.mem_filterMap.mp (List.mem_of_mem_head? hy)
          obtain rfl := below?_eq_some.mp hny
          have hsub : [(l'.under key).keys, m.keys, (y.under key).keys].Sublist
              ((l'.under key :: m :: ls).map keys) :=
            ((List.singleton_sublist.mpr (List.mem_map_of_mem hn)).cons_cons _).cons_cons _
          obtain ⟨ks, hks⟩ := hk _ _ _ [key] hsub ⟨l'.keys, rfl⟩ ⟨y.keys, rfl⟩
          have hunder : under key ⟨ks, m.value, m.trail⟩ = m := by rw [under, show key :: ks = m.keys from hks]
          rw [below?_eq_some.mpr hunder] at hm
          cases hm

end Spot

namespace Json

mutual

/-- The second value is the first with one element left of every array that has any. -/
inductive Thins : Json → Json → Prop
  | null : Thins null null
  | bool (b : Bool) : Thins (bool b) (bool b)
  | num (n : Numeral) : Thins (num n) (num n)
  | str (s : String) : Thins (str s) (str s)
  | nothing : Thins (arr []) (arr [])
  | item {items : List Json} {j t : Json} : j ∈ items → Thins j t → Thins (arr items) (arr [t])
  | obj {members thinned : List (String × Json)} : MembersThin members thinned →
      Thins (obj members) (obj thinned)

/-- The values of the members thin one by one. -/
inductive MembersThin : List (String × Json) → List (String × Json) → Prop
  | nil : MembersThin [] []
  | cons {key : String} {j t : Json} {ms ts : List (String × Json)} : Thins j t → MembersThin ms ts →
      MembersThin ((key, j) :: ms) ((key, t) :: ts)

end

/-! ## From choices to spots -/

/-- The spots of an item are spots of its array, which has a number below theirs. -/
theorem exists_within_mem_itemSpots {j : Json} : ∀ {js : List Json}, j ∈ js → ∀ array pos arrays : Nat,
    ∃ p n : Nat, arrays ≤ n ∧ ∀ l ∈ (j.spots n).1, l.within ⟨array, p⟩ ∈ (itemSpots array pos arrays js).1
  | i :: js, h, array, pos, arrays => by
    rcases List.mem_cons.mp h with rfl | h
    · exact ⟨pos, arrays, Nat.le_refl _, fun l hl => mem_itemSpots_cons.mpr (.inl ⟨l, hl, rfl⟩)⟩
    · obtain ⟨p, n, hle, hm⟩ := exists_within_mem_itemSpots h array (pos + 1) (i.spots arrays).2
      exact ⟨p, n, (spots_bounds i arrays).1.trans hle, fun l hl => mem_itemSpots_cons.mpr (.inr (hm l hl))⟩

/-- Spots of one item agree as they do without the array that the item is of. -/
theorem agrees_within {array pos n hi hi' : Nat} (hlt : array ≤ n) {l l' : Spot} (h : l.Agrees l')
    (hl : l.Numbered n hi) (hl' : l'.Numbered n hi') :
    (l.within ⟨array, pos⟩).Agrees (l'.within ⟨array, pos⟩) := by
  intro p hp q hq he
  rcases List.mem_cons.mp hp with rfl | hp
  · rcases List.mem_cons.mp hq with rfl | hq
    · rfl
    · have := (hl' q hq).1
      dsimp only at he
      omega
  · rcases List.mem_cons.mp hq with rfl | hq
    · have := (hl p hp).1
      dsimp only at he
      omega
    · exact h p hp q hq he

mutual

/-- The scalars that a choice leaves are spots that all agree. -/
theorem Thins.exists_spots : ∀ {j t : Json}, Thins j t → ∀ arrays : Nat, ∃ ls : List Spot,
    (∀ l ∈ ls, l ∈ (j.spots arrays).1) ∧ (∀ l ∈ ls, ∀ l' ∈ ls, l.Agrees l') ∧ ls.map Spot.scalar = t.scalars
  | _, _, .null, arrays | _, _, .bool _, arrays | _, _, .num _, arrays | _, _, .str _, arrays => by
    refine ⟨_, fun l hl => hl, ?_, map_scalar_spots _ arrays⟩
    simp [spots, Spot.Agrees, Agree]
  | _, _, .nothing, arrays => ⟨[], nofun, nofun, rfl⟩
  | _, _, @Thins.item items j t hm ht, arrays => by
    obtain ⟨p, n, hle, hw⟩ := exists_within_mem_itemSpots hm (arrays + 1) 0 (arrays + 1)
    obtain ⟨ls, hls, ha, hs⟩ := ht.exists_spots n
    have hn := (spots_bounds j n).2
    refine ⟨ls.map (Spot.within ⟨(arrays + 1 : Nat), p⟩), ?_, ?_, ?_⟩
    · rw [List.forall_mem_map, spots]
      exact fun l hl => hw l (hls l hl)
    · simp only [List.forall_mem_map]
      exact fun l hl l' hl' => agrees_within hle (ha l hl l' hl') (hn l (hls l hl)) (hn l' (hls l' hl'))
    · rw [List.map_map, scalars, itemScalars, itemScalars, List.append_nil, ← hs]
      rfl
  | _, _, .obj h, arrays => by
    rw [spots, scalars]
    exact h.exists_spots arrays

theorem MembersThin.exists_spots : ∀ {ms ts : List (String × Json)}, MembersThin ms ts → ∀ arrays : Nat,
    ∃ ls : List Spot, (∀ l ∈ ls, l ∈ (memberSpots arrays ms).1) ∧ (∀ l ∈ ls, ∀ l' ∈ ls, l.Agrees l') ∧
      ls.map Spot.scalar = memberScalars ts
  | _, _, .nil, arrays => ⟨[], nofun, nofun, rfl⟩
  | _, _, @MembersThin.cons key j t ms ts ht hts, arrays => by
    obtain ⟨ls, hls, ha, hs⟩ := ht.exists_spots arrays
    obtain ⟨ls', hls', ha', hs'⟩ := hts.exists_spots (j.spots arrays).2
    have hn := (spots_bounds j arrays).2
    have hn' := (memberSpots_bounds ms (j.spots arrays).2).2
    have hacross : ∀ l ∈ ls, ∀ l' ∈ ls', l.Agrees l' := fun l hl l' hl' =>
      Spot.agree_of_numbered (hn l (hls l hl)) (hn' l' (hls' l' hl'))
    refine ⟨ls.map (Spot.under key) ++ ls', fun l hl => ?_, fun l hl l' hl' => ?_, ?_⟩
    · rw [mem_memberSpots_cons]
      rcases List.mem_append.mp hl with hl | hl
      · obtain ⟨k, hk, rfl⟩ := List.mem_map.mp hl
        exact .inl ⟨k, hls k hk, rfl⟩
      · exact .inr (hls' l hl)
    · rcases List.mem_append.mp hl with hl | hl
      · obtain ⟨k, hk, rfl⟩ := List.mem_map.mp hl
        rcases List.mem_append.mp hl' with hl' | hl'
        · obtain ⟨k', hk', rfl⟩ := List.mem_map.mp hl'
          exact ha k hk k' hk'
        · exact hacross k hk l' hl'
      · rcases List.mem_append.mp hl' with hl' | hl'
        · obtain ⟨k', hk', rfl⟩ := List.mem_map.mp hl'
          exact (hacross k' hk' l hl).symm
        · exact ha' l hl l' hl'
    · rw [List.map_append, hs', memberScalars, ← hs, List.map_map, List.map_map]
      rfl

end

/-! ## From spots to choices -/

theorem exists_under_of_mem_memberSpots {l : Spot} : ∀ {ms : List (String × Json)} {arrays : Nat},
    l ∈ (memberSpots arrays ms).1 → ∃ key ∈ ms.map Prod.fst, ∃ l', Spot.under key l' = l
  | [], _, h => absurd h List.not_mem_nil
  | (key, j) :: ms, _, h => by
    rcases mem_memberSpots_cons.mp h with ⟨l', _, h⟩ | h
    · exact ⟨key, List.mem_cons_self, l', h⟩
    · obtain ⟨k, hk, hl⟩ := exists_under_of_mem_memberSpots h
      exact ⟨k, List.mem_cons_of_mem _ hk, hl⟩

/-- If neighbours among the spots of an array's items agree, they are all of one item. -/
theorem exists_map_within {array n : Nat} (pos : Nat) (hn : pos < n) : ∀ {ls : List Spot},
    (∀ l ∈ ls, ∃ (p : Nat) (l' : Spot), pos ≤ p ∧ p < n ∧ l'.within ⟨array, p⟩ = l) → ls.IsChain Spot.Agrees →
    ∃ (p : Nat) (ls' : List Spot), pos ≤ p ∧ p < n ∧ ls'.map (Spot.within ⟨array, p⟩) = ls
  | [], _, _ => ⟨pos, [], Nat.le_refl _, hn, rfl⟩
  | [l], h, _ => by
    obtain ⟨p, l', hp, hlt, rfl⟩ := h l List.mem_cons_self
    exact ⟨p, [l'], hp, hlt, rfl⟩
  | l :: m :: ls, h, hc => by
    obtain ⟨hlm, hc⟩ := List.isChain_cons_cons.mp hc
    obtain ⟨q, ls', hq, hqn, hmap⟩ := exists_map_within pos hn (fun l hl => h l (List.mem_cons_of_mem _ hl)) hc
    obtain ⟨p, l', _, _, rfl⟩ := h l List.mem_cons_self
    obtain ⟨m', ls', rfl, rfl, rfl⟩ := List.map_eq_cons_iff.mp hmap
    obtain rfl : p = q := Int.ofNat_inj.mp (hlm _ List.mem_cons_self _ List.mem_cons_self rfl)
    exact ⟨p, l' :: m' :: ls', hq, hqn, rfl⟩

theorem isChain_of_map_within {p : ArrayPos} {ls : List Spot}
    (h : (ls.map (Spot.within p)).IsChain Spot.Agrees) : ls.IsChain Spot.Agrees :=
  ((List.isChain_map _).mp h).imp fun _ _ h q hq r hr =>
    h q (List.mem_cons_of_mem _ hq) r (List.mem_cons_of_mem _ hr)

mutual

/-- Spots of which each agrees with the next are left by some choice. -/
theorem exists_thin : ∀ (j : Json) (arrays : Nat) {ls : List Spot}, j.UniqueKeys →
    (∀ l ∈ ls, l ∈ (j.spots arrays).1) → ls.IsChain Spot.Agrees → Contiguous (ls.map Spot.keys) →
    ∃ t, Thins j t ∧ ∀ l ∈ ls, l.scalar ∈ t.scalars
  | .obj members, arrays, ls, hu, hm, hc, hk => by
    rw [spots] at hm
    obtain ⟨ts, ht, hs⟩ := exists_membersThin members arrays (fun key => ls.filterMap (Spot.below? key))
      hu.1 hu.2 fun key _ => ⟨fun l hl => hm _ ((Spot.map_under_below key ls).subset (List.mem_map_of_mem hl)),
          Spot.isChain_below key hc hk, Spot.contiguous_below key hk⟩
    refine ⟨.obj ts, .obj ht, fun l hl => ?_⟩
    obtain ⟨key, hkey, l', rfl⟩ := exists_under_of_mem_memberSpots (hm l hl)
    rw [scalars]
    exact hs key hkey l' (List.mem_filterMap.mpr ⟨_, hl, Spot.below?_eq_some.mpr rfl⟩)
  | .arr [], arrays, ls, _, hm, _, _ => ⟨.arr [], .nothing, fun l hl => absurd (hm l hl) List.not_mem_nil⟩
  | .arr (i :: items), arrays, ls, hu, hm, hc, hk => by
    rw [spots] at hm
    obtain ⟨p, ls, _, hlt, rfl⟩ := exists_map_within 0 (Nat.succ_pos items.length) (fun l hl => by
      obtain ⟨p, l', hp, hlt, he, _⟩ := (itemSpots_bounds (i :: items) _ _ _).2 l (hm l hl)
      exact ⟨p, l', hp, Nat.lt_of_lt_of_eq hlt (Nat.zero_add _), he⟩) hc
    obtain ⟨j, hj, t, ht, hs⟩ := exists_itemThin (i :: items) (arrays + 1) hu (Nat.zero_le p)
      (by rw [List.length_cons]; omega) (List.forall_mem_map.mp hm) (isChain_of_map_within hc)
      (by rwa [List.map_map] at hk)
    refine ⟨.arr [t], .item hj ht, List.forall_mem_map.mpr fun l hl => ?_⟩
    rw [scalars, itemScalars, itemScalars, List.append_nil]
    exact hs l hl
  | .null, _, _, _, hm, _, _ | .bool _, _, _, _, hm, _, _ | .num _, _, _, _, hm, _, _
  | .str _, _, _, _, hm, _, _ => by
    refine ⟨_, by constructor, fun l hl => ?_⟩
    rw [← map_scalar_spots]
    exact List.mem_map_of_mem (hm l hl)

/-- For the members, with the spots in the value of each given as one block. -/
theorem exists_membersThin : ∀ (ms : List (String × Json)) (arrays : Nat) (block : String → List Spot),
    (ms.map Prod.fst).Nodup → MembersUnique ms →
    (∀ key ∈ ms.map Prod.fst, (∀ l ∈ block key, l.under key ∈ (memberSpots arrays ms).1) ∧
      (block key).IsChain Spot.Agrees ∧ Contiguous ((block key).map Spot.keys)) →
    ∃ ts, MembersThin ms ts ∧ ∀ key ∈ ms.map Prod.fst, ∀ l ∈ block key, (l.under key).scalar ∈ memberScalars ts
  | [], _, _, _, _, _ => ⟨[], .nil, nofun⟩
  | (key, j) :: ms, arrays, block, hn, hu, h => by
    obtain ⟨hkey, hn⟩ := List.nodup_cons.mp hn
    obtain ⟨hm, hc, hk⟩ := h key List.mem_cons_self
    obtain ⟨t, ht, hs⟩ := exists_thin j arrays hu.1 (fun l hl => by
      rcases mem_memberSpots_cons.mp (hm l hl) with ⟨l', hl', he⟩ | hl
      · exact Spot.under_injective key he ▸ hl'
      · obtain ⟨k, hk, l', he⟩ := exists_under_of_mem_memberSpots hl
        exact absurd ((List.cons.inj (congrArg Spot.keys he)).1 ▸ hk) hkey) hc hk
    obtain ⟨ts, hts, hs'⟩ := exists_membersThin ms (j.spots arrays).2 block hn hu.2
      fun k hk => by
        obtain ⟨hm, hc, hk'⟩ := h k (List.mem_cons_of_mem _ hk)
        refine ⟨fun l hl => ?_, hc, hk'⟩
        rcases mem_memberSpots_cons.mp (hm l hl) with ⟨l', _, he⟩ | hl
        · exact absurd ((List.cons.inj (congrArg Spot.keys he)).1 ▸ hk) hkey
        · exact hl
    refine ⟨(key, t) :: ts, .cons ht hts, fun k hk l hl => ?_⟩
    rw [memberScalars, List.mem_append]
    rcases List.mem_cons.mp hk with rfl | hk
    · exact .inl (List.mem_map.mpr ⟨l.scalar, hs l hl, rfl⟩)
    · exact .inr (hs' k hk l hl)

/-- For the items, with spots that are all in the item at `p`. -/
theorem exists_itemThin : ∀ (js : List Json) (arrays : Nat) {array pos p : Nat} {ls : List Spot}, ItemsUnique js →
    pos ≤ p → p < pos + js.length → (∀ l ∈ ls, l.within ⟨array, p⟩ ∈ (itemSpots array pos arrays js).1) →
    ls.IsChain Spot.Agrees → Contiguous (ls.map Spot.keys) →
    ∃ j ∈ js, ∃ t, Thins j t ∧ ∀ l ∈ ls, l.scalar ∈ t.scalars
  | [], _, _, _, _, _, _, hp, hlt, _, _, _ => absurd hlt (Nat.not_lt.mpr hp)
  | j :: js, arrays, array, pos, p, ls, hu, hp, hlt, hm, hc, hk => by
    by_cases he : p = pos
    · subst he
      obtain ⟨t, ht, hs⟩ := exists_thin j arrays hu.1 (fun l hl => by
        rcases mem_itemSpots_cons.mp (hm l hl) with ⟨l', hl', he⟩ | hl
        · exact Spot.within_injective _ he ▸ hl'
        · obtain ⟨q, l', hq, _, he, _⟩ := (itemSpots_bounds js _ _ _).2 _ hl
          have := congrArg ArrayPos.pos (List.cons.inj (congrArg Spot.trail he)).1
          dsimp only at this
          omega) hc hk
      exact ⟨j, List.mem_cons_self, t, ht, hs⟩
    · rw [List.length_cons] at hlt
      obtain ⟨i, hi, t, ht, hs⟩ := exists_itemThin js (j.spots arrays).2 hu.2
        (show pos + 1 ≤ p by omega) (by omega) (fun l hl => by
          rcases mem_itemSpots_cons.mp (hm l hl) with ⟨l', _, he'⟩ | hl
          · have := congrArg ArrayPos.pos (List.cons.inj (congrArg Spot.trail he')).1
            dsimp only at this
            omega
          · exact hl) hc hk
      exact ⟨i, List.mem_cons_of_mem _ hi, t, ht, hs⟩

end

end Json

end EventMatch
