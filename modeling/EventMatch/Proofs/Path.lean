import EventMatch.Path
import EventMatch.Proofs.Text.Bytes
import Mathlib.Data.List.Infix

/-!
# Paths and keys

`Path.ofKeys` is the path to which a sequence of keys leads: the keys from the first that
is not empty on, with separators between them (`ofKeys_eq_intercalate`). As long as the
keys are `Legible` they are read back by splitting the path (`splitOn_ofKeys`), and so can
be told from it (`ofKeys_inj`). Among the paths of `Plain` keys those that go through the
same member lie together in the order of paths (`isPrefix_of_between`).
-/

namespace EventMatch

/-- What lies between two byte strings begins with what both begin with. -/
theorem Bytes.isPrefix_of_le_of_le : ∀ {p u v w : Bytes}, p <+: u → p <+: w → le u v = true →
    le v w = true → p <+: v
  | [], _, v, _, _, _, _, _ => List.nil_prefix
  | a :: p, _, [], _, ⟨u, rfl⟩, _, h₁, _ => by cases h₁
  | a :: p, _, b :: v, _, ⟨u, rfl⟩, ⟨w, rfl⟩, h₁, h₂ => by
    rw [List.cons_append, le_cons] at h₁ h₂
    rcases h₁ with h₁ | ⟨rfl, h₁⟩
    · rcases h₂ with h₂ | ⟨rfl, _⟩
      · exact absurd h₁ (UInt8.lt_asymm h₂)
      · exact absurd h₁ (UInt8.lt_irrefl _)
    · rcases h₂ with h₂ | ⟨_, h₂⟩
      · exact absurd h₂ (UInt8.lt_irrefl _)
      · exact List.cons_prefix_cons.mpr
          ⟨rfl, isPrefix_of_le_of_le (List.prefix_append p u) (List.prefix_append p w) h₁ h₂⟩

/-- What stands up to the first `a` is found again in a longer list. -/
theorem isPrefix_append_cons {α : Type} {a : α} : ∀ {u v x y : List α}, a ∉ u → a ∉ v →
    u ++ a :: x <+: v ++ a :: y → u = v ∧ x <+: y
  | [], [], _, _, _, _, h => ⟨rfl, (List.cons_prefix_cons.mp h).2⟩
  | [], b :: v, _, _, _, hv, h => absurd ((List.cons_prefix_cons.mp h).1 ▸ List.mem_cons_self) hv
  | b :: u, [], _, _, hu, _, h => absurd ((List.cons_prefix_cons.mp h).1 ▸ List.mem_cons_self) hu
  | b :: u, c :: v, _, _, hu, hv, h => by
    obtain ⟨rfl, ht⟩ := List.cons_prefix_cons.mp h
    obtain ⟨rfl, hx⟩ := isPrefix_append_cons (fun h => hu (List.mem_cons_of_mem _ h))
      (fun h => hv (List.mem_cons_of_mem _ h)) ht
    exact ⟨rfl, hx⟩

/-- The byte of a line feed is that character's only. -/
theorem Bytes.lineFeed_mem_ofString {s : String} : (0x0A : UInt8) ∈ ofString s ↔ '\n' ∈ s.toList := by
  rw [ofString_eq_flatMap, List.mem_flatMap]
  constructor
  · rintro ⟨c, hc, hb⟩
    rcases utf8EncodeChar_ascii c with ⟨he, hlt⟩ | hge
    · rw [he, List.mem_singleton] at hb
      have hn : 0x0A = c.toNat := by
        have := congrArg UInt8.toNat hb
        rwa [UInt8.toNat_ofNat', Nat.mod_eq_of_lt (Nat.lt_trans hlt (by decide))] at this
      rwa [Char.toNat_inj.mp (show c.toNat = '\n'.toNat from hn.symm)] at hc
    · exact absurd (hge _ hb) (by decide)
  · exact fun h => ⟨'\n', h, by decide⟩

namespace Path

/-- A key that is not empty and holds no separator. -/
def Plain (key : String) : Prop := key ≠ "" ∧ '\n' ∉ key.toList

instance : DecidablePred Plain := fun key => inferInstanceAs (Decidable (key ≠ "" ∧ '\n' ∉ key.toList))

/-- Keys without separators of which the first, if there is one, is not empty. -/
def Legible (keys : List String) : Prop := keys.head? ≠ some "" ∧ ∀ key ∈ keys, '\n' ∉ key.toList

theorem legible_of_plain {keys : List String} (h : ∀ key ∈ keys, Plain key) : Legible keys :=
  ⟨fun he => (h "" (List.mem_of_mem_head? he)).1 rfl, fun key hk => (h key hk).2⟩

/-- The path to which keys lead, the outermost first. -/
def ofKeys (keys : List String) : String := keys.foldl extend ""

theorem extend_of_ne {path : String} (h : path ≠ "") (key : String) :
    extend path key = path ++ separator ++ key :=
  if_neg fun he => h (String.isEmpty_iff.mp he)

theorem ofString_extend {path : String} (h : path ≠ "") (key : String) :
    Bytes.ofString (extend path key) = Bytes.ofString path ++ 0x0A :: Bytes.ofString key := by
  rw [extend_of_ne h, Bytes.ofString_append, Bytes.ofString_append, List.append_assoc]
  rfl

theorem extend_ne {path : String} (h : path ≠ "") (key : String) : extend path key ≠ "" := fun he => by
  have := ofString_extend h key
  rw [he] at this
  exact absurd (congrArg List.length this) (by simp [Bytes.ofString])

/-! ## Reading keys back -/

/-- Once a path has begun, every further key is joined to it. -/
theorem foldl_extend_of_ne : ∀ {keys : List String} {path : String}, path ≠ "" →
    keys.foldl extend path = separator.intercalate (path :: keys)
  | [], _, _ => String.intercalate_singleton.symm
  | key :: keys, path, h => by
    rw [List.foldl_cons, foldl_extend_of_ne (extend_ne h key), extend_of_ne h,
      String.intercalate_cons_append, String.intercalate_cons_cons]

/-- Empty keys at the front leave no trace in the path. -/
theorem ofKeys_eq_intercalate : ∀ keys : List String,
    ofKeys keys = separator.intercalate (keys.dropWhile String.isEmpty)
  | [] => rfl
  | key :: keys => by
    by_cases hkey : key = ""
    · subst hkey
      exact ofKeys_eq_intercalate keys
    · rw [List.dropWhile_cons_of_neg fun he => hkey (String.isEmpty_iff.mp he)]
      exact foldl_extend_of_ne hkey

theorem Legible.dropWhile_eq : ∀ {keys : List String}, Legible keys → keys.dropWhile String.isEmpty = keys
  | [], _ => rfl
  | _ :: _, h => List.dropWhile_cons_of_neg fun he => h.1 (congrArg some (String.isEmpty_iff.mp he))

/-- Legible keys are the pieces of their path between the separators. -/
theorem splitOn_ofKeys {keys : List String} (hne : keys ≠ []) (h : Legible keys) :
    (ofKeys keys).toList.splitOn '\n' = keys.map String.toList := by
  rw [ofKeys_eq_intercalate, h.dropWhile_eq, String.toList_intercalate]
  exact List.splitOn_intercalate '\n' (List.forall_mem_map.mpr h.2) (List.map_eq_nil_iff.not.mpr hne)

/-- Only no keys at all lead to the empty path. -/
theorem ofKeys_ne_empty {keys : List String} (hne : keys ≠ []) (h : Legible keys) : ofKeys keys ≠ "" := by
  intro he
  have hsplit := splitOn_ofKeys hne h
  rw [he] at hsplit
  -- The pieces of the empty path are one empty key, which would come first.
  obtain ⟨key, keys, rfl⟩ := List.exists_cons_of_ne_nil hne
  exact h.1 (congrArg some (String.toList_eq_nil_iff.mp (List.cons.inj hsplit).1.symm))

/-- Legible keys can be told from the path to which they lead. -/
theorem ofKeys_inj {ks ls : List String} (hk : Legible ks) (hl : Legible ls) (h : ofKeys ks = ofKeys ls) :
    ks = ls := by
  by_cases hks : ks = []
  · by_cases hls : ls = []
    · rw [hks, hls]
    · rw [hks] at h
      exact absurd h.symm (ofKeys_ne_empty hls hl)
  · by_cases hls : ls = []
    · rw [hls] at h
      exact absurd h (ofKeys_ne_empty hks hk)
    · refine List.map_injective_iff.mpr (fun s t => String.toList_inj.mp) ?_
      rw [← splitOn_ofKeys hks hk, ← splitOn_ofKeys hls hl, h]

/-! ## The order of paths -/

/-- The bytes of keys, each with a separator after it. -/
def terminated (keys : List String) : Bytes := keys.flatMap fun key => Bytes.ofString key ++ [0x0A]

theorem terminated_cons (key : String) (keys : List String) :
    terminated (key :: keys) = Bytes.ofString key ++ 0x0A :: terminated keys := by
  rw [terminated, List.flatMap_cons, List.append_assoc, List.singleton_append, terminated]

theorem ofString_foldl_extend : ∀ {keys : List String} {path : String}, path ≠ "" →
    Bytes.ofString (keys.foldl extend path) ++ [0x0A] = Bytes.ofString path ++ 0x0A :: terminated keys
  | [], _, _ => rfl
  | key :: keys, path, h => by
    rw [List.foldl_cons, ofString_foldl_extend (extend_ne h key), ofString_extend h, terminated_cons,
      List.append_assoc, List.cons_append]

/-- The bytes of the path to which plain keys lead. -/
theorem ofString_ofKeys {keys : List String} (hne : keys ≠ []) (h : ∀ key ∈ keys, Plain key) :
    Bytes.ofString (ofKeys keys) ++ [0x0A] = terminated keys := by
  cases keys with
  | nil => exact absurd rfl hne
  | cons key keys =>
    rw [ofKeys, List.foldl_cons, extend_empty, ofString_foldl_extend (h key List.mem_cons_self).1,
      terminated_cons]

theorem isPrefix_of_terminated : ∀ {ks ls : List String}, (∀ key ∈ ks, Plain key) → (∀ key ∈ ls, Plain key) →
    terminated ks <+: terminated ls → ks <+: ls
  | [], _, _, _, _ => List.nil_prefix
  | k :: ks, [], _, _, h => by
    rw [terminated_cons] at h
    exact absurd (List.prefix_nil.mp h) (by simp)
  | k :: ks, l :: ls, hk, hl, h => by
    rw [terminated_cons, terminated_cons] at h
    obtain ⟨he, h⟩ := isPrefix_append_cons
      (fun hm => (hk k List.mem_cons_self).2 (Bytes.lineFeed_mem_ofString.mp hm))
      (fun hm => (hl l List.mem_cons_self).2 (Bytes.lineFeed_mem_ofString.mp hm)) h
    exact List.cons_prefix_cons.mpr ⟨Bytes.ofString_inj.mp he, isPrefix_of_terminated
      (fun key hm => hk key (List.mem_cons_of_mem _ hm)) (fun key hm => hl key (List.mem_cons_of_mem _ hm)) h⟩

/-- A path begins with the keys of every object that it leads through. -/
theorem terminated_isPrefix {qs ks : List String} (hk : ∀ key ∈ ks, Plain key) (h : qs <+: ks) (hne : qs ≠ ks) :
    terminated qs <+: Bytes.ofString (ofKeys ks) := by
  obtain ⟨rs, rfl⟩ := h
  have hrs : rs ≠ [] := fun e => hne (by rw [e, List.append_nil])
  have hbytes : Bytes.ofString (ofKeys (qs ++ rs)) ++ [0x0A] = terminated qs ++ terminated rs := by
    rw [ofString_ofKeys (List.append_ne_nil_of_right_ne_nil _ hrs) hk]
    exact List.flatMap_append
  have ht : terminated qs <+: Bytes.ofString (ofKeys (qs ++ rs)) ++ [0x0A] := hbytes ▸ List.prefix_append _ _
  rcases List.prefix_concat_iff.mp ht with he | ht
  · rw [hbytes] at he
    obtain ⟨r, rs, rfl⟩ := List.exists_cons_of_ne_nil hrs
    have hnil := List.append_right_eq_self.mp he.symm
    rw [terminated_cons] at hnil
    exact absurd hnil (by simp)
  · exact ht

/-- Between paths that lead through the same member there are no others. -/
theorem isPrefix_of_between {qs ks ls ms : List String} (hk : ∀ key ∈ ks, Plain key)
    (hl : ∀ key ∈ ls, Plain key) (hm : ∀ key ∈ ms, Plain key) (hqk : qs <+: ks) (hqm : qs <+: ms)
    (hnk : qs ≠ ks) (hnm : qs ≠ ms) (h₁ : Bytes.leString (ofKeys ks) (ofKeys ls) = true)
    (h₂ : Bytes.leString (ofKeys ls) (ofKeys ms) = true) : qs <+: ls := by
  have hq : ∀ key ∈ qs, Plain key := fun key h => hk key (hqk.subset h)
  have ht : terminated qs <+: Bytes.ofString (ofKeys ls) := Bytes.isPrefix_of_le_of_le
    (terminated_isPrefix hk hqk hnk) (terminated_isPrefix hm hqm hnm) h₁ h₂
  by_cases hls : ls = []
  · subst hls
    cases qs with
    | nil => exact List.nil_prefix
    | cons q qs =>
      rw [terminated_cons] at ht
      exact absurd (List.prefix_nil.mp ht) (by simp)
  · exact isPrefix_of_terminated hq hl (ofString_ofKeys hls hl ▸ ht.trans (List.prefix_append _ _))

end Path

end EventMatch
