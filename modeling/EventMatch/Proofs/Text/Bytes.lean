import EventMatch.Text.Bytes
import Mathlib.Data.List.Basic

/-!
# Bytes of texts

`ofString_ofList`: the bytes of a text are those of its characters.
`toNat_lt_of_mem_ofString`: the bytes from 0xF5 on occur in no text.
-/

namespace EventMatch.Bytes

/-- The bytes of a list of characters are the bytes of each in turn. -/
theorem ofString_ofList (cs : List Char) :
    ofString (String.ofList cs) = cs.flatMap String.utf8EncodeChar := by
  induction cs with
  | nil => rfl
  | cons c cs ih =>
    rw [ofString, String.toByteArray_ofList] at ih ⊢
    rw [List.utf8Encode_cons, List.utf8Encode_singleton, ByteArray.data_append, Array.toList_append, ih,
      List.flatMap_cons]
    simp

theorem ofString_eq_flatMap (s : String) : ofString s = s.toList.flatMap String.utf8EncodeChar := by
  rw [← ofString_ofList, String.ofList_toList]

theorem ofString_append (s t : String) : ofString (s ++ t) = ofString s ++ ofString t := by
  rw [ofString_eq_flatMap, ofString_eq_flatMap, ofString_eq_flatMap, String.toList_append,
    List.flatMap_append]

/-- The bytes of a character below 0x80 are that character, and those of any other
are at least 0x80. -/
theorem utf8EncodeChar_ascii (c : Char) :
    (String.utf8EncodeChar c = [UInt8.ofNat c.toNat] ∧ c.toNat < 0x80) ∨
      ∀ b ∈ String.utf8EncodeChar c, 0x80 ≤ b.toNat := by
  unfold String.utf8EncodeChar
  by_cases h₁ : c.val.toNat ≤ 0x7f
  · exact .inl ⟨if_pos h₁, Nat.lt_succ_of_le h₁⟩
  · refine .inr fun b hb => ?_
    dsimp only at hb
    rw [if_neg h₁] at hb
    split at hb
    · simp only [List.mem_cons, List.not_mem_nil, or_false] at hb
      rcases hb with rfl | rfl <;> rw [UInt8.toNat_ofNat'] <;> omega
    · split at hb
      · simp only [List.mem_cons, List.not_mem_nil, or_false] at hb
        rcases hb with rfl | rfl | rfl <;> rw [UInt8.toNat_ofNat'] <;> omega
      · simp only [List.mem_cons, List.not_mem_nil, or_false] at hb
        rcases hb with rfl | rfl | rfl | rfl <;> rw [UInt8.toNat_ofNat'] <;> omega

/-- An ASCII character at the front is the first byte. -/
theorem ofString_ofList_cons {c : Char} (hc : c.toNat < 0x80) (cs : List Char) :
    ofString (String.ofList (c :: cs)) = UInt8.ofNat c.toNat :: ofString (String.ofList cs) := by
  have he : String.utf8EncodeChar c = [UInt8.ofNat c.toNat] := if_pos (Nat.le_of_lt_succ hc)
  rw [ofString_ofList, ofString_ofList, List.flatMap_cons, he, List.singleton_append]

theorem toString?_ofString (s : String) : toString? (ofString s) = some s := by
  have h : (⟨(ofString s).toArray⟩ : ByteArray) = s.toByteArray := by
    rw [ofString, Array.toArray_toList]
  rw [toString?, h, String.fromUTF8?, dif_pos s.isValidUTF8]
  rfl

/-- The characters with the codes of ASCII bytes have these bytes. -/
theorem ofString_map_ofNat : ∀ {v : Bytes}, (∀ b ∈ v, b.toNat < 0x80) →
    ofString (String.ofList (v.map fun b => Char.ofNat b.toNat)) = v
  | [], _ => rfl
  | b :: v, h => by
    obtain ⟨hb, hv⟩ := List.forall_mem_cons.mp h
    have hchar : ∀ k < 0x80, (Char.ofNat k).toNat = k := by decide
    have hc := hchar b.toNat hb
    rw [List.map_cons, ofString_ofList_cons (by rwa [hc]), ofString_map_ofNat hv, hc, UInt8.ofNat_toNat]

/-- No byte of a character is 0xF5 or above. -/
theorem toNat_lt_of_mem_utf8EncodeChar {c : Char} {b : UInt8} (hb : b ∈ String.utf8EncodeChar c) :
    b.toNat < 0xF5 := by
  have hc : c.val.toNat < 0x110000 := by
    rcases c.valid with h | h
    · exact Nat.lt_trans h (by decide)
    · exact h.2
  unfold String.utf8EncodeChar at hb
  dsimp only at hb
  split at hb
  · rw [List.mem_singleton.mp hb, UInt8.toNat_ofNat']
    omega
  · split at hb
    · simp only [List.mem_cons, List.not_mem_nil, or_false] at hb
      rcases hb with rfl | rfl <;> rw [UInt8.toNat_ofNat'] <;> omega
    · split at hb
      · simp only [List.mem_cons, List.not_mem_nil, or_false] at hb
        rcases hb with rfl | rfl | rfl <;> rw [UInt8.toNat_ofNat'] <;> omega
      · simp only [List.mem_cons, List.not_mem_nil, or_false] at hb
        rcases hb with rfl | rfl | rfl | rfl <;> rw [UInt8.toNat_ofNat'] <;> omega

theorem toNat_lt_of_mem_ofString {s : String} {b : UInt8} (hb : b ∈ ofString s) : b.toNat < 0xF5 := by
  rw [ofString_eq_flatMap] at hb
  obtain ⟨c, _, hc⟩ := List.mem_flatMap.mp hb
  exact toNat_lt_of_mem_utf8EncodeChar hc

/-! ## The order of bytes -/

theorem le_cons {a b : UInt8} {v w : Bytes} : le (a :: v) (b :: w) = true ↔ a < b ∨ a = b ∧ le v w = true := by
  rw [le]
  by_cases h₁ : a < b
  · rw [if_pos h₁]
    exact iff_of_true rfl (.inl h₁)
  · rw [if_neg h₁]
    by_cases h₂ : b < a
    · rw [if_pos h₂]
      exact iff_of_false Bool.false_ne_true fun h => h.elim h₁ fun h => UInt8.lt_irrefl b (h.1 ▸ h₂)
    · rw [if_neg h₂]
      have he : a = b := UInt8.le_antisymm (UInt8.not_lt.mp h₂) (UInt8.not_lt.mp h₁)
      exact ⟨fun h => .inr ⟨he, h⟩, fun h => h.elim (fun h => absurd h h₁) And.right⟩

theorem le_refl : ∀ v : Bytes, le v v = true
  | [] => rfl
  | _ :: v => le_cons.mpr (.inr ⟨rfl, le_refl v⟩)

theorem le_trans : ∀ {u v w : Bytes}, le u v = true → le v w = true → le u w = true
  | [], _, _, _, _ => rfl
  | _ :: _, [], _, h, _ => by cases h
  | _ :: _, _ :: _, [], _, h => by cases h
  | a :: u, b :: v, c :: w, h₁, h₂ => by
    rw [le_cons] at h₁ h₂ ⊢
    rcases h₁ with h₁ | ⟨rfl, h₁⟩
    · rcases h₂ with h₂ | ⟨rfl, h₂⟩
      · exact .inl (UInt8.lt_trans h₁ h₂)
      · exact .inl h₁
    · rcases h₂ with h₂ | ⟨rfl, h₂⟩
      · exact .inl h₂
      · exact .inr ⟨rfl, le_trans h₁ h₂⟩

theorem le_antisymm : ∀ {v w : Bytes}, le v w = true → le w v = true → v = w
  | [], [], _, _ => rfl
  | [], _ :: _, _, h => by cases h
  | _ :: _, [], h, _ => by cases h
  | a :: v, b :: w, h₁, h₂ => by
    rw [le_cons] at h₁ h₂
    rcases h₁ with h₁ | ⟨rfl, h₁⟩
    · rcases h₂ with h₂ | ⟨rfl, h₂⟩
      · exact absurd h₁ (UInt8.lt_asymm h₂)
      · exact absurd h₁ (UInt8.lt_irrefl _)
    · rcases h₂ with h₂ | ⟨_, h₂⟩
      · exact absurd h₂ (UInt8.lt_irrefl _)
      · rw [le_antisymm h₁ h₂]

theorem le_total : ∀ v w : Bytes, le v w = true ∨ le w v = true
  | [], _ => .inl rfl
  | _ :: _, [] => .inr rfl
  | a :: v, b :: w => by
    rw [le_cons, le_cons]
    by_cases h : a = b
    · exact (le_total v w).imp (fun h' => .inr ⟨h, h'⟩) fun h' => .inr ⟨h.symm, h'⟩
    · exact (UInt8.lt_or_lt_of_ne h).imp .inl .inl

theorem lt_iff_not_le : ∀ {v w : Bytes}, v < w ↔ ¬ le w v = true
  | [], [] => iff_of_false (List.lt_irrefl _) (not_not_intro rfl)
  | [], b :: w => iff_of_true (List.nil_lt_cons b w) Bool.false_ne_true
  | a :: v, [] => iff_of_false (List.not_lt_nil _) (not_not_intro rfl)
  | a :: v, b :: w => by
    rw [List.cons_lt_cons_iff, le_cons, lt_iff_not_le]
    by_cases h : a = b
    · subst h
      simp only [UInt8.lt_irrefl, true_and, false_or]
    · simp only [h, Ne.symm h, false_and, or_false]
      exact ⟨UInt8.lt_asymm, fun hba => (UInt8.lt_or_lt_of_ne h).resolve_right hba⟩

theorem leString_trans {r s t : String} (h₁ : leString r s = true) (h₂ : leString s t = true) :
    leString r t = true := le_trans h₁ h₂

theorem leString_antisymm {s t : String} (h₁ : leString s t = true) (h₂ : leString t s = true) : s = t :=
  ofString_inj.mp (le_antisymm h₁ h₂)

theorem leString_total (s t : String) : leString s t = true ∨ leString t s = true := le_total _ _

/-! ## Sorting by text -/

section StablySorted

variable {α : Type} (text : α → String)

theorem trans_of_text : ∀ a b c : α, leString (text a) (text b) = true → leString (text b) (text c) = true →
    leString (text a) (text c) = true := fun _ _ _ => leString_trans

theorem total_of_text : ∀ a b : α, (leString (text a) (text b) || leString (text b) (text a)) = true :=
  fun _ _ => Bool.or_eq_true_iff.mpr (leString_total _ _)

/-- What is sorted by texts is in the order of the texts. -/
theorem pairwise_mergeSort_leString (as : List α) :
    (as.mergeSort fun a b => leString (text a) (text b)).Pairwise fun a b => leString (text a) (text b) = true :=
  List.pairwise_mergeSort (trans_of_text text) (total_of_text text) as

/-- `bs` is `as` in the order of their texts, and those with one text are in the
order in which they were. -/
structure StablySorted (as bs : List α) : Prop where
  perm : bs.Perm as
  sorted : bs.Pairwise fun a b => leString (text a) (text b) = true
  stable : ∀ s, bs.filter (text · = s) = as.filter (text · = s)

theorem stablySorted_mergeSort (as : List α) :
    StablySorted text as (as.mergeSort fun a b => leString (text a) (text b)) where
  perm := List.mergeSort_perm _ _
  sorted := pairwise_mergeSort_leString text as
  stable := fun s => by
    have hs : (as.filter (text · = s)).Pairwise fun a b => leString (text a) (text b) = true :=
      (List.pairwise_of_forall fun _ _ => trivial : List.Pairwise (fun _ _ => True) _).imp_of_mem
        fun {a b} ha hb _ => by
          rw [of_decide_eq_true (List.mem_filter.mp ha).2, of_decide_eq_true (List.mem_filter.mp hb).2]
          exact le_refl _
    have hsub := (List.sublist_mergeSort (trans_of_text text) (total_of_text text) hs
      List.filter_sublist).filter (text · = s)
    have hlen := ((List.mergeSort_perm as fun a b => leString (text a) (text b)).filter (text · = s)).length_eq
    simp only [List.filter_filter, Bool.and_self] at hsub
    exact (hsub.eq_of_length hlen.symm).symm

end StablySorted

end EventMatch.Bytes
