import EventMatch.Proofs.Text.Bytes
import EventMatch.Text.Utf8

/-!
# Text is shown as it is

`Utf8.lossy_ofString`: bytes that are the UTF-8 of a text are shown as that text. A lead byte
announces the bytes behind it (`lead?_ofNat`), each of these adds six bits to the character
begun (`lossyFrom_tail`), and with the last one its code is complete (`lossyFrom_utf8EncodeChar`).
-/

namespace EventMatch.Utf8

variable {v : Bytes}

/-- A lead byte by its number. -/
theorem lead?_ofNat {n : Nat} (hn : n < 256) :
    lead? (UInt8.ofNat n) =
      if n < 0xC2 then none
      else if n < 0xE0 then some ⟨n - 0xC0, 1, 0x80, 0xBF⟩
      else if n < 0xF0 then some ⟨n - 0xE0, 2, if n = 0xE0 then 0xA0 else 0x80, if n = 0xED then 0x9F else 0xBF⟩
      else if n < 0xF5 then some ⟨n - 0xF0, 3, if n = 0xF0 then 0x90 else 0x80, if n = 0xF4 then 0x8F else 0xBF⟩
      else none := by
  have hb : (UInt8.ofNat n).toNat = n := UInt8.toNat_ofNat_of_lt' hn
  simp only [lead?, UInt8.lt_iff_toNat_lt, ← UInt8.toNat_inj, hb]
  rfl

/-- A lead byte begins a character. -/
theorem lossyFrom_lead {n : Nat} {p : Partial} (h : 0x80 ≤ n) (hn : n < 256) (hp : lead? (UInt8.ofNat n) = some p) :
    lossyFrom none (UInt8.ofNat n :: v) = lossyFrom (some p) v := by
  have hb : ¬ UInt8.ofNat n < 0x80 := by
    rw [UInt8.lt_iff_toNat_lt, UInt8.toNat_ofNat_of_lt' hn]
    exact Nat.not_lt.mpr h
  rw [lossyFrom, start, if_neg hb, hp]
  rfl

section Tail

variable {bits k : Nat} {lo hi : UInt8}

/-- A byte within the bounds behind the lead byte is read as six bits. -/
theorem next_eq {missing : Nat} (hk : k < 64) (hlo : lo.toNat ≤ k + 0x80) (hhi : k + 0x80 ≤ hi.toNat) :
    next ⟨bits, missing, lo, hi⟩ (UInt8.ofNat (k + 0x80)) =
      if missing = 1 then ([Char.ofNat (bits * 64 + k)], none)
      else ([], some ⟨bits * 64 + k, missing - 1, 0x80, 0xBF⟩) := by
  have hb : (UInt8.ofNat (k + 0x80)).toNat = k + 0x80 := UInt8.toNat_ofNat_of_lt' (by show _ < 256; omega)
  have hbounds : lo ≤ UInt8.ofNat (k + 0x80) ∧ UInt8.ofNat (k + 0x80) ≤ hi := by
    rw [UInt8.le_iff_toNat_le, UInt8.le_iff_toNat_le, hb]
    exact ⟨hlo, hhi⟩
  rw [next, if_pos hbounds, hb, Nat.add_sub_cancel]

/-- Unless it is the last one, the character goes on. -/
theorem lossyFrom_tail {missing : Nat} (hk : k < 64) (hlo : lo.toNat ≤ k + 0x80) (hhi : k + 0x80 ≤ hi.toNat) :
    lossyFrom (some ⟨bits, missing + 2, lo, hi⟩) (UInt8.ofNat (k + 0x80) :: v) =
      lossyFrom (some ⟨bits * 64 + k, missing + 1, 0x80, 0xBF⟩) v := by
  rw [lossyFrom, next_eq hk hlo hhi, if_neg (by omega)]
  rfl

/-- The last one completes the character. -/
theorem lossyFrom_last (hk : k < 64) :
    lossyFrom (some ⟨bits, 1, 0x80, 0xBF⟩) (UInt8.ofNat (k + 0x80) :: v) =
      Char.ofNat (bits * 64 + k) :: lossyFrom none v := by
  rw [lossyFrom, next_eq hk (Nat.le_add_left _ _) (by show _ ≤ 0xBF; omega), if_pos rfl]
  rfl

/-- The second byte of a character may have a lower bound of its own. -/
theorem toNat_ite_le {p : Prop} [Decidable p] (h : p → lo.toNat ≤ k + 0x80) :
    UInt8.toNat (if p then lo else 0x80) ≤ k + 0x80 := by
  split
  · exact h ‹p›
  · exact Nat.le_add_left _ _

/-- The second byte of a character may have an upper bound of its own. -/
theorem le_toNat_ite {p : Prop} [Decidable p] (hk : k < 64) (h : p → k + 0x80 ≤ hi.toNat) :
    k + 0x80 ≤ UInt8.toNat (if p then hi else 0xBF) := by
  split
  · exact h ‹p›
  · show _ ≤ 0xBF
    omega

end Tail

/-- The bytes of a character are shown as it. -/
theorem lossyFrom_utf8EncodeChar (c : Char) :
    lossyFrom none (String.utf8EncodeChar c ++ v) = c :: lossyFrom none v := by
  have hc : Char.ofNat c.val.toNat = c := c.ofNat_toNat
  have hvalid : c.val.toNat < 0xD800 ∨ 0xDFFF < c.val.toNat ∧ c.val.toNat < 0x110000 := c.valid
  unfold String.utf8EncodeChar
  generalize c.val.toNat = n at hc hvalid
  dsimp only
  split
  · -- one byte
    have hb : (UInt8.ofNat n).toNat = n := UInt8.toNat_ofNat_of_lt' (by show _ < 256; omega)
    have hlt : UInt8.ofNat n < 0x80 := by
      rw [UInt8.lt_iff_toNat_lt, hb]
      show n < 0x80
      omega
    rw [List.singleton_append, lossyFrom, start, if_pos hlt, hb, hc]
    rfl
  split
  · -- two bytes
    have hsum : n / 64 * 64 + n % 64 = n := by omega
    rw [List.cons_append, List.singleton_append,
      lossyFrom_lead (by omega) (by omega) (by rw [lead?_ofNat (by omega), if_neg (by omega), if_pos (by omega)]),
      lossyFrom_last (by omega), Nat.add_sub_cancel, Nat.mod_eq_of_lt (by omega), hsum, hc]
  split
  · -- three bytes, of which the second is bounded so that the code is not too small and no surrogate
    have hsum : (n / 4096 * 64 + n / 64 % 64) * 64 + n % 64 = n := by omega
    rw [List.cons_append, List.cons_append, List.singleton_append, Nat.mod_eq_of_lt (show n / 4096 < 16 by omega),
      lossyFrom_lead (by omega) (by omega)
        (by rw [lead?_ofNat (by omega), if_neg (by omega), if_neg (by omega), if_pos (by omega)]),
      lossyFrom_tail (by omega) ?_ ?_, lossyFrom_last (by omega), Nat.add_sub_cancel, hsum, hc]
    · exact toNat_ite_le fun _ => by show 0xA0 ≤ _; omega
    · exact le_toNat_ite (by omega) fun _ => by show _ ≤ 0x9F; omega
  · -- four bytes, of which the second is bounded so that the code is neither too small nor too large
    have hsum : ((n / 262144 * 64 + n / 4096 % 64) * 64 + n / 64 % 64) * 64 + n % 64 = n := by omega
    rw [List.cons_append, List.cons_append, List.cons_append, List.singleton_append,
      Nat.mod_eq_of_lt (show n / 262144 < 8 by omega),
      lossyFrom_lead (by omega) (by omega)
        (by rw [lead?_ofNat (by omega), if_neg (by omega), if_neg (by omega), if_neg (by omega), if_pos (by omega)]),
      lossyFrom_tail (by omega) ?_ ?_,
      lossyFrom_tail (by omega) (Nat.le_add_left _ _) (by show _ ≤ 0xBF; omega), lossyFrom_last (by omega),
      Nat.add_sub_cancel, hsum, hc]
    · exact toNat_ite_le fun _ => by show 0x90 ≤ _; omega
    · exact le_toNat_ite (by omega) fun _ => by show _ ≤ 0x8F; omega

/-- Text is shown as it is. -/
theorem lossy_ofString (s : String) : lossy (Bytes.ofString s) = s := by
  have h : ∀ cs : List Char, lossyFrom none (cs.flatMap String.utf8EncodeChar) = cs := fun cs => by
    induction cs with
    | nil => rfl
    | cons c cs ih => rw [List.flatMap_cons, lossyFrom_utf8EncodeChar, ih]
  rw [lossy, Bytes.ofString_eq_flatMap, h, String.ofList_toList]

end EventMatch.Utf8
