import EventMatch.Proofs.Automaton.KeyRuns
import EventMatch.Proofs.Text.Utf8

/-!
# The grammar of numerals

`Numeral.Shaped` is what the bytes of a numeral look like, said of the bytes alone: an optional
minus, digits, an optional fraction and an optional exponent. Every part has the shape of its
grammar exactly if it is the spelling of such a part (`someDigits_iff`, `fractionShaped_iff`,
`exponentShaped_iff`), so bytes are shaped exactly if they spell a numeral (`shaped_iff`), which
are those that the reader accepts. `canonical_shaped` draws the consequences for keys: numerals
are text and are refused only for their range, and all else is refused as what it is.
-/

namespace EventMatch.Numeral

/-! ## Shapes -/

/-- One or more ASCII digits. -/
def SomeDigits (v : Bytes) : Prop := v ≠ [] ∧ IsDigits v

/-- Nothing, or a point and digits. -/
def FractionShaped (v : Bytes) : Prop := v = [] ∨ ∃ ds, v = 0x2E :: ds ∧ SomeDigits ds

/-- Nothing, or `e` or `E`, then a plus or a minus or neither, and digits. -/
def ExponentShaped (v : Bytes) : Prop :=
  v = [] ∨ ∃ mark sign ds, v = mark :: (sign ++ ds) ∧ mark ∈ [0x65, 0x45] ∧ sign ∈ [[], [0x2B], [0x2D]] ∧ SomeDigits ds

/-- An optional minus, digits, an optional fraction and an optional exponent, and nothing else. -/
def Shaped (v : Bytes) : Prop :=
  ∃ minus whole fraction exponent, v = minus ++ whole ++ fraction ++ exponent ∧ minus ∈ [[], [0x2D]] ∧
    SomeDigits whole ∧ FractionShaped fraction ∧ ExponentShaped exponent

/-! ## Shapes and spellings -/

section

variable {v : Bytes}

theorem isDigits_iff : IsDigits v ↔ ∃ ds : List Digit, ds.map Digit.byte = v := by
  constructor
  · intro h
    induction v with
    | nil => exact ⟨[], rfl⟩
    | cons b v ih =>
      obtain ⟨hb, hv⟩ := List.forall_mem_cons.mp h
      obtain ⟨ds, hds⟩ := ih hv
      have hd : Digit.ofByte? b = some _ := dif_pos hb
      exact ⟨_ :: ds, by rw [List.map_cons, Digit.byte_of_ofByte? hd, hds]⟩
  · rintro ⟨ds, rfl⟩ b hb
    obtain ⟨d, -, rfl⟩ := List.mem_map.mp hb
    have hbyte : ∀ d : Digit, 0x30 ≤ d.byte.toNat ∧ d.byte.toNat < 0x3A := by decide
    exact hbyte d

theorem someDigits_iff : SomeDigits v ↔ ∃ ds : Digits, ds.spelling = v := by
  constructor
  · rintro ⟨hne, hv⟩
    obtain ⟨_ | ⟨d, ds⟩, rfl⟩ := isDigits_iff.mp hv
    · exact absurd rfl hne
    · exact ⟨⟨d, ds⟩, rfl⟩
  · rintro ⟨ds, rfl⟩
    exact ⟨List.cons_ne_nil _ _, isDigits_iff.mpr ⟨_, rfl⟩⟩

theorem fractionShaped_iff : FractionShaped v ↔ ∃ f, fractionSpelling f = v := by
  constructor
  · rintro (rfl | ⟨_, rfl, hds⟩)
    · exact ⟨none, rfl⟩
    · obtain ⟨ds, rfl⟩ := someDigits_iff.mp hds
      exact ⟨some ds, rfl⟩
  · rintro ⟨_ | ds, rfl⟩
    · exact .inl rfl
    · exact .inr ⟨_, rfl, someDigits_iff.mpr ⟨ds, rfl⟩⟩

theorem exists_ite_iff {α : Type} {a b c : α} : (∃ x : Bool, (if x then b else a) = c) ↔ c ∈ [a, b] := by
  rw [Bool.exists_bool, List.mem_cons, List.mem_singleton, eq_comm, @eq_comm _ c b]
  rfl

theorem exists_signSpelling_iff : (∃ s, Exponent.signSpelling s = v) ↔ v ∈ [[], [0x2B], [0x2D]] := by
  simp only [List.mem_cons, List.not_mem_nil, or_false]
  constructor
  · rintro ⟨_ | _ | _, rfl⟩
    · exact .inl rfl
    · exact .inr (.inl rfl)
    · exact .inr (.inr rfl)
  · rintro (rfl | rfl | rfl)
    · exact ⟨none, rfl⟩
    · exact ⟨some .plus, rfl⟩
    · exact ⟨some .minus, rfl⟩

theorem exponentShaped_iff : ExponentShaped v ↔ ∃ e, Exponent.spellingOf e = v := by
  constructor
  · rintro (rfl | ⟨_, _, _, rfl, hmark, hsign, hds⟩)
    · exact ⟨none, rfl⟩
    · obtain ⟨capital, rfl⟩ := exists_ite_iff.mpr hmark
      obtain ⟨sign, rfl⟩ := exists_signSpelling_iff.mpr hsign
      obtain ⟨digits, rfl⟩ := someDigits_iff.mp hds
      exact ⟨some { capital, sign, digits }, rfl⟩
  · rintro ⟨_ | ⟨capital, sign, digits⟩, rfl⟩
    · exact .inl rfl
    · exact .inr ⟨_, _, _, rfl, exists_ite_iff.mp ⟨capital, rfl⟩, exists_signSpelling_iff.mp ⟨sign, rfl⟩,
        someDigits_iff.mpr ⟨digits, rfl⟩⟩

/-- What is shaped like a numeral is the spelling of one. -/
theorem shaped_iff : Shaped v ↔ ∃ n : Numeral, n.spelling = v := by
  constructor
  · rintro ⟨minus, _, _, _, rfl, hminus, hwhole, hfraction, hexponent⟩
    obtain ⟨whole, rfl⟩ := someDigits_iff.mp hwhole
    obtain ⟨fraction, rfl⟩ := fractionShaped_iff.mp hfraction
    obtain ⟨exponent, rfl⟩ := exponentShaped_iff.mp hexponent
    obtain ⟨negative, rfl⟩ := exists_ite_iff.mpr hminus
    exact ⟨{ negative, whole, fraction, exponent }, rfl⟩
  · rintro ⟨⟨negative, whole, fraction, exponent⟩, rfl⟩
    exact ⟨_, _, _, _, rfl, exists_ite_iff.mp ⟨negative, rfl⟩, someDigits_iff.mpr ⟨whole, rfl⟩,
      fractionShaped_iff.mpr ⟨fraction, rfl⟩, exponentShaped_iff.mpr ⟨exponent, rfl⟩⟩

theorem isNumeral_iff : isNumeral v = true ↔ ∃ n : Numeral, n.spelling = v := by
  rw [isNumeral, Option.isSome_iff_exists]
  exact exists_congr fun n => ⟨spelling_of_parse?, fun h => h ▸ n.parse?_spelling⟩

end

/-! ## Verdicts -/

theorem canonical_of_not_isNumeral {v : Bytes} (h : ¬ isNumeral v = true) :
    canonical v = .error (.number (Utf8.lossy v)) := by
  rw [isNumeral, Bool.not_eq_true, Option.isSome_eq_false_iff, Option.isNone_iff_eq_none] at h
  rw [canonical, h]

/-- The bytes that are read as numerals are those of the grammar. They are text, and have the digits of a key or
are refused for their range. All other bytes are refused as no numeral, and text among them is quoted as it is. -/
theorem canonical_shaped (v : Bytes) :
    (isNumeral v = true ↔ Shaped v) ∧
    (Shaped v → (∃ s, Bytes.toString? v = some s ∧ Bytes.ofString s = v) ∧
      ((∃ ds, canonical v = .ok ds) ∨ ∃ e, canonical v = .error (.range e))) ∧
    (¬ Shaped v → canonical v = .error (.number (Utf8.lossy v)) ∧ ∀ s, Bytes.ofString s = v → Utf8.lossy v = s) := by
  have hiff : isNumeral v = true ↔ Shaped v := isNumeral_iff.trans shaped_iff.symm
  refine ⟨hiff, fun h => ?_, fun h => ⟨canonical_of_not_isNumeral (mt hiff.mp h), ?_⟩⟩
  · obtain ⟨n, rfl⟩ := shaped_iff.mp h
    refine ⟨⟨n.text, ?_, n.ofString_text⟩, ?_⟩
    · rw [← n.ofString_text, Bytes.toString?_ofString]
    · by_cases hkey : n.HasKey
      · exact .inl ⟨_, canonical_spelling_of_hasKey hkey⟩
      · exact .inr (canonical_error_of_not_hasKey hkey)
  · rintro s rfl
    exact Utf8.lossy_ofString s

/-- A number that is too large for a key, and a point without digits behind it. -/
theorem canonical_shaped_point :
    (∃ e, canonical (Bytes.ofString "-12.5E+8") = .error (.range e)) ∧
      canonical (Bytes.ofString "1.") = .error (.number "1.") := by
  let n : Numeral := ⟨true, ⟨1, [2]⟩, some ⟨5, []⟩, some ⟨true, some .plus, ⟨8, []⟩⟩⟩
  have hn : Bytes.ofString "-12.5E+8" = n.spelling := by decide +kernel
  have hkey : ¬ n.HasKey := fun h => absurd h.inRange (by decide +kernel)
  constructor
  · obtain ⟨-, hshaped, -⟩ := canonical_shaped (Bytes.ofString "-12.5E+8")
    obtain ⟨-, ⟨_, hok⟩ | he⟩ := hshaped (shaped_iff.mpr ⟨n, hn.symm⟩)
    · exact absurd (hasKey_of_canonical (hn ▸ hok)) hkey
    · exact he
  · obtain ⟨hiff, -, hnot⟩ := canonical_shaped (Bytes.ofString "1.")
    obtain ⟨herror, hquoted⟩ := hnot (mt hiff.mpr (by decide +kernel))
    rw [herror, hquoted _ rfl]

end EventMatch.Numeral
