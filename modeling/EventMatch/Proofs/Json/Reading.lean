import EventMatch.Json.Parser
import EventMatch.Proofs.Numeral.Spelling
import EventMatch.Proofs.Text.Bytes

/-!
# What readers read

Each reader of a part of a JSON text is said to read a value and to leave a rest
(`Reads`), and for each it is said once from which texts it does: for strings
(`reads_stringBody_iff`, `reads_escaped_iff`), numbers (`reads_number_iff`), lists of items and of
members (`reads_separated_iff`, `reads_member_iff`) and values (`reads_value_iff`).
-/

namespace EventMatch

namespace Numeral

theorem withSignedExponent_idem (n : Numeral) : n.withSignedExponent.withSignedExponent = n.withSignedExponent := by
  obtain ⟨negative, whole, fraction, _ | ⟨capital, sign, digits⟩⟩ := n <;> rfl

theorem plain_withSignedExponent (n : Numeral) : n.withSignedExponent.plain = n.plain := by
  obtain ⟨negative, whole, fraction, _ | ⟨capital, _ | _ | _, digits⟩⟩ := n <;> rfl

end Numeral

namespace Json

open Numeral

/-- The reader takes `a` off the front of `s` and leaves `rest`. -/
def Reads {α : Type} (r : Reader α) (s : List Char) (a : α) (rest : List Char) : Prop :=
  ∃ h, r s = some (a, ⟨rest, h⟩)

theorem Reads.length_lt {α : Type} {r : Reader α} {s rest : List Char} {a : α} (h : Reads r s a rest) :
    rest.length < s.length := h.1

/-! ## Strings -/

theorem reads_hexQuad_iff {s rest : List Char} {n : Nat} : Reads hexQuad s n rest ↔
    ∃ a b c d a' b' c' d', s = a :: b :: c :: d :: rest ∧ hexDigit? a = some a' ∧ hexDigit? b = some b' ∧
      hexDigit? c = some c' ∧ hexDigit? d = some d' ∧ n = ((a' * 16 + b') * 16 + c') * 16 + d' := by
  constructor
  · rintro ⟨hlt, h⟩
    unfold hexQuad at h
    split at h
    · rename_i a b c d r
      simp only [Option.bind_eq_bind, Option.bind_eq_some_iff, Option.some.injEq, Prod.mk.injEq, Subtype.mk.injEq] at h
      obtain ⟨a', ha, b', hb, c', hc, d', hd, rfl, rfl⟩ := h
      exact ⟨a, b, c, d, a', b', c', d', rfl, ha, hb, hc, hd, rfl⟩
    · cases h
  · rintro ⟨a, b, c, d, a', b', c', d', rfl, ha, hb, hc, hd, rfl⟩
    refine ⟨by simp only [List.length_cons]; omega, ?_⟩
    rw [hexQuad, ha, hb, hc, hd]
    rfl

theorem Reads.hexQuad_append {s rest : List Char} {n : Nat} (h : Reads hexQuad s n rest) (t : List Char) :
    Reads hexQuad (s ++ t) n (rest ++ t) := by
  obtain ⟨a, b, c, d, a', b', c', d', rfl, hds⟩ := reads_hexQuad_iff.mp h
  exact reads_hexQuad_iff.mpr ⟨a, b, c, d, a', b', c', d', rfl, hds⟩

theorem reads_lowSurrogate_iff {s rest : List Char} {n : Nat} : Reads lowSurrogate s n rest ↔
    ∃ r low, s = '\\' :: 'u' :: r ∧ Reads hexQuad r low rest ∧ (0xDC00 ≤ low ∧ low < 0xE000) ∧ n = low - 0xDC00 := by
  constructor
  · rintro ⟨hlt, h⟩
    unfold lowSurrogate at h
    split at h
    · rename_i r
      simp only [Option.bind_eq_bind, Option.bind_eq_some_iff] at h
      obtain ⟨⟨low, r', hr'⟩, hq, h⟩ := h
      dsimp only at h
      split at h
      · rename_i hlow
        simp only [Option.some.injEq, Prod.mk.injEq, Subtype.mk.injEq] at h
        obtain ⟨rfl, rfl⟩ := h
        exact ⟨r, low, rfl, ⟨hr', hq⟩, hlow, Eq.refl _⟩
      · cases h
    · cases h
  · rintro ⟨r, low, rfl, ⟨hlt, hq⟩, hlow, hn⟩
    refine ⟨by simp only [List.length_cons]; omega, ?_⟩
    rw [lowSurrogate, hq, hn]
    simp only [Option.bind_eq_bind, Option.bind_some, if_pos hlow]

theorem Reads.lowSurrogate_append {s rest : List Char} {n : Nat} (h : Reads lowSurrogate s n rest)
    (t : List Char) : Reads lowSurrogate (s ++ t) n (rest ++ t) := by
  obtain ⟨r, low, rfl, hq, hlow⟩ := reads_lowSurrogate_iff.mp h
  exact reads_lowSurrogate_iff.mpr ⟨r ++ t, low, rfl, hq.hexQuad_append t, hlow⟩

/-- What can follow a backslash: one character, or a `u` with the digits of a character that
is no surrogate, or of two surrogates. -/
theorem reads_escaped_iff {s rest : List Char} {x : Char} : Reads escaped s x rest ↔
    (∃ c, c ≠ 'u' ∧ s = c :: rest ∧ escape? c = some x) ∨
    (∃ r n, s = 'u' :: r ∧ Reads hexQuad r n rest ∧ (n < 0xD800 ∨ 0xE000 ≤ n) ∧ x = Char.ofNat n) ∨
    ∃ r r₁ n low, s = 'u' :: r ∧ Reads hexQuad r n r₁ ∧ (0xD800 ≤ n ∧ n < 0xDC00) ∧
      Reads lowSurrogate r₁ low rest ∧ x = Char.ofNat (0x10000 + (n - 0xD800) * 0x400 + low) := by
  constructor
  · rintro ⟨hlt, h⟩
    unfold escaped at h
    split at h
    · rename_i r
      simp only [Option.bind_eq_bind, Option.bind_eq_some_iff] at h
      obtain ⟨⟨n, r₁, hr₁⟩, hq, h⟩ := h
      dsimp only at h
      split at h
      · rename_i hhigh
        obtain ⟨⟨low, r₂, hr₂⟩, hs, h⟩ := Option.bind_eq_some_iff.mp h
        simp only [Option.some.injEq, Prod.mk.injEq, Subtype.mk.injEq] at h
        obtain ⟨rfl, rfl⟩ := h
        exact .inr (.inr ⟨r, r₁, n, low, rfl, ⟨hr₁, hq⟩, hhigh, ⟨hr₂, hs⟩, rfl⟩)
      · rename_i hhigh
        split at h
        · cases h
        · rename_i hlow
          simp only [Option.some.injEq, Prod.mk.injEq, Subtype.mk.injEq] at h
          obtain ⟨rfl, rfl⟩ := h
          exact .inr (.inl ⟨r, n, rfl, ⟨hr₁, hq⟩, by omega, rfl⟩)
    · rename_i c r hu
      obtain ⟨x', hx, h⟩ := Option.map_eq_some_iff.mp h
      cases h
      exact .inl ⟨c, fun hc => hu hc, rfl, hx⟩
    · cases h
  · rintro (⟨c, hc, rfl, hx⟩ | ⟨r, n, rfl, ⟨hlt, hq⟩, hn, rfl⟩ | ⟨r, r₁, n, low, rfl, ⟨hlt, hq⟩, hn, ⟨hlt', hs⟩, rfl⟩)
    · refine ⟨by simp, ?_⟩
      rw [escaped, hx]
      · rfl
      · exact fun h => hc h
    · refine ⟨by simp only [List.length_cons]; omega, ?_⟩
      rw [escaped, hq]
      simp only [Option.bind_eq_bind, Option.bind_some]
      rw [if_neg (by omega), if_neg (by omega)]
    · refine ⟨by simp only [List.length_cons]; omega, ?_⟩
      rw [escaped, hq]
      simp only [Option.bind_eq_bind, Option.bind_some, if_pos hn, hs]

theorem Reads.escaped_append {s rest : List Char} {x : Char} (h : Reads escaped s x rest) (t : List Char) :
    Reads escaped (s ++ t) x (rest ++ t) := by
  rcases reads_escaped_iff.mp h with ⟨c, hc, rfl, hx⟩ | ⟨r, n, rfl, hq, hn⟩ | ⟨r, r₁, n, low, rfl, hq, hn, hs, hx⟩
  · exact reads_escaped_iff.mpr (.inl ⟨c, hc, rfl, hx⟩)
  · exact reads_escaped_iff.mpr (.inr (.inl ⟨r ++ t, n, rfl, hq.hexQuad_append t, hn⟩))
  · exact reads_escaped_iff.mpr
      (.inr (.inr ⟨r ++ t, r₁ ++ t, n, low, rfl, hq.hexQuad_append t, hn, hs.lowSurrogate_append t, hx⟩))

/-- The inside of a string ends with a quote, or goes on with an escape or with a character that
stands for itself. -/
theorem reads_stringBody_iff {s rest : List Char} {xs : List Char} : Reads stringBody s xs rest ↔
    (s = '"' :: rest ∧ xs = []) ∨
    (∃ r x r₁ ys, s = '\\' :: r ∧ Reads escaped r x r₁ ∧ Reads stringBody r₁ ys rest ∧ xs = x :: ys) ∨
    ∃ c r ys, s = c :: r ∧ (c ≠ '"' ∧ c ≠ '\\' ∧ ¬ c.toNat < 0x20) ∧ Reads stringBody r ys rest ∧ xs = c :: ys := by
  constructor
  · rintro ⟨hlt, h⟩
    cases s with
    | nil => cases hlt
    | cons c r =>
      rw [stringBody] at h
      split at h
      · rename_i hc
        cases h
        exact .inl ⟨by rw [hc], rfl⟩
      · rename_i hquote
        split at h
        · rename_i hc
          obtain ⟨⟨x, r₁, hr₁⟩, he, h⟩ := Option.bind_eq_some_iff.mp h
          obtain ⟨⟨ys, r₂, hr₂⟩, hys, h⟩ := Option.bind_eq_some_iff.mp h
          cases h
          exact .inr (.inl ⟨r, x, r₁, ys, by rw [hc], ⟨hr₁, he⟩, ⟨hr₂, hys⟩, rfl⟩)
        · rename_i hback
          split at h
          · cases h
          · rename_i hctrl
            obtain ⟨⟨ys, r₂, hr₂⟩, hys, h⟩ := Option.bind_eq_some_iff.mp h
            cases h
            exact .inr (.inr ⟨c, r, ys, rfl, ⟨hquote, hback, hctrl⟩, ⟨hr₂, hys⟩, rfl⟩)
  · rintro (⟨rfl, rfl⟩ | ⟨r, x, r₁, ys, rfl, ⟨hr₁, he⟩, ⟨hr₂, hys⟩, rfl⟩ |
      ⟨c, r, ys, rfl, ⟨hquote, hback, hctrl⟩, ⟨hr₂, hys⟩, rfl⟩)
    · refine ⟨by simp, ?_⟩
      rw [stringBody, if_pos rfl]
    · refine ⟨by simp only [List.length_cons]; omega, ?_⟩
      rw [stringBody, if_neg (by decide), if_pos rfl, he]
      simp only [Option.bind_eq_bind, Option.bind_some, hys]
    · refine ⟨by simp only [List.length_cons]; omega, ?_⟩
      rw [stringBody, if_neg hquote, if_neg hback, if_neg hctrl, hys]
      rfl

theorem Reads.stringBody_append {s rest xs : List Char} (h : Reads stringBody s xs rest) (t : List Char) :
    Reads stringBody (s ++ t) xs (rest ++ t) := by
  rcases reads_stringBody_iff.mp h with ⟨rfl, rfl⟩ | ⟨r, x, r₁, ys, rfl, he, hys, rfl⟩ | ⟨c, r, ys, rfl, hc, hys, rfl⟩
  · exact reads_stringBody_iff.mpr (.inl ⟨rfl, rfl⟩)
  · have : r₁.length < ('\\' :: r).length := Nat.lt_succ_of_lt he.length_lt
    exact reads_stringBody_iff.mpr
      (.inr (.inl ⟨r ++ t, x, r₁ ++ t, ys, rfl, he.escaped_append t, hys.stringBody_append t, rfl⟩))
  · exact reads_stringBody_iff.mpr (.inr (.inr ⟨c, r ++ t, ys, rfl, hc, hys.stringBody_append t, rfl⟩))
termination_by s.length

theorem reads_string_iff {s rest : List Char} {text : String} : Reads string s text rest ↔
    ∃ r cs, s = '"' :: r ∧ Reads stringBody r cs rest ∧ text = String.ofList cs := by
  constructor
  · rintro ⟨hlt, h⟩
    unfold string at h
    split at h
    · rename_i r
      obtain ⟨⟨cs, r₁, hr₁⟩, hcs, h⟩ := Option.bind_eq_some_iff.mp h
      cases h
      exact ⟨r, cs, rfl, ⟨hr₁, hcs⟩, rfl⟩
    · cases h
  · rintro ⟨r, cs, rfl, ⟨hr₁, hcs⟩, rfl⟩
    refine ⟨by simp only [List.length_cons]; omega, ?_⟩
    rw [string, hcs]
    rfl

theorem Reads.string_append {s rest : List Char} {text : String} (h : Reads string s text rest) (t : List Char) :
    Reads string (s ++ t) text (rest ++ t) := by
  obtain ⟨r, cs, rfl, hcs, htext⟩ := reads_string_iff.mp h
  exact reads_string_iff.mpr ⟨r ++ t, cs, rfl, hcs.stringBody_append t, htext⟩

/-! ## Numbers -/

/-- The text does not go on with a character of numbers. -/
def Settled (s : List Char) : Prop := ∀ c ∈ s.head?, isNumberChar c = false

theorem settled_cons {c : Char} (h : isNumberChar c = false) (r : List Char) : Settled (c :: r) :=
  fun _ hd => Option.some.inj hd ▸ h

/-- The number of a text is the numeral that the text spells, unless this has a leading zero. -/
theorem numeral?_eq_some {v : Bytes} {n : Numeral} : numeral? v = some n ↔
    ∃ m : Numeral, v = m.spelling ∧ hasLeadingZero m = false ∧ n = m.withSignedExponent := by
  constructor
  · intro h
    obtain ⟨m, hm, h⟩ := Option.bind_eq_some_iff.mp h
    split at h
    · cases h
    · rename_i hz
      cases h
      exact ⟨m, (spelling_of_parse? hm).symm, Bool.of_not_eq_true hz, rfl⟩
  · rintro ⟨m, rfl, hz, rfl⟩
    rw [numeral?, parse?_spelling]
    show (if hasLeadingZero m = true then none else _) = _
    rw [hz, if_neg Bool.false_ne_true]

theorem isNumberChar_of_mem_spelling {n : Numeral} {b : UInt8} (h : b ∈ n.spelling) :
    isNumberChar (Char.ofNat b.toNat) = true := by
  have hdigit : ∀ d : Digit, isNumberChar (Char.ofNat d.byte.toNat) = true := by decide
  rcases mem_spelling h with ⟨d, rfl⟩ | h
  · exact hdigit d
  · simp only [List.mem_cons, List.not_mem_nil, or_false] at h
    rcases h with rfl | rfl | rfl | rfl | rfl <;> decide

theorem text_toList (n : Numeral) : n.text.toList = n.spelling.map fun b => Char.ofNat b.toNat :=
  String.toList_ofList

theorem isNumberChar_of_mem_text {n : Numeral} {c : Char} (h : c ∈ n.text.toList) : isNumberChar c = true := by
  rw [text_toList] at h
  obtain ⟨b, hb, rfl⟩ := List.mem_map.mp h
  exact isNumberChar_of_mem_spelling hb

theorem numberChars_append {cs t : List Char} (hcs : ∀ c ∈ cs, isNumberChar c = true) (ht : Settled t) :
    numberChars (cs ++ t) = cs ∧ afterNumber (cs ++ t) = t := by
  induction cs with
  | nil =>
    cases t with
    | nil => exact ⟨rfl, rfl⟩
    | cons c t =>
      have hc : isNumberChar c = false := ht c rfl
      rw [List.nil_append, numberChars, afterNumber, hc]
      exact ⟨rfl, rfl⟩
  | cons c cs ih =>
    obtain ⟨hc, hcs⟩ := List.forall_mem_cons.mp hcs
    obtain ⟨h₁, h₂⟩ := ih hcs
    rw [List.cons_append, numberChars, afterNumber, if_pos hc, if_pos hc, h₁, h₂]
    exact ⟨rfl, rfl⟩

theorem numberChars_append_afterNumber : ∀ s : List Char,
    numberChars s ++ afterNumber s = s ∧ Settled (afterNumber s)
  | [] => ⟨rfl, fun _ h => nomatch h⟩
  | c :: r => by
    obtain ⟨h₁, h₂⟩ := numberChars_append_afterNumber r
    rw [numberChars, afterNumber]
    split
    · exact ⟨congrArg (List.cons c) h₁, h₂⟩
    · rename_i hc
      refine ⟨rfl, fun d hd => ?_⟩
      cases hd
      exact Bool.of_not_eq_true hc

theorem text_toList_ne_nil (n : Numeral) : n.text.toList ≠ [] := by
  obtain ⟨b, v, h, -⟩ := n.spelling_head
  rw [text_toList, h]
  exact List.cons_ne_nil _ _

/-- A number goes as far as there are characters of numbers. -/
theorem reads_number_iff {s rest : List Char} {n : Numeral} : Reads number s n rest ↔
    Settled rest ∧ ∃ m : Numeral, s = m.text.toList ++ rest ∧ hasLeadingZero m = false ∧ n = m.withSignedExponent := by
  constructor
  · rintro ⟨hlt, h⟩
    cases s with
    | nil => cases hlt
    | cons c r =>
      rw [number] at h
      split at h
      · rename_i hc
        obtain ⟨n', hn, h⟩ := Option.bind_eq_some_iff.mp h
        cases h
        obtain ⟨m, hm, hz, rfl⟩ := numeral?_eq_some.mp hn
        obtain ⟨hsplit, hsettled⟩ := numberChars_append_afterNumber r
        refine ⟨hsettled, m, ?_, hz, rfl⟩
        rw [← ofString_text] at hm
        rw [← Bytes.ofString_inj.mp hm, String.toList_ofList, List.cons_append, hsplit]
      · cases h
  · rintro ⟨hsettled, m, rfl, hz, rfl⟩
    -- A numeral's text is not empty and has only characters of numbers, so the reader takes all of it.
    have hchars := fun c (hc : c ∈ m.text.toList) => isNumberChar_of_mem_text hc
    have hne := text_toList_ne_nil m
    have htext := m.ofString_text
    rw [← m.text.ofList_toList] at htext
    generalize m.text.toList = cs at hchars hne htext ⊢
    cases cs with
    | nil => exact absurd rfl hne
    | cons c cs =>
      obtain ⟨hc, hcs⟩ := List.forall_mem_cons.mp hchars
      obtain ⟨h₁, h₂⟩ := numberChars_append hcs hsettled
      show Reads number (c :: (cs ++ rest)) _ _
      refine ⟨by simp only [List.length_append, List.length_cons]; omega, ?_⟩
      rw [number, if_pos hc]
      simp only [h₁, h₂, htext, numeral?_eq_some.mpr ⟨m, rfl, hz, rfl⟩, Option.bind_eq_bind, Option.bind_some]

/-! ## Items and members -/

/-- The text does not begin with a blank. -/
def Unblank (s : List Char) : Prop := ∀ c ∈ s.head?, isBlank c = false

theorem Unblank.skipBlanks_eq {s : List Char} (h : Unblank s) : skipBlanks s = s := by
  cases s with
  | nil => rfl
  | cons c r => rw [skipBlanks, h c rfl, if_neg Bool.false_ne_true]

theorem unblank_cons {c : Char} (h : isBlank c = false) (r : List Char) : Unblank (c :: r) :=
  fun _ hd => Option.some.inj hd ▸ h

section

variable {α : Type} {item : Reader α} {close : Char} {s rest : List Char}

/-- After an item there is the closing character, or a comma and more items. -/
theorem reads_separated_iff (hclose : close ≠ ',') {xs : List α} : Reads (separated item close) s xs rest ↔
    ∃ x r₁, Reads item (skipBlanks s) x r₁ ∧ ((skipBlanks r₁ = close :: rest ∧ xs = [x]) ∨
      ∃ r ys, skipBlanks r₁ = ',' :: r ∧ Reads (separated item close) r ys rest ∧ xs = x :: ys) := by
  constructor
  · rintro ⟨hlt, h⟩
    rw [separated] at h
    obtain ⟨⟨x, r₁, hr₁⟩, hx, h⟩ := Option.bind_eq_some_iff.mp h
    dsimp only at h
    split at h
    · cases h
    · rename_i c r hr
      split at h
      · rename_i hc
        obtain ⟨⟨ys, r₂, hr₂⟩, hys, h⟩ := Option.bind_eq_some_iff.mp h
        cases h
        exact ⟨x, r₁, ⟨hr₁, hx⟩, .inr ⟨r, ys, hc ▸ hr, ⟨hr₂, hys⟩, rfl⟩⟩
      · split at h
        · rename_i hc
          cases h
          exact ⟨x, r₁, ⟨hr₁, hx⟩, .inl ⟨hc ▸ hr, rfl⟩⟩
        · cases h
  · rintro ⟨x, r₁, ⟨hr₁, hx⟩, hafter⟩
    have hlen := length_skipBlanks_le s
    have hlen₁ := length_skipBlanks_le r₁
    rcases hafter with ⟨hr, rfl⟩ | ⟨r, ys, hr, ⟨hr₂, hys⟩, rfl⟩
    · rw [hr, List.length_cons] at hlen₁
      refine ⟨by omega, ?_⟩
      rw [separated, hx]
      simp only [Option.bind_eq_bind, Option.bind_some]
      split
      · rename_i hnil
        rw [hr] at hnil
        cases hnil
      · rename_i c r hcons
        rw [hr] at hcons
        cases hcons
        rw [if_neg hclose, if_pos rfl]
    · rw [hr, List.length_cons] at hlen₁
      refine ⟨by omega, ?_⟩
      rw [separated, hx]
      simp only [Option.bind_eq_bind, Option.bind_some]
      split
      · rename_i hnil
        rw [hr] at hnil
        cases hnil
      · rename_i c r hcons
        rw [hr] at hcons
        cases hcons
        rw [if_pos rfl, hys]
        rfl

/-- Between the opening and the closing character there are blanks only, or items. -/
theorem reads_enclosed_iff {xs : List α} : Reads (enclosed item close) s xs rest ↔
    (skipBlanks s = close :: rest ∧ xs = []) ∨
      ((∀ r, skipBlanks s ≠ close :: r) ∧ Reads (separated item close) s xs rest) := by
  constructor
  · rintro ⟨hlt, h⟩
    unfold enclosed at h
    split at h
    · cases h
    · rename_i c r hr
      split at h
      · rename_i hc
        cases h
        exact .inl ⟨hc ▸ hr, rfl⟩
      · rename_i hc
        exact .inr ⟨fun r' h' => hc (List.cons.inj (hr.symm.trans h')).1, hlt, h⟩
  · rintro (⟨hr, rfl⟩ | ⟨hr, hlt, h⟩)
    · have hlen := length_skipBlanks_le s
      rw [hr, List.length_cons] at hlen
      refine ⟨by omega, ?_⟩
      unfold enclosed
      split
      · rename_i hnil
        rw [hr] at hnil
        cases hnil
      · rename_i c r hcons
        rw [hr] at hcons
        cases hcons
        rw [if_pos rfl]
    · refine ⟨hlt, ?_⟩
      unfold enclosed
      split
      · -- No item can be read from nothing.
        rename_i hnil
        rw [separated] at h
        obtain ⟨⟨x, r₁, hr₁⟩, _⟩ := Option.bind_eq_some_iff.mp h
        rw [hnil] at hr₁
        cases hr₁
      · rename_i c r hcons
        rw [if_neg fun hc : c = close => hr r (hc ▸ hcons)]
        exact h

theorem reads_member_iff {value : Reader Json} {key : String} {j : Json} :
    Reads (member value) s (key, j) rest ↔ ∃ r₁ r, Reads string s key r₁ ∧ skipBlanks r₁ = ':' :: r ∧
      Reads value (skipBlanks r) j rest := by
  constructor
  · rintro ⟨hlt, h⟩
    obtain ⟨⟨key', r₁, hr₁⟩, hkey, h⟩ := Option.bind_eq_some_iff.mp h
    dsimp only at h
    split at h
    · rename_i r hr
      obtain ⟨⟨j', r₂, hr₂⟩, hj, h⟩ := Option.bind_eq_some_iff.mp h
      cases h
      exact ⟨r₁, r, ⟨hr₁, hkey⟩, hr, hr₂, hj⟩
    · cases h
  · rintro ⟨r₁, r, ⟨hr₁, hkey⟩, hr, hr₂, hj⟩
    have hlen := length_skipBlanks_le r
    have hlen₁ := length_skipBlanks_le r₁
    rw [hr, List.length_cons] at hlen₁
    refine ⟨by omega, ?_⟩
    rw [member, hkey]
    simp only [Option.bind_eq_bind, Option.bind_some]
    split
    · rename_i r' hcons
      rw [hr] at hcons
      cases hcons
      rw [hj]
      rfl
    · rename_i hne
      exact absurd hr (hne r)

end

/-! ## Values -/

/-- How a value is read inside of which `d` containers may be open. -/
inductive ReadsValue : (d : Nat) → List Char → Json → List Char → Prop
  | null {d : Nat} {rest : List Char} : ReadsValue d ("null".toList ++ rest) null rest
  | true {d : Nat} {rest : List Char} : ReadsValue d ("true".toList ++ rest) (bool true) rest
  | false {d : Nat} {rest : List Char} : ReadsValue d ("false".toList ++ rest) (bool false) rest
  | str {d : Nat} {s rest : List Char} {text : String} (h : Reads string s text rest) : ReadsValue d s (str text) rest
  | num {d : Nat} {s rest : List Char} {n : Numeral} (h : Reads number s n rest) : ReadsValue d s (num n) rest
  | arr {d : Nat} {s rest : List Char} {js : List Json} (h : Reads (enclosed (value d) ']') s js rest) :
    ReadsValue (d + 1) ('[' :: s) (arr js) rest
  | obj {d : Nat} {s rest : List Char} {ms : List (String × Json)}
    (h : Reads (enclosed (member (value d)) '\x7d') s ms rest) : ReadsValue (d + 1) ('\x7b' :: s) (obj ms) rest

theorem word_eq_some {w s r rest : List Char} {j x : Json} {h : r.length < s.length} {hlt : rest.length < s.length} :
    word w j s r h = some (x, ⟨rest, hlt⟩) ↔ r = w ++ rest ∧ x = j := by
  rw [word]
  constructor
  · intro hw
    split at hw
    · rename_i hp
      cases hw
      exact ⟨(List.prefix_iff_eq_append.mp (List.isPrefixOf_iff_prefix.mp hp)).symm, rfl⟩
    · cases hw
  · rintro ⟨rfl, rfl⟩
    rw [if_pos (List.isPrefixOf_iff_prefix.mpr (List.prefix_append _ _))]
    simp only [List.drop_left]

/-- A number begins with none of the characters that begin other values. -/
theorem number_head {s rest : List Char} {n : Numeral} (h : Reads number s n rest) : ∃ c r, s = c :: r ∧
    isNumberChar c = true ∧ isBlank c = false ∧ c ≠ 'n' ∧ c ≠ 't' ∧ c ≠ 'f' ∧ c ≠ '"' ∧ c ≠ '[' ∧ c ≠ '\x7b' := by
  obtain ⟨hlt, h⟩ := h
  cases s with
  | nil => cases hlt
  | cons c r =>
    rw [number] at h
    split at h
    · rename_i hc
      refine ⟨c, r, rfl, hc, ?_⟩
      refine ⟨Bool.of_not_eq_true fun hb => ?_, ?_, ?_, ?_, ?_, ?_, ?_⟩
      · simp only [isBlank, Bool.or_eq_true, beq_iff_eq] at hb
        rcases hb with ((rfl | rfl) | rfl) | rfl <;> exact absurd hc (by decide)
      all_goals
        rintro rfl
        exact absurd hc (by decide)
    · cases h

/-- The first character says what value is read. -/
theorem readsValue_of_reads {d : Nat} {s rest : List Char} {j : Json} (h : Reads (value d) s j rest) :
    ReadsValue d s j rest := by
  obtain ⟨hlt, h⟩ := h
  cases s with
  | nil => cases hlt
  | cons c r =>
    unfold value at h
    dsimp only at h
    -- The tests on the first character, in the order in which the reader makes them.
    split at h
    · rename_i hc
      obtain ⟨rfl, rfl⟩ := word_eq_some.mp h
      exact hc ▸ .null
    split at h
    · rename_i hc
      obtain ⟨rfl, rfl⟩ := word_eq_some.mp h
      exact hc ▸ .true
    split at h
    · rename_i hc
      obtain ⟨rfl, rfl⟩ := word_eq_some.mp h
      exact hc ▸ .false
    split at h
    · obtain ⟨⟨text, r₁, hr₁⟩, hs, h⟩ := Option.map_eq_some_iff.mp h
      cases h
      exact .str ⟨hr₁, hs⟩
    split at h
    · rename_i hc
      split at h
      · cases h
      · obtain ⟨⟨js, r₁, hr₁⟩, hs, h⟩ := Option.map_eq_some_iff.mp h
        cases h
        exact hc ▸ .arr ⟨hr₁, hs⟩
    split at h
    · rename_i hc
      split at h
      · cases h
      · obtain ⟨⟨ms, r₁, hr₁⟩, hs, h⟩ := Option.map_eq_some_iff.mp h
        cases h
        exact hc ▸ .obj ⟨hr₁, hs⟩
    · obtain ⟨⟨n, r₁, hr₁⟩, hs, h⟩ := Option.map_eq_some_iff.mp h
      cases h
      exact .num ⟨hr₁, hs⟩

theorem ReadsValue.reads {d : Nat} {s rest : List Char} {j : Json} (h : ReadsValue d s j rest) :
    Reads (value d) s j rest := by
  cases h with
  | null =>
    show Reads (value d) ('n' :: (['u', 'l', 'l'] ++ rest)) _ rest
    refine ⟨by simp only [List.length_cons, List.length_append]; omega, ?_⟩
    unfold value
    dsimp only
    rw [if_pos rfl]
    exact word_eq_some.mpr ⟨rfl, rfl⟩
  | true =>
    show Reads (value d) ('t' :: (['r', 'u', 'e'] ++ rest)) _ rest
    refine ⟨by simp only [List.length_cons, List.length_append]; omega, ?_⟩
    unfold value
    dsimp only
    rw [if_neg (by decide), if_pos rfl]
    exact word_eq_some.mpr ⟨rfl, rfl⟩
  | false =>
    show Reads (value d) ('f' :: (['a', 'l', 's', 'e'] ++ rest)) _ rest
    refine ⟨by simp only [List.length_cons, List.length_append]; omega, ?_⟩
    unfold value
    dsimp only
    rw [if_neg (by decide), if_neg (by decide), if_pos rfl]
    exact word_eq_some.mpr ⟨rfl, rfl⟩
  | str h =>
    obtain ⟨r, cs, rfl, -⟩ := reads_string_iff.mp h
    obtain ⟨hlt, h⟩ := h
    refine ⟨hlt, ?_⟩
    unfold value
    dsimp only
    rw [if_neg (by decide), if_neg (by decide), if_neg (by decide), if_pos rfl, h]
    rfl
  | num h =>
    obtain ⟨c, r, rfl, -, -, hn, ht, hf, hs, ha, ho⟩ := number_head h
    obtain ⟨hlt, h⟩ := h
    refine ⟨hlt, ?_⟩
    unfold value
    dsimp only
    rw [if_neg hn, if_neg ht, if_neg hf, if_neg hs, if_neg ha, if_neg ho, h]
    rfl
  | arr h =>
    obtain ⟨hlt, h⟩ := h
    refine ⟨Nat.lt_succ_of_lt hlt, ?_⟩
    unfold value
    dsimp only
    rw [if_neg (by decide), if_neg (by decide), if_neg (by decide), if_neg (by decide), if_pos rfl, h]
    rfl
  | obj h =>
    obtain ⟨hlt, h⟩ := h
    refine ⟨Nat.lt_succ_of_lt hlt, ?_⟩
    unfold value
    dsimp only
    rw [if_neg (by decide), if_neg (by decide), if_neg (by decide), if_neg (by decide), if_neg (by decide),
      if_pos rfl, h]
    rfl

theorem reads_value_iff {d : Nat} {s rest : List Char} {j : Json} :
    Reads (value d) s j rest ↔ ReadsValue d s j rest :=
  ⟨readsValue_of_reads, ReadsValue.reads⟩

theorem Reads.unblank_value {d : Nat} {s rest : List Char} {j : Json} (h : Reads (value d) s j rest) : Unblank s := by
  cases reads_value_iff.mp h with
  | null | true | false => exact unblank_cons (by decide) _
  | str h =>
    obtain ⟨r, cs, rfl, -⟩ := reads_string_iff.mp h
    exact unblank_cons (by decide) _
  | num h =>
    obtain ⟨c, r, rfl, -, hb, -⟩ := number_head h
    exact unblank_cons hb _
  | arr _ | obj _ => exact unblank_cons (by decide) _

end Json

end EventMatch
