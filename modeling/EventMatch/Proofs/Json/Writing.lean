import EventMatch.Json.Printer
import EventMatch.Proofs.Json.Keys
import EventMatch.Proofs.Json.Reading

/-!
# Reading back what was written

A value that nests few enough containers, and whose numbers are spelled as they are read, is read back from
its compact text (`reads_render`, `asWrittenBytes?_text`); every value that was parsed is such a value
(`writable_of_parse?`).
-/

namespace EventMatch.Json

open Numeral

/-! ## Strings -/

theorem hexDigit?_hexChar (n : Nat) : hexDigit? (hexChar n) = some (n % 16) := by
  have h : ∀ d < 16, hexDigit? (Nat.digitChar d) = some d := by decide
  exact h _ (Nat.mod_lt n (by decide))

/-- What is written of a character inside a string is read as the character. -/
theorem reads_stringBody_escapedChar (c : Char) {s rest xs : List Char} (h : Reads stringBody s xs rest) :
    Reads stringBody (escapedChar c ++ s) (c :: xs) rest := by
  have hshort : ∀ e x : Char, e ≠ 'u' → escape? e = some x → Reads stringBody ('\\' :: e :: s) (x :: xs) rest :=
    fun e x hu he => reads_stringBody_iff.mpr
      (.inr (.inl ⟨_, x, s, xs, rfl, reads_escaped_iff.mpr (.inl ⟨e, hu, rfl, he⟩), h, rfl⟩))
  unfold escapedChar
  split
  case h_8 =>
    rename_i hquote hback _ _ _ _ _
    split
    · rename_i hlt
      have hq : Reads hexQuad ('0' :: '0' :: hexChar (c.toNat / 16) :: hexChar c.toNat :: s) c.toNat s := by
        refine reads_hexQuad_iff.mpr
          ⟨_, _, _, _, 0, 0, _, _, rfl, rfl, rfl, hexDigit?_hexChar _, hexDigit?_hexChar _, ?_⟩
        omega
      refine reads_stringBody_iff.mpr (.inr (.inl ⟨_, c, s, xs, rfl, reads_escaped_iff.mpr ?_, h, rfl⟩))
      exact .inr (.inl ⟨_, c.toNat, rfl, hq, .inl (by omega), c.ofNat_toNat.symm⟩)
    · rename_i hlt
      exact reads_stringBody_iff.mpr (.inr (.inr ⟨c, s, xs, rfl, ⟨hquote, hback, hlt⟩, h, rfl⟩))
  all_goals exact hshort _ _ (by decide) rfl

theorem reads_renderString (text : String) (t : List Char) : Reads string (renderString text ++ t) text t := by
  have hbody : ∀ cs : List Char, Reads stringBody (cs.flatMap escapedChar ++ '"' :: t) cs t := by
    intro cs
    induction cs with
    | nil => exact reads_stringBody_iff.mpr (.inl ⟨rfl, rfl⟩)
    | cons c cs ih =>
      rw [List.flatMap_cons, List.append_assoc]
      exact reads_stringBody_escapedChar c ih
  refine reads_string_iff.mpr ⟨_, text.toList, ?_, hbody _, String.ofList_toList.symm⟩
  rw [renderString, List.cons_append, List.cons_append, List.append_assoc, List.singleton_append]

/-! ## Values -/

mutual

/-- The value nests at most `d` containers, and its numbers are spelled as they are read. -/
def Writable : (d : Nat) → Json → Prop
  | _, num n => numeral? n.spelling = some n
  | d, arr items => ∃ e, d = e + 1 ∧ WritableItems e items
  | d, obj members => ∃ e, d = e + 1 ∧ WritableMembers e members
  | _, _ => True

/-- Every item nests at most `d` containers. -/
def WritableItems : (d : Nat) → List Json → Prop
  | _, [] => True
  | d, j :: js => Writable d j ∧ WritableItems d js

/-- Every member's value nests at most `d` containers. -/
def WritableMembers : (d : Nat) → List (String × Json) → Prop
  | _, [] => True
  | d, (_, j) :: ms => Writable d j ∧ WritableMembers d ms

end

section

variable {α : Type} {item : Reader α} {close : Char} {s t : List Char} {x : α} {xs : List α}

theorem reads_separated_singleton (hclose : close ≠ ',') (hs : Unblank s) (hc : isBlank close = false)
    (hx : Reads item s x (close :: t)) : Reads (separated item close) s [x] t :=
  (reads_separated_iff hclose).mpr
    ⟨x, _, hs.skipBlanks_eq.symm ▸ hx, .inl ⟨(unblank_cons hc t).skipBlanks_eq, rfl⟩⟩

theorem reads_separated_cons (hclose : close ≠ ',') {r : List Char} (hs : Unblank s) (hx : Reads item s x (',' :: r))
    (hxs : Reads (separated item close) r xs t) : Reads (separated item close) s (x :: xs) t :=
  (reads_separated_iff hclose).mpr ⟨x, _, hs.skipBlanks_eq.symm ▸ hx, .inr ⟨r, xs, rfl, hxs, rfl⟩⟩

end

/-- If no item begins with the closing character, items are read also where there may be none. -/
theorem Reads.enclosed {α : Type} {item : Reader α} {close : Char} {s t : List Char} {xs : List α}
    (h : Reads (separated item close) s xs t) (hclose : close ≠ ',')
    (hitem : ∀ r x r₁, ¬ Reads item (close :: r) x r₁) : Reads (Json.enclosed item close) s xs t := by
  refine reads_enclosed_iff.mpr (.inr ⟨fun r hr => ?_, h⟩)
  obtain ⟨x, r₁, hx, -⟩ := (reads_separated_iff hclose).mp h
  rw [hr] at hx
  exact hitem r x r₁ hx

theorem not_reads_value_bracket {d : Nat} {r r₁ : List Char} {j : Json} : ¬ Reads (value d) (']' :: r) j r₁ := by
  intro h
  generalize hs : ']' :: r = s at h
  cases reads_value_iff.mp h with
  | null | true | false | arr _ | obj _ => exact absurd (List.cons.inj hs).1 (by decide)
  | str h =>
    obtain ⟨_, _, rfl, -⟩ := reads_string_iff.mp h
    exact absurd (List.cons.inj hs).1 (by decide)
  | num h =>
    obtain ⟨c, _, rfl, hc, -⟩ := number_head h
    obtain rfl := (List.cons.inj hs).1
    exact absurd hc (by decide)

theorem not_reads_member_brace {v : Reader Json} {r r₁ : List Char} {m : String × Json} :
    ¬ Reads (member v) ('\x7d' :: r) m r₁ := by
  intro h
  obtain ⟨_, _, hkey, -⟩ := reads_member_iff.mp h
  obtain ⟨_, _, hs, -⟩ := reads_string_iff.mp hkey
  exact absurd (List.cons.inj hs).1 (by decide)

theorem reads_renderMember {v : Reader Json} (key : String) {j : Json} {s t : List Char} (hs : Unblank s)
    (h : Reads v s j t) : Reads (member v) (renderString key ++ ':' :: s) (key, j) t :=
  reads_member_iff.mpr ⟨_, s, reads_renderString key _, rfl, hs.skipBlanks_eq.symm ▸ h⟩

theorem renderItems_cons_cons (j k : Json) (js : List Json) :
    renderItems (j :: k :: js) = j.render ++ ',' :: renderItems (k :: js) := by
  rw [renderItems]
  exact fun h => nomatch h

theorem renderMembers_cons_cons (key : String) (j : Json) (m : String × Json) (ms : List (String × Json)) :
    renderMembers ((key, j) :: m :: ms) = renderString key ++ ':' :: (j.render ++ ',' :: renderMembers (m :: ms)) := by
  rw [renderMembers]
  · simp
  · exact fun h => nomatch h

mutual

/-- What is written of a value is read as the value, if nothing follows that could go on a number. -/
theorem reads_render : ∀ {j : Json} {d : Nat} {t : List Char}, j.Writable d → Settled t →
    Reads (value d) (j.render ++ t) j t
  | .null, _, _, _, _ => reads_value_iff.mpr .null
  | .bool true, _, _, _, _ => reads_value_iff.mpr .true
  | .bool false, _, _, _, _ => reads_value_iff.mpr .false
  | .str text, _, t, _, _ => reads_value_iff.mpr (.str (reads_renderString text t))
  | .num n, _, t, h, ht => by
    obtain ⟨m, hm, hz, hn⟩ := numeral?_eq_some.mp h
    obtain rfl := spelling_inj hm
    exact reads_value_iff.mpr (.num (reads_number_iff.mpr ⟨ht, n, rfl, hz, hn⟩))
  | .arr items, _, t, h, ht => by
    obtain ⟨e, rfl, h⟩ := h
    rw [render, List.cons_append, List.cons_append, List.append_assoc]
    refine reads_value_iff.mpr (.arr ?_)
    rcases eq_or_ne items [] with hnil | hne
    · rw [hnil]
      exact reads_enclosed_iff.mpr (.inl ⟨rfl, rfl⟩)
    · exact (reads_renderItems hne t h).enclosed (by decide) fun _ _ _ => not_reads_value_bracket
  | .obj members, _, t, h, ht => by
    obtain ⟨e, rfl, h⟩ := h
    rw [render, List.cons_append, List.cons_append, List.append_assoc]
    refine reads_value_iff.mpr (.obj ?_)
    rcases eq_or_ne members [] with hnil | hne
    · rw [hnil]
      exact reads_enclosed_iff.mpr (.inl ⟨rfl, rfl⟩)
    · exact (reads_renderMembers hne t h).enclosed (by decide) fun _ _ _ => not_reads_member_brace

theorem reads_renderItems : ∀ {js : List Json} {d : Nat}, js ≠ [] → ∀ t : List Char, WritableItems d js →
    Reads (separated (value d) ']') (renderItems js ++ ']' :: t) js t
  | [], _, hne, _, _ => absurd rfl hne
  | [j], d, _, t, h => by
    have hj := reads_render h.1 (settled_cons (show isNumberChar ']' = false by decide) t)
    exact reads_separated_singleton (by decide) hj.unblank_value (by decide) hj
  | j :: k :: js, d, _, t, h => by
    have hjs := reads_renderItems (List.cons_ne_nil k js) t h.2
    have hj := reads_render h.1
      (settled_cons (show isNumberChar ',' = false by decide) (renderItems (k :: js) ++ ']' :: t))
    rw [renderItems_cons_cons, List.append_assoc]
    exact reads_separated_cons (by decide) hj.unblank_value hj hjs

theorem reads_renderMembers : ∀ {ms : List (String × Json)} {d : Nat}, ms ≠ [] → ∀ t : List Char,
    WritableMembers d ms →
    Reads (separated (member (value d)) '\x7d') (renderMembers ms ++ '\x7d' :: t) ms t
  | [], _, hne, _, _ => absurd rfl hne
  | [(key, j)], d, _, t, h => by
    have hj := reads_render h.1 (settled_cons (show isNumberChar '\x7d' = false by decide) t)
    have hm := reads_renderMember key hj.unblank_value hj
    rw [renderMembers, List.append_assoc]
    exact reads_separated_singleton (by decide) (unblank_cons (by decide) _) (by decide) hm
  | (key, j) :: m :: ms, d, _, t, h => by
    have hms := reads_renderMembers (List.cons_ne_nil m ms) t h.2
    have hj := reads_render h.1
      (settled_cons (show isNumberChar ',' = false by decide) (renderMembers (m :: ms) ++ '\x7d' :: t))
    have hm := reads_renderMember key hj.unblank_value hj
    rw [renderMembers_cons_cons, List.append_assoc, List.cons_append, List.append_assoc]
    exact reads_separated_cons (by decide) (unblank_cons (by decide) _) hm hms

end

/-! ## Parsed values -/

theorem writableItems_iff {d : Nat} : ∀ {js : List Json}, WritableItems d js ↔ ∀ j ∈ js, j.Writable d
  | [] => iff_of_true trivial fun _ h => absurd h List.not_mem_nil
  | j :: js => by rw [WritableItems, writableItems_iff, List.forall_mem_cons]

theorem writableMembers_iff {d : Nat} : ∀ {ms : List (String × Json)}, WritableMembers d ms ↔ ∀ m ∈ ms, m.2.Writable d
  | [] => iff_of_true trivial fun _ h => absurd h List.not_mem_nil
  | (_, j) :: ms => by rw [WritableMembers, writableMembers_iff, List.forall_mem_cons]

theorem forall_mem_of_reads_separated {α : Type} {item : Reader α} {close : Char} (hclose : close ≠ ',') {P : α → Prop}
    (hitem : ∀ s x r, Reads item s x r → P x) {s rest : List Char} {xs : List α}
    (h : Reads (separated item close) s xs rest) : ∀ x ∈ xs, P x := by
  obtain ⟨x, r₁, hx, ⟨hr, rfl⟩ | ⟨r, ys, hr, hys, rfl⟩⟩ := (reads_separated_iff hclose).mp h
  · exact List.forall_mem_singleton.mpr (hitem _ _ _ hx)
  · have : r.length < s.length := by
      have hlt := hx.length_lt
      have hle := length_skipBlanks_le s
      have hle₁ := length_skipBlanks_le r₁
      rw [hr, List.length_cons] at hle₁
      omega
    exact List.forall_mem_cons.mpr ⟨hitem _ _ _ hx, forall_mem_of_reads_separated hclose hitem hys⟩
termination_by s.length

theorem forall_mem_of_reads_enclosed {α : Type} {item : Reader α} {close : Char} (hclose : close ≠ ',') {P : α → Prop}
    (hitem : ∀ s x r, Reads item s x r → P x) {s rest : List Char} {xs : List α}
    (h : Reads (enclosed item close) s xs rest) : ∀ x ∈ xs, P x := by
  rcases reads_enclosed_iff.mp h with ⟨-, rfl⟩ | ⟨-, h⟩
  · exact fun _ h => absurd h List.not_mem_nil
  · exact forall_mem_of_reads_separated hclose hitem h

/-- A number is spelled as it is read. -/
theorem numeral?_spelling {v : Bytes} {n : Numeral} (h : numeral? v = some n) : numeral? n.spelling = some n := by
  obtain ⟨m, rfl, hz, rfl⟩ := numeral?_eq_some.mp h
  exact numeral?_eq_some.mpr ⟨_, rfl, hz, m.withSignedExponent_idem.symm⟩

theorem writable_of_reads : ∀ {d : Nat} {s rest : List Char} {j : Json}, Reads (value d) s j rest → j.Writable d
  | d, s, rest, j, h => by
    cases reads_value_iff.mp h with
    | null | true | false | str _ => trivial
    | num h =>
      obtain ⟨-, m, -, hz, rfl⟩ := reads_number_iff.mp h
      exact numeral?_spelling (numeral?_eq_some.mpr ⟨m, rfl, hz, rfl⟩)
    | @arr e _ _ js h =>
      refine ⟨e, rfl, writableItems_iff.mpr ?_⟩
      exact forall_mem_of_reads_enclosed (by decide) (fun _ _ _ hj => writable_of_reads hj) h
    | @obj e _ _ ms h =>
      refine ⟨e, rfl, writableMembers_iff.mpr ?_⟩
      refine forall_mem_of_reads_enclosed (by decide) (fun _ m _ hm => ?_) h
      obtain ⟨_, _, -, -, hj⟩ := reads_member_iff.mp hm
      exact writable_of_reads hj

mutual

theorem Writable.resolve? : ∀ {j r : Json} {d : Nat}, j.Writable d → j.resolve? = some r → r.Writable d
  | .arr items, r, d, hw, h => by
    obtain ⟨e, rfl, hw⟩ := hw
    rw [Json.resolve?, Option.map_eq_some_iff] at h
    obtain ⟨js, hjs, rfl⟩ := h
    exact ⟨e, rfl, WritableItems.resolve? hw hjs⟩
  | .obj members, r, d, hw, h => by
    obtain ⟨e, rfl, hw⟩ := hw
    obtain ⟨_, _, -, hn, rfl⟩ | ⟨-, ms, hms, rfl⟩ := resolve?_obj_eq_some h
    · exact numeral?_spelling hn
    · refine ⟨e, rfl, writableMembers_iff.mpr fun m hm => ?_⟩
      exact writableMembers_iff.mp (WritableMembers.resolve? hw hms) m ((sortMembers_spec ms).2 m hm)
  | .null, _, _, _, h => by cases h; trivial
  | .bool _, _, _, _, h => by cases h; trivial
  | .num _, _, _, hw, h => by cases h; exact hw
  | .str _, _, _, _, h => by cases h; trivial

theorem WritableItems.resolve? : ∀ {js rs : List Json} {d : Nat}, WritableItems d js → resolveItems? js = some rs →
    WritableItems d rs
  | [], _, _, _, h => by cases h; trivial
  | j :: js, rs, d, hw, h => by
    obtain ⟨r, rest, hr, hrest, rfl⟩ := resolveItems?_cons_eq_some h
    exact ⟨Writable.resolve? hw.1 hr, WritableItems.resolve? hw.2 hrest⟩

theorem WritableMembers.resolve? : ∀ {ms rs : List (String × Json)} {d : Nat}, WritableMembers d ms →
    resolveMembers? ms = some rs → WritableMembers d rs
  | [], _, _, _, h => by cases h; trivial
  | (k, j) :: ms, rs, d, hw, h => by
    obtain ⟨r, rest, hr, hrest, rfl⟩ := resolveMembers?_cons_eq_some h
    exact ⟨Writable.resolve? hw.1 hr, WritableMembers.resolve? hw.2 hrest⟩

end

theorem writable_of_asWritten? {s : List Char} {j : Json} (h : asWritten? s = some j) : j.Writable maxDepth := by
  obtain ⟨⟨j', rest, hlt⟩, hj, h⟩ := Option.bind_eq_some_iff.mp h
  dsimp only at h
  split at h
  · cases h
    exact writable_of_reads ⟨hlt, hj⟩
  · cases h

theorem writable_of_parse? {text : String} {j : Json} (h : parse? text = some j) : j.Writable maxDepth := by
  obtain ⟨w, hw, h⟩ := Option.bind_eq_some_iff.mp h
  exact (writable_of_asWritten? hw).resolve? h

theorem writable_of_parseBytes? {v : Bytes} {j : Json} (h : parseBytes? v = some j) : j.Writable maxDepth := by
  obtain ⟨w, hw, h⟩ := Option.bind_eq_some_iff.mp h
  obtain ⟨text, -, hw⟩ := Option.bind_eq_some_iff.mp hw
  exact (writable_of_asWritten? hw).resolve? h

mutual

theorem Writable.mono : ∀ {j : Json} {d e : Nat}, j.Writable d → d ≤ e → j.Writable e
  | .null, _, _, _, _ | .bool _, _, _, _, _ | .str _, _, _, _, _ => trivial
  | .num _, _, _, hw, _ => hw
  | .arr items, _, e, hw, hle => by
    obtain ⟨d', rfl, hw⟩ := hw
    obtain ⟨e', rfl⟩ := Nat.exists_eq_add_of_lt hle
    exact ⟨_, rfl, WritableItems.mono hw (Nat.le_add_right _ _)⟩
  | .obj members, _, e, hw, hle => by
    obtain ⟨d', rfl, hw⟩ := hw
    obtain ⟨e', rfl⟩ := Nat.exists_eq_add_of_lt hle
    exact ⟨_, rfl, WritableMembers.mono hw (Nat.le_add_right _ _)⟩

theorem WritableItems.mono : ∀ {js : List Json} {d e : Nat}, WritableItems d js → d ≤ e → WritableItems e js
  | [], _, _, _, _ => trivial
  | _ :: _, _, _, hw, hle => ⟨Writable.mono hw.1 hle, WritableItems.mono hw.2 hle⟩

theorem WritableMembers.mono : ∀ {ms : List (String × Json)} {d e : Nat}, WritableMembers d ms → d ≤ e →
    WritableMembers e ms
  | [], _, _, _, _ => trivial
  | _ :: _, _, _, hw, hle => ⟨Writable.mono hw.1 hle, WritableMembers.mono hw.2 hle⟩

end

/-! ## Lists of one -/

theorem reads_array_singleton {d : Nat} {s t : List Char} {j : Json} (h : Reads (value d) s j (']' :: t)) :
    Reads (value (d + 1)) ('[' :: s) (arr [j]) t := by
  have hitems := reads_separated_singleton (by decide) h.unblank_value (by decide) h
  exact reads_value_iff.mpr (.arr (hitems.enclosed (by decide) fun _ _ _ => not_reads_value_bracket))

theorem reads_object_singleton (key : String) {d : Nat} {s t : List Char} {j : Json}
    (h : Reads (value d) s j ('\x7d' :: t)) :
    Reads (value (d + 1)) ('\x7b' :: (renderString key ++ ':' :: s)) (obj [(key, j)]) t := by
  have hm := reads_renderMember key h.unblank_value h
  have hmembers := reads_separated_singleton (by decide) (unblank_cons (by decide) _) (by decide) hm
  exact reads_value_iff.mpr (.obj (hmembers.enclosed (by decide) fun _ _ _ => not_reads_member_brace))

theorem resolve?_array_singleton {j r : Json} (h : j.resolve? = some r) : (arr [j]).resolve? = some (arr [r]) := by
  rw [resolve?, resolveItems?, resolveItems?, h]
  rfl

theorem resolve?_object_singleton {key : String} (hkey : key ≠ numberKey) {j r : Json} (h : j.resolve? = some r) :
    (obj [(key, j)]).resolve? = some (obj [(key, r)]) := by
  have hhead : ¬ ([(key, j)].head?.map Prod.fst = some numberKey) := fun he => hkey (Option.some.inj he)
  rw [resolve?, if_neg hhead, resolveMembers?, resolveMembers?, h]
  rfl

/-! ## Whole texts -/

theorem asWritten?_of_reads {s : List Char} {j : Json} (h : Reads (value maxDepth) s j []) : asWritten? s = some j := by
  rw [← h.unblank_value.skipBlanks_eq] at h
  obtain ⟨hlt, h⟩ := h
  rw [asWritten?, h]
  rfl

theorem asWritten?_text {j : Json} (h : j.Writable maxDepth) : asWritten? j.text.toList = some j := by
  have hreads := reads_render h (show Settled [] from fun _ h => nomatch h)
  rw [List.append_nil] at hreads
  rw [text, String.toList_ofList]
  exact asWritten?_of_reads hreads

theorem asWrittenBytes?_ofString (text : String) : asWrittenBytes? (Bytes.ofString text) = asWritten? text.toList := by
  rw [asWrittenBytes?, Bytes.toString?_ofString, Option.bind_eq_bind, Option.bind_some]

theorem asWrittenBytes?_text {j : Json} (h : j.Writable maxDepth) :
    asWrittenBytes? (Bytes.ofString j.text) = some j := by
  rw [asWrittenBytes?_ofString, asWritten?_text h]

theorem parse?_text {j r : Json} (hw : j.Writable maxDepth) (h : j.resolve? = some r) : parse? j.text = some r := by
  rw [parse?, asWritten?_text hw]
  exact h

theorem parseBytes?_ofString (text : String) : parseBytes? (Bytes.ofString text) = parse? text := by
  rw [parseBytes?, asWrittenBytes?_ofString, parse?]

end EventMatch.Json
