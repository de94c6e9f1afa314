import EventMatch.Proofs.Json.Writing

/-!
# Reading the text of a parsed value

What is read of a text does not depend on how deep the reader may go, as long as that is deep
enough (`Reads.mono_value`), so the compact text of a value is read as this value or not at all
(`eq_of_asWritten?_text`). A value that was parsed then stands for itself or for nothing
(`eq_of_resolve?`), and for nothing only if an object in it begins with the key which numbers
are carried under (`exists_resolve?`). So the text of a parsed value is parsed again if the
value is `Unmarked` and within the depth allowed (`parse?_text_of_unmarked`).
-/

namespace EventMatch.Json

/-! ## Readers that may go deeper -/

section

variable {α : Type} {item item' : Reader α} {close : Char}

theorem Reads.mono_separated (hclose : close ≠ ',') (hitem : ∀ s x r, Reads item s x r → Reads item' s x r)
    {s rest : List Char} {xs : List α} (h : Reads (separated item close) s xs rest) :
    Reads (separated item' close) s xs rest := by
  obtain ⟨x, r₁, hx, hafter⟩ := (reads_separated_iff hclose).mp h
  refine (reads_separated_iff hclose).mpr ⟨x, r₁, hitem _ _ _ hx, ?_⟩
  rcases hafter with hend | ⟨r, ys, hr, hys, rfl⟩
  · exact .inl hend
  · have : r.length < s.length := by
      have hlt := hx.length_lt
      have hle := length_skipBlanks_le s
      have hle₁ := length_skipBlanks_le r₁
      rw [hr, List.length_cons] at hle₁
      omega
    exact .inr ⟨r, ys, hr, Reads.mono_separated hclose hitem hys, rfl⟩
termination_by s.length

theorem Reads.mono_enclosed (hclose : close ≠ ',') (hitem : ∀ s x r, Reads item s x r → Reads item' s x r)
    {s rest : List Char} {xs : List α} (h : Reads (Json.enclosed item close) s xs rest) :
    Reads (Json.enclosed item' close) s xs rest := by
  rcases reads_enclosed_iff.mp h with hend | ⟨hr, h⟩
  · exact reads_enclosed_iff.mpr (.inl hend)
  · exact reads_enclosed_iff.mpr (.inr ⟨hr, h.mono_separated hclose hitem⟩)

theorem Reads.mono_member {value value' : Reader Json} (hvalue : ∀ s j r, Reads value s j r → Reads value' s j r)
    {s rest : List Char} {m : String × Json} (h : Reads (member value) s m rest) : Reads (member value') s m rest := by
  obtain ⟨r₁, r, hkey, hr, hj⟩ := reads_member_iff.mp h
  exact reads_member_iff.mpr ⟨r₁, r, hkey, hr, hvalue _ _ _ hj⟩

end

/-- A reader that may go deeper reads the same. -/
theorem Reads.mono_value : ∀ {d e : Nat} {s rest : List Char} {j : Json}, Reads (value d) s j rest → d ≤ e →
    Reads (value e) s j rest
  | d, e, s, rest, j, h, hle => by
    cases reads_value_iff.mp h with
    | null => exact reads_value_iff.mpr .null
    | true => exact reads_value_iff.mpr .true
    | false => exact reads_value_iff.mpr .false
    | str h => exact reads_value_iff.mpr (.str h)
    | num h => exact reads_value_iff.mpr (.num h)
    | @arr d _ _ js h =>
      obtain ⟨e, rfl⟩ := Nat.exists_eq_add_of_lt hle
      refine reads_value_iff.mpr (.arr (h.mono_enclosed (by decide) fun _ _ _ hj => ?_))
      exact hj.mono_value (Nat.le_add_right d e)
    | @obj d _ _ ms h =>
      obtain ⟨e, rfl⟩ := Nat.exists_eq_add_of_lt hle
      refine reads_value_iff.mpr (.obj (h.mono_enclosed (by decide) fun _ _ _ hm => ?_))
      exact hm.mono_member fun _ _ _ hj => hj.mono_value (Nat.le_add_right d e)

/-- The text of a value is read as this value or, if it nests too deep, not at all. -/
theorem eq_of_asWritten?_text {j w : Json} {d : Nat} (hj : j.Writable d) (h : asWritten? j.text.toList = some w) :
    w = j := by
  have hreads := reads_render hj (show Settled [] from fun _ h => nomatch h)
  rw [List.append_nil] at hreads
  obtain ⟨⟨w', rest, hlt⟩, hw, h⟩ := Option.bind_eq_some_iff.mp h
  dsimp only at h
  split at h
  · cases h
    have hw : Reads (value maxDepth) (skipBlanks j.text.toList) w rest := ⟨hlt, hw⟩
    rw [text, String.toList_ofList, hreads.unblank_value.skipBlanks_eq] at hw
    obtain ⟨_, hdeep⟩ := hreads.mono_value (Nat.le_max_left d maxDepth)
    obtain ⟨_, hw⟩ := hw.mono_value (Nat.le_max_right d maxDepth)
    cases hw.symm.trans hdeep
    rfl
  · cases h

/-! ## The keys of objects -/

mutual

/-- The keys of every object have the property. -/
def AllKeys (p : List String → Prop) : Json → Prop
  | obj members => p (members.map Prod.fst) ∧ MembersAllKeys p members
  | arr items => ItemsAllKeys p items
  | _ => True

/-- The keys of every object in the items have the property. -/
def ItemsAllKeys (p : List String → Prop) : List Json → Prop
  | [] => True
  | j :: js => j.AllKeys p ∧ ItemsAllKeys p js

/-- The keys of every object in the members' values have the property. -/
def MembersAllKeys (p : List String → Prop) : List (String × Json) → Prop
  | [] => True
  | (_, j) :: ms => j.AllKeys p ∧ MembersAllKeys p ms

end

/-- No object begins with the key under which numbers are carried. -/
def Unmarked (j : Json) : Prop := j.AllKeys fun keys => keys.head? ≠ some numberKey

/-- No object has that key alone, which a number that was read would have. -/
def Uncarried (j : Json) : Prop := j.AllKeys fun keys => keys ≠ [numberKey]

theorem membersAllKeys_iff {p : List String → Prop} : ∀ {ms : List (String × Json)},
    MembersAllKeys p ms ↔ ∀ m ∈ ms, m.2.AllKeys p
  | [] => iff_of_true trivial fun _ h => absurd h List.not_mem_nil
  | (_, j) :: ms => by rw [MembersAllKeys, membersAllKeys_iff, List.forall_mem_cons]

mutual

theorem AllKeys.imp {p q : List String → Prop} (hpq : ∀ keys, p keys → q keys) : ∀ {j : Json}, j.AllKeys p →
    j.AllKeys q
  | .obj _, h => ⟨hpq _ h.1, membersAllKeys_imp hpq h.2⟩
  | .arr _, h => itemsAllKeys_imp hpq h
  | .null, _ | .bool _, _ | .num _, _ | .str _, _ => trivial

theorem itemsAllKeys_imp {p q : List String → Prop} (hpq : ∀ keys, p keys → q keys) : ∀ {js : List Json},
    ItemsAllKeys p js → ItemsAllKeys q js
  | [], _ => trivial
  | _ :: _, h => ⟨h.1.imp hpq, itemsAllKeys_imp hpq h.2⟩

theorem membersAllKeys_imp {p q : List String → Prop} (hpq : ∀ keys, p keys → q keys) :
    ∀ {ms : List (String × Json)}, MembersAllKeys p ms → MembersAllKeys q ms
  | [], _ => trivial
  | (_, _) :: _, h => ⟨h.1.imp hpq, membersAllKeys_imp hpq h.2⟩

end

theorem Unmarked.uncarried {j : Json} (h : j.Unmarked) : j.Uncarried := by
  refine AllKeys.imp (fun keys hkeys he => hkeys ?_) h
  rw [he]
  rfl

/-! ## Sorting what is sorted -/

theorem insertMember_of_forall {key : String} {j : Json} : ∀ {ms : List (String × Json)},
    (∀ m ∈ ms, Bytes.leString m.1 key = true ∧ m.1 ≠ key) → insertMember key j ms = ms ++ [(key, j)]
  | [], _ => rfl
  | (k, v) :: ms, h => by
    obtain ⟨⟨hle, hne⟩, h⟩ := List.forall_mem_cons.mp h
    rw [insertMember, if_neg fun he => hne he.symm, if_neg fun hge => hne (Bytes.leString_antisymm hle hge),
      insertMember_of_forall h]
    rfl

/-- Members in the order of their keys stay as they are. -/
theorem sortMembers_of_sortedKeys {members : List (String × Json)} (h : SortedKeys members) :
    sortMembers members = members := by
  have hfold : ∀ ms acc : List (String × Json), SortedKeys (acc ++ ms) →
      ms.foldl (fun acc m => insertMember m.1 m.2 acc) acc = acc ++ ms := by
    intro ms
    induction ms with
    | nil => exact fun acc _ => (List.append_nil acc).symm
    | cons m ms ih =>
      intro acc h
      have hlast : insertMember m.1 m.2 acc = acc ++ [m] := insertMember_of_forall fun n hn =>
        (List.pairwise_append.mp h).2.2 n hn m List.mem_cons_self
      rw [List.foldl_cons, hlast, ih _ (by rwa [List.append_assoc]), List.append_assoc, List.singleton_append]
  exact hfold members [] h

theorem mem_keys_insertMember {key k : String} {j : Json} : ∀ {ms : List (String × Json)},
    k = key ∨ k ∈ ms.map Prod.fst → k ∈ (insertMember key j ms).map Prod.fst
  | [], h => by simpa [insertMember] using h
  | (k', v) :: ms, h => by
    rw [insertMember]
    split
    · rename_i he
      simpa [he] using h
    · split
      · simpa using h
      · rw [List.map_cons, List.mem_cons]
        rcases h with rfl | h
        · exact .inr (mem_keys_insertMember (.inl rfl))
        · exact (List.mem_cons.mp h).imp_right fun h => mem_keys_insertMember (.inr h)

/-- Sorting loses no key. -/
theorem mem_keys_sortMembers {members : List (String × Json)} {k : String} (h : k ∈ members.map Prod.fst) :
    k ∈ (sortMembers members).map Prod.fst := by
  have hfold : ∀ ms acc : List (String × Json), k ∈ ms.map Prod.fst ∨ k ∈ acc.map Prod.fst →
      k ∈ (ms.foldl (fun acc m => insertMember m.1 m.2 acc) acc).map Prod.fst := by
    intro ms
    induction ms with
    | nil => exact fun acc h => h.resolve_left List.not_mem_nil
    | cons m ms ih =>
      intro acc h
      rw [List.foldl_cons]
      refine ih _ ?_
      rw [List.map_cons, List.mem_cons] at h
      rcases h with (h | h) | h
      · exact .inr (mem_keys_insertMember (.inl h))
      · exact .inl h
      · exact .inr (mem_keys_insertMember (.inr h))
  exact hfold members [] (.inl h)

/-! ## What parsed values stand for -/

theorem map_fst_of_resolveMembers? {ms rs : List (String × Json)} (h : resolveMembers? ms = some rs) :
    rs.map Prod.fst = ms.map Prod.fst := by
  induction ms generalizing rs with
  | nil =>
    cases h
    rfl
  | cons m ms ih =>
    obtain ⟨k, j⟩ := m
    obtain ⟨r, rest, -, hrest, rfl⟩ := resolveMembers?_cons_eq_some h
    rw [List.map_cons, List.map_cons, ih hrest]

mutual

/-- A value that a text stands for carries no number. -/
theorem uncarried_of_resolve? : ∀ {j r : Json}, j.resolve? = some r → r.Uncarried
  | .arr items, r, h => by
    rw [resolve?, Option.map_eq_some_iff] at h
    obtain ⟨js, hjs, rfl⟩ := h
    exact itemsUncarried_of_resolveItems? hjs
  | .obj members, r, h => by
    obtain ⟨_, _, -, -, rfl⟩ | ⟨hfirst, ms, hms, rfl⟩ := resolve?_obj_eq_some h
    · trivial
    · refine ⟨fun he => hfirst ?_, membersAllKeys_iff.mpr fun m hm => ?_⟩
      · -- The first key is not lost, so it would have to be the only one.
        have hall : ∀ k ∈ members.map Prod.fst, k = numberKey := fun k hk => by
          rw [← map_fst_of_resolveMembers? hms] at hk
          exact List.mem_singleton.mp (he ▸ mem_keys_sortMembers hk)
        cases members with
        | nil =>
          cases hms
          cases he
        | cons m members => exact congrArg some (hall m.1 List.mem_cons_self)
      · exact membersAllKeys_iff.mp (membersUncarried_of_resolveMembers? hms) m ((sortMembers_spec ms).2 m hm)
  | .null, _, h => by cases h; trivial
  | .bool _, _, h => by cases h; trivial
  | .num _, _, h => by cases h; trivial
  | .str _, _, h => by cases h; trivial

theorem itemsUncarried_of_resolveItems? : ∀ {js rs : List Json}, resolveItems? js = some rs →
    ItemsAllKeys (fun keys => keys ≠ [numberKey]) rs
  | [], _, h => by cases h; trivial
  | j :: js, rs, h => by
    obtain ⟨r, rest, hr, hrest, rfl⟩ := resolveItems?_cons_eq_some h
    exact ⟨uncarried_of_resolve? hr, itemsUncarried_of_resolveItems? hrest⟩

theorem membersUncarried_of_resolveMembers? : ∀ {ms rs : List (String × Json)}, resolveMembers? ms = some rs →
    MembersAllKeys (fun keys => keys ≠ [numberKey]) rs
  | [], _, h => by cases h; trivial
  | (k, j) :: ms, rs, h => by
    obtain ⟨r, rest, hr, hrest, rfl⟩ := resolveMembers?_cons_eq_some h
    exact ⟨uncarried_of_resolve? hr, membersUncarried_of_resolveMembers? hrest⟩

end

theorem uncarried_of_parse? {text : String} {j : Json} (h : parse? text = some j) : j.Uncarried := by
  obtain ⟨w, _, h⟩ := Option.bind_eq_some_iff.mp h
  exact uncarried_of_resolve? h

mutual

/-- A value with sorted keys that carries no number stands for itself, if for anything. -/
theorem eq_of_resolve? : ∀ {j r : Json}, j.KeysSorted → j.Uncarried → j.resolve? = some r → r = j
  | .arr items, r, hs, hu, h => by
    rw [resolve?, Option.map_eq_some_iff] at h
    obtain ⟨js, hjs, rfl⟩ := h
    rw [eq_of_resolveItems? hs hu hjs]
  | .obj members, r, hs, hu, h => by
    obtain ⟨_, _, hcarries, -, -⟩ | ⟨-, ms, hms, rfl⟩ := resolve?_obj_eq_some h
    · exact absurd (congrArg (List.map Prod.fst) hcarries) hu.1
    · rw [eq_of_resolveMembers? hs.2 hu.2 hms, sortMembers_of_sortedKeys hs.1]
  | .null, _, _, _, h => by cases h; rfl
  | .bool _, _, _, _, h => by cases h; rfl
  | .num _, _, _, _, h => by cases h; rfl
  | .str _, _, _, _, h => by cases h; rfl

theorem eq_of_resolveItems? : ∀ {js rs : List Json}, ItemsSorted js →
    ItemsAllKeys (fun keys => keys ≠ [numberKey]) js → resolveItems? js = some rs → rs = js
  | [], _, _, _, h => by cases h; rfl
  | j :: js, rs, hs, hu, h => by
    obtain ⟨r, rest, hr, hrest, rfl⟩ := resolveItems?_cons_eq_some h
    rw [eq_of_resolve? hs.1 hu.1 hr, eq_of_resolveItems? hs.2 hu.2 hrest]

theorem eq_of_resolveMembers? : ∀ {ms rs : List (String × Json)}, MembersSorted ms →
    MembersAllKeys (fun keys => keys ≠ [numberKey]) ms → resolveMembers? ms = some rs → rs = ms
  | [], _, _, _, h => by cases h; rfl
  | (k, j) :: ms, rs, hs, hu, h => by
    obtain ⟨r, rest, hr, hrest, rfl⟩ := resolveMembers?_cons_eq_some h
    rw [eq_of_resolve? hs.1 hu.1 hr, eq_of_resolveMembers? hs.2 hu.2 hrest]

end

mutual

/-- A value of which no object begins with the number key stands for something. -/
theorem exists_resolve? : ∀ {j : Json}, j.Unmarked → ∃ r, j.resolve? = some r
  | .arr items, h => by
    obtain ⟨rs, hrs⟩ := exists_resolveItems? h
    exact ⟨_, by rw [resolve?, hrs]; rfl⟩
  | .obj members, h => by
    obtain ⟨rs, hrs⟩ := exists_resolveMembers? h.2
    have hfirst : ¬ members.head?.map Prod.fst = some numberKey := List.head?_map ▸ h.1
    exact ⟨_, by rw [resolve?, if_neg hfirst, hrs]; rfl⟩
  | .null, _ | .bool _, _ | .num _, _ | .str _, _ => ⟨_, rfl⟩

theorem exists_resolveItems? : ∀ {js : List Json}, ItemsAllKeys (fun keys => keys.head? ≠ some numberKey) js →
    ∃ rs, resolveItems? js = some rs
  | [], _ => ⟨[], rfl⟩
  | j :: js, h => by
    obtain ⟨r, hr⟩ := exists_resolve? h.1
    obtain ⟨rs, hrs⟩ := exists_resolveItems? h.2
    exact ⟨r :: rs, by rw [resolveItems?, hr, hrs]; rfl⟩

theorem exists_resolveMembers? : ∀ {ms : List (String × Json)},
    MembersAllKeys (fun keys => keys.head? ≠ some numberKey) ms → ∃ rs, resolveMembers? ms = some rs
  | [], _ => ⟨[], rfl⟩
  | (k, j) :: ms, h => by
    obtain ⟨r, hr⟩ := exists_resolve? h.1
    obtain ⟨rs, hrs⟩ := exists_resolveMembers? h.2
    exact ⟨(k, r) :: rs, by rw [resolveMembers?, hr, hrs]; rfl⟩

end

/-! ## Depth -/

mutual

/-- How many containers may be open at a time inside the value, itself included. -/
def depth : Json → Nat
  | arr items => itemsDepth items + 1
  | obj members => membersDepth members + 1
  | _ => 0

/-- The depth of the deepest item. -/
def itemsDepth : List Json → Nat
  | [] => 0
  | j :: js => max j.depth (itemsDepth js)

/-- The depth of the deepest member's value. -/
def membersDepth : List (String × Json) → Nat
  | [] => 0
  | (_, j) :: ms => max j.depth (membersDepth ms)

end

mutual

theorem Writable.of_depth_le : ∀ {j : Json} {d e : Nat}, j.Writable d → j.depth ≤ e → j.Writable e
  | .null, _, _, _, _ | .bool _, _, _, _, _ | .str _, _, _, _, _ => trivial
  | .num _, _, _, hw, _ => hw
  | .arr items, _, e, ⟨_, _, hw⟩, hle => by
    rw [depth] at hle
    obtain ⟨e, rfl⟩ : ∃ e', e = e' + 1 := ⟨e - 1, by omega⟩
    exact ⟨e, rfl, WritableItems.of_depth_le hw (by omega)⟩
  | .obj members, _, e, ⟨_, _, hw⟩, hle => by
    rw [depth] at hle
    obtain ⟨e, rfl⟩ : ∃ e', e = e' + 1 := ⟨e - 1, by omega⟩
    exact ⟨e, rfl, WritableMembers.of_depth_le hw (by omega)⟩

theorem WritableItems.of_depth_le : ∀ {js : List Json} {d e : Nat}, WritableItems d js → itemsDepth js ≤ e →
    WritableItems e js
  | [], _, _, _, _ => trivial
  | j :: js, _, e, hw, hle => by
    rw [itemsDepth] at hle
    exact ⟨Writable.of_depth_le hw.1 (by omega), WritableItems.of_depth_le hw.2 (by omega)⟩

theorem WritableMembers.of_depth_le : ∀ {ms : List (String × Json)} {d e : Nat}, WritableMembers d ms →
    membersDepth ms ≤ e → WritableMembers e ms
  | [], _, _, _, _ => trivial
  | (_, j) :: ms, _, e, hw, hle => by
    rw [membersDepth] at hle
    exact ⟨Writable.of_depth_le hw.1 (by omega), WritableMembers.of_depth_le hw.2 (by omega)⟩

end

/-! ## Whole texts again -/

section

variable {j : Json} {d : Nat} (hw : j.Writable d) (hs : j.KeysSorted)

include hw hs

/-- The text of such a value is parsed as this value, if at all. -/
theorem eq_of_parse?_text (hu : j.Uncarried) {r : Json} (h : parse? j.text = some r) : r = j := by
  obtain ⟨w, hread, h⟩ := Option.bind_eq_some_iff.mp h
  rw [eq_of_asWritten?_text hw hread] at h
  exact eq_of_resolve? hs hu h

/-- The text of such a value is parsed, if it does not nest too deep and no object begins with the
number key. -/
theorem parse?_text_of_unmarked (hd : j.depth ≤ maxDepth) (hu : j.Unmarked) : parse? j.text = some j := by
  obtain ⟨r, hr⟩ := exists_resolve? hu
  have hparse := parse?_text (hw.of_depth_le hd) hr
  rw [hparse, eq_of_parse?_text hw hs hu.uncarried hparse]

end

end EventMatch.Json
