import EventMatch.Json.Parser
import EventMatch.Proofs.Text.Bytes

/-!
# Keys of parsed objects

The objects of a value that was parsed list their keys in order (`keysSorted_of_parse?`,
`keysSorted_of_parseBytes?`), and so every key once (`uniqueKeys_of_parse?`,
`uniqueKeys_of_parseBytes?`), whatever keys its text repeats.
-/

namespace EventMatch.Json

mutual

/-- Every object of the value lists every key once. -/
def UniqueKeys : Json → Prop
  | obj members => (members.map Prod.fst).Nodup ∧ MembersUnique members
  | arr items => ItemsUnique items
  | _ => True

/-- Every object of the items lists every key once. -/
def ItemsUnique : List Json → Prop
  | [] => True
  | j :: js => j.UniqueKeys ∧ ItemsUnique js

/-- Every object of the members' values lists every key once. -/
def MembersUnique : List (String × Json) → Prop
  | [] => True
  | (_, j) :: ms => j.UniqueKeys ∧ MembersUnique ms

end

/-! ## Sorting members -/

/-- Members in the order of their keys, which are different. -/
def SortedKeys (members : List (String × Json)) : Prop :=
  members.Pairwise fun m n => Bytes.leString m.1 n.1 = true ∧ m.1 ≠ n.1

theorem SortedKeys.nodup {members : List (String × Json)} (h : SortedKeys members) :
    (members.map Prod.fst).Nodup :=
  List.pairwise_map.mpr (h.imp And.right)

theorem mem_of_mem_insertMember {key : String} {value : Json} {m : String × Json} :
    ∀ {members : List (String × Json)}, m ∈ insertMember key value members → m = (key, value) ∨ m ∈ members
  | [], h => .inl (List.mem_singleton.mp h)
  | (k, v) :: rest, h => by
    rw [insertMember] at h
    split at h
    · exact (List.mem_cons.mp h).imp_right (List.mem_cons_of_mem _)
    · split at h
      · exact List.mem_cons.mp h
      · rcases List.mem_cons.mp h with rfl | h
        · exact .inr List.mem_cons_self
        · exact (mem_of_mem_insertMember h).imp_right (List.mem_cons_of_mem _)

theorem SortedKeys.insertMember (key : String) (value : Json) : ∀ {members : List (String × Json)},
    SortedKeys members → SortedKeys (insertMember key value members)
  | [], _ => List.pairwise_singleton _ _
  | (k, v) :: rest, h => by
    obtain ⟨hk, hrest⟩ := List.pairwise_cons.mp h
    rw [Json.insertMember]
    split
    · rename_i he
      subst he
      exact List.pairwise_cons.mpr ⟨hk, hrest⟩
    · rename_i hne
      split
      · rename_i hle
        refine List.pairwise_cons.mpr ⟨fun m hm => ?_, h⟩
        rcases List.mem_cons.mp hm with rfl | hm
        · exact ⟨hle, hne⟩
        · refine ⟨Bytes.leString_trans hle (hk m hm).1, fun he => ?_⟩
          exact hne (Bytes.leString_antisymm hle ((show key = m.1 from he) ▸ (hk m hm).1))
      · rename_i hle
        refine List.pairwise_cons.mpr ⟨fun m hm => ?_, SortedKeys.insertMember key value hrest⟩
        rcases mem_of_mem_insertMember hm with rfl | hm
        · exact ⟨(Bytes.leString_total key k).resolve_left hle, fun he => hne he.symm⟩
        · exact hk m hm

/-- Sorting makes the keys different and invents no members. -/
theorem sortMembers_spec (members : List (String × Json)) :
    SortedKeys (sortMembers members) ∧ ∀ m ∈ sortMembers members, m ∈ members := by
  have h : ∀ (ms acc : List (String × Json)), SortedKeys acc →
      SortedKeys (ms.foldl (fun acc m => insertMember m.1 m.2 acc) acc) ∧
        ∀ m ∈ ms.foldl (fun acc m => insertMember m.1 m.2 acc) acc, m ∈ ms ∨ m ∈ acc := by
    intro ms
    induction ms with
    | nil => exact fun acc h => ⟨h, fun _ => .inr⟩
    | cons first ms ih =>
      intro acc hacc
      obtain ⟨hs, hm⟩ := ih _ (hacc.insertMember first.1 first.2)
      refine ⟨hs, fun m h => ?_⟩
      rcases hm m h with h | h
      · exact .inl (List.mem_cons_of_mem _ h)
      · rcases mem_of_mem_insertMember h with rfl | h
        · exact .inl List.mem_cons_self
        · exact .inr h
  obtain ⟨hs, hm⟩ := h members [] .nil
  exact ⟨hs, fun m h => (hm m h).resolve_right List.not_mem_nil⟩

mutual

/-- Every object of the value lists its keys in order, each once. -/
def KeysSorted : Json → Prop
  | obj members => SortedKeys members ∧ MembersSorted members
  | arr items => ItemsSorted items
  | _ => True

/-- Every object of the items lists its keys in order. -/
def ItemsSorted : List Json → Prop
  | [] => True
  | j :: js => j.KeysSorted ∧ ItemsSorted js

/-- Every object of the members' values lists its keys in order. -/
def MembersSorted : List (String × Json) → Prop
  | [] => True
  | (_, j) :: ms => j.KeysSorted ∧ MembersSorted ms

end

theorem membersSorted_iff : ∀ {members : List (String × Json)},
    MembersSorted members ↔ ∀ m ∈ members, m.2.KeysSorted
  | [] => iff_of_true trivial fun _ h => absurd h List.not_mem_nil
  | (_, j) :: ms => by rw [MembersSorted, membersSorted_iff, List.forall_mem_cons]

mutual

theorem KeysSorted.uniqueKeys : ∀ {j : Json}, j.KeysSorted → j.UniqueKeys
  | .obj _, h => ⟨h.1.nodup, membersUnique_of_sorted h.2⟩
  | .arr _, h => itemsUnique_of_sorted h
  | .null, _ | .bool _, _ | .num _, _ | .str _, _ => trivial

theorem itemsUnique_of_sorted : ∀ {js : List Json}, ItemsSorted js → ItemsUnique js
  | [], _ => trivial
  | _ :: _, h => ⟨h.1.uniqueKeys, itemsUnique_of_sorted h.2⟩

theorem membersUnique_of_sorted : ∀ {ms : List (String × Json)}, MembersSorted ms → MembersUnique ms
  | [], _ => trivial
  | (_, _) :: _, h => ⟨h.1.uniqueKeys, membersUnique_of_sorted h.2⟩

end

/-! ## Resolved values -/

theorem resolveItems?_cons_eq_some {j : Json} {js rs : List Json} (h : resolveItems? (j :: js) = some rs) :
    ∃ r rest, j.resolve? = some r ∧ resolveItems? js = some rest ∧ rs = r :: rest := by
  rw [resolveItems?, Option.bind_eq_bind, Option.bind_eq_some_iff] at h
  obtain ⟨r, hr, h⟩ := h
  obtain ⟨rest, hrest, h⟩ := Option.bind_eq_some_iff.mp h
  exact ⟨r, rest, hr, hrest, (Option.some.inj h).symm⟩

theorem resolveMembers?_cons_eq_some {key : String} {j : Json} {ms rs : List (String × Json)}
    (h : resolveMembers? ((key, j) :: ms) = some rs) :
    ∃ r rest, j.resolve? = some r ∧ resolveMembers? ms = some rest ∧ rs = (key, r) :: rest := by
  rw [resolveMembers?, Option.bind_eq_bind, Option.bind_eq_some_iff] at h
  obtain ⟨r, hr, h⟩ := h
  obtain ⟨rest, hrest, h⟩ := Option.bind_eq_some_iff.mp h
  exact ⟨r, rest, hr, hrest, (Option.some.inj h).symm⟩

/-- An object stands for the number that it carries, or for what its members stand for. -/
theorem resolve?_obj_eq_some {members : List (String × Json)} {r : Json} (h : (obj members).resolve? = some r) :
    (∃ s n, members = [(numberKey, str s)] ∧ numeral? (Bytes.ofString s) = some n ∧ r = num n) ∨
    (members.head?.map Prod.fst ≠ some numberKey ∧
      ∃ ms, resolveMembers? members = some ms ∧ r = obj (sortMembers ms)) := by
  rw [resolve?] at h
  split at h
  · rename_i hfirst
    unfold carriedNumber? at h
    split at h
    · obtain ⟨n, hn, rfl⟩ := Option.map_eq_some_iff.mp h
      obtain rfl := Option.some.inj hfirst
      exact .inl ⟨_, n, rfl, hn, rfl⟩
    · cases h
  · rename_i hfirst
    obtain ⟨ms, hms, rfl⟩ := Option.map_eq_some_iff.mp h
    exact .inr ⟨hfirst, ms, hms, rfl⟩

mutual

theorem keysSorted_of_resolve? : ∀ {j r : Json}, j.resolve? = some r → r.KeysSorted
  | .arr items, r, h => by
    rw [resolve?, Option.map_eq_some_iff] at h
    obtain ⟨js, hjs, rfl⟩ := h
    exact itemsSorted_of_resolveItems? hjs
  | .obj members, r, h => by
    obtain ⟨_, _, -, -, rfl⟩ | ⟨-, ms, hms, rfl⟩ := resolve?_obj_eq_some h
    · trivial
    · obtain ⟨hs, hm⟩ := sortMembers_spec ms
      exact ⟨hs, membersSorted_iff.mpr fun m h =>
        membersSorted_iff.mp (membersSorted_of_resolveMembers? hms) m (hm m h)⟩
  | .null, _, h => by cases h; trivial
  | .bool _, _, h => by cases h; trivial
  | .num _, _, h => by cases h; trivial
  | .str _, _, h => by cases h; trivial

theorem itemsSorted_of_resolveItems? : ∀ {js rs : List Json}, resolveItems? js = some rs → ItemsSorted rs
  | [], _, h => by cases h; trivial
  | j :: js, rs, h => by
    obtain ⟨r, rest, hr, hrest, rfl⟩ := resolveItems?_cons_eq_some h
    exact ⟨keysSorted_of_resolve? hr, itemsSorted_of_resolveItems? hrest⟩

theorem membersSorted_of_resolveMembers? : ∀ {ms rs : List (String × Json)},
    resolveMembers? ms = some rs → MembersSorted rs
  | [], _, h => by cases h; trivial
  | (k, j) :: ms, rs, h => by
    obtain ⟨r, rest, hr, hrest, rfl⟩ := resolveMembers?_cons_eq_some h
    exact ⟨keysSorted_of_resolve? hr, membersSorted_of_resolveMembers? hrest⟩

end

theorem exists_members : ∀ {j : Option Json}, (j.any fun | .obj _ => true | _ => false) = true →
    ∃ members, j = some (.obj members)
  | some (.obj members), _ => ⟨members, rfl⟩

theorem keysSorted_of_parse? {text : String} {j : Json} (h : parse? text = some j) : j.KeysSorted := by
  obtain ⟨w, _, h⟩ := Option.bind_eq_some_iff.mp h
  exact keysSorted_of_resolve? h

theorem keysSorted_of_parseBytes? {v : Bytes} {j : Json} (h : parseBytes? v = some j) : j.KeysSorted := by
  obtain ⟨w, _, h⟩ := Option.bind_eq_some_iff.mp h
  exact keysSorted_of_resolve? h

theorem uniqueKeys_of_parse? {text : String} {j : Json} (h : parse? text = some j) : j.UniqueKeys :=
  (keysSorted_of_parse? h).uniqueKeys

theorem uniqueKeys_of_parseBytes? {v : Bytes} {j : Json} (h : parseBytes? v = some j) : j.UniqueKeys :=
  (keysSorted_of_parseBytes? h).uniqueKeys

end EventMatch.Json
