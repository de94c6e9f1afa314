import EventMatch.Proofs.Json.Keys

/-!
# Addresses in JSON values

An address is the steps from a value to a value in it. `Json.nodes` lists all values
in a value with their addresses: it has just the addresses at which there is a value
(`mem_nodes_iff`), and where keys are sorted it has them in the order in which a walk
comes to them (`pairwise_nodes`), a value before what is in it, and what is in
different members or items in the order of the keys or positions (`Precedes`).
-/

namespace EventMatch.Json

/-- A step into a value: to the member with a key, or to the item at an index. -/
inductive Step
  | key (k : String)
  | index (i : Nat)
deriving DecidableEq, Repr

/-- The steps to a value in a value, the outermost first. -/
abbrev Address := List Step

/-- The keys among the steps of an address. -/
def keysOf : Address → List String
  | [] => []
  | .key k :: a => k :: keysOf a
  | .index _ :: a => keysOf a

/-- The value one step into a value. -/
def child? : Json → Step → Option Json
  | obj members, .key k => members.lookup k
  | arr items, .index i => items[i]?
  | _, _ => none

/-- The value at an address. -/
def get? (j : Json) : Address → Option Json
  | [] => some j
  | s :: a => (j.child? s).bind fun x => x.get? a

/-- Whether the value is neither an object nor an array. -/
def isScalar : Json → Bool
  | obj _ | arr _ => false
  | _ => true

/-- Whether the value is an array. -/
def isArray : Json → Bool
  | arr _ => true
  | _ => false

theorem isArray_iff : ∀ {j : Json}, j.isArray = true ↔ ∃ items, j = arr items
  | arr items => iff_of_true rfl ⟨items, rfl⟩
  | obj _ | null | bool _ | num _ | str _ => iff_of_false Bool.false_ne_true fun ⟨_, h⟩ => by cases h

@[simp]
theorem get?_nil (j : Json) : j.get? [] = some j := rfl

theorem get?_cons (j : Json) (s : Step) (a : Address) :
    j.get? (s :: a) = (j.child? s).bind fun x => x.get? a := rfl

theorem get?_append : ∀ (j : Json) (a b : Address), j.get? (a ++ b) = (j.get? a).bind fun x => x.get? b
  | _, [], _ => rfl
  | j, s :: a, b => by
    rw [List.cons_append, get?_cons, get?_cons, Option.bind_assoc]
    exact congrArg _ (funext fun x => get?_append x a b)

/-- Nothing is in a scalar. -/
theorem child?_of_isScalar : ∀ {j : Json}, j.isScalar = true → ∀ s, j.child? s = none
  | null, _, _ | bool _, _, _ | num _, _, _ | str _, _, _ => rfl

/-- Only arrays have items. -/
theorem exists_arr_of_child? {j x : Json} {i : Nat} (h : j.child? (.index i) = some x) :
    ∃ items, j = arr items := by
  cases j <;> first | exact ⟨_, rfl⟩ | cases h

/-! ## All values in a value -/

/-- A value with the address at which it is. -/
abbrev Node := Address × Json

/-- The node with one more step before its own. -/
def Node.under (s : Step) (n : Node) : Node := (s :: n.1, n.2)

mutual

/-- The value and all values in it. -/
def nodes : Json → List Node
  | obj members => ([], obj members) :: memberNodes members
  | arr items => ([], arr items) :: itemNodes 0 items
  | scalar => [([], scalar)]

/-- The nodes of an object's members. -/
def memberNodes : List (String × Json) → List Node
  | [] => []
  | (k, j) :: ms => j.nodes.map (Node.under (.key k)) ++ memberNodes ms

/-- The nodes of an array's items from the one at `pos` on. -/
def itemNodes (pos : Nat) : List Json → List Node
  | [] => []
  | j :: js => j.nodes.map (Node.under (.index pos)) ++ itemNodes (pos + 1) js

end

theorem nodes_of_isScalar : ∀ {j : Json}, j.isScalar = true → j.nodes = [([], j)]
  | null, _ | bool _, _ | num _, _ | str _, _ => by rw [nodes] <;> intros <;> contradiction

theorem cons_mem_map_under {s t : Step} {a : Address} {x : Json} {ns : List Node} :
    (s :: a, x) ∈ ns.map (Node.under t) ↔ s = t ∧ (a, x) ∈ ns := by
  rw [List.mem_map]
  constructor
  · rintro ⟨n, hn, he⟩
    cases he
    exact ⟨rfl, hn⟩
  · rintro ⟨rfl, hn⟩
    exact ⟨_, hn, rfl⟩

theorem exists_key_of_mem_memberNodes {n : Node} : ∀ {ms : List (String × Json)}, n ∈ memberNodes ms →
    ∃ k ∈ ms.map Prod.fst, ∃ a, n.1 = .key k :: a
  | [], h => absurd h List.not_mem_nil
  | (k, j) :: ms, h => by
    rw [memberNodes] at h
    rcases List.mem_append.mp h with h | h
    · obtain ⟨m, -, rfl⟩ := List.mem_map.mp h
      exact ⟨k, List.mem_cons_self, m.1, rfl⟩
    · obtain ⟨l, hl, a⟩ := exists_key_of_mem_memberNodes h
      exact ⟨l, List.mem_cons_of_mem _ hl, a⟩

theorem exists_index_of_mem_itemNodes {n : Node} : ∀ {js : List Json} {pos : Nat}, n ∈ itemNodes pos js →
    ∃ i, pos ≤ i ∧ ∃ a, n.1 = .index i :: a
  | [], _, h => absurd h List.not_mem_nil
  | j :: js, pos, h => by
    rw [itemNodes] at h
    rcases List.mem_append.mp h with h | h
    · obtain ⟨m, -, rfl⟩ := List.mem_map.mp h
      exact ⟨pos, Nat.le_refl _, m.1, rfl⟩
    · obtain ⟨i, hi, a⟩ := exists_index_of_mem_itemNodes h
      exact ⟨i, Nat.le_of_succ_le hi, a⟩

mutual

/-- The nodes of a value are the values at its addresses. -/
theorem mem_nodes_iff : ∀ {j : Json} (_ : j.UniqueKeys) {a : Address} {x : Json},
    (a, x) ∈ j.nodes ↔ j.get? a = some x
  | .obj members, h, [], x => by
    have hnot : ([], x) ∉ memberNodes members := fun hm => by
      obtain ⟨_, _, _, he⟩ := exists_key_of_mem_memberNodes hm
      cases he
    rw [nodes, List.mem_cons, or_iff_left hnot, Prod.mk.injEq, get?_nil, Option.some.injEq, eq_comm (a := x)]
    exact and_iff_right rfl
  | .obj members, h, s :: a, x => by
    rw [nodes, List.mem_cons, or_iff_right fun he => List.cons_ne_nil s a (Prod.mk.inj he).1,
      mem_memberNodes_iff h.1 h.2, get?_cons, Option.bind_eq_some_iff]
  | .arr items, h, [], x => by
    have hnot : ([], x) ∉ itemNodes 0 items := fun hm => by
      obtain ⟨_, _, _, he⟩ := exists_index_of_mem_itemNodes hm
      cases he
    rw [nodes, List.mem_cons, or_iff_left hnot, Prod.mk.injEq, get?_nil, Option.some.injEq, eq_comm (a := x)]
    exact and_iff_right rfl
  | .arr items, h, s :: a, x => by
    rw [nodes, List.mem_cons, or_iff_right fun he => List.cons_ne_nil s a (Prod.mk.inj he).1,
      mem_itemNodes_iff h, get?_cons, Option.bind_eq_some_iff]
    constructor
    · rintro ⟨i, y, rfl, hy, hx⟩
      exact ⟨y, (Nat.zero_add i).symm ▸ hy, hx⟩
    · rintro ⟨y, hy, hx⟩
      cases s with
      | key k => cases hy
      | index i => exact ⟨i, y, by rw [Nat.zero_add], hy, hx⟩
  | .null, _, a, x | .bool _, _, a, x | .num _, _, a, x | .str _, _, a, x => by
    rw [nodes_of_isScalar rfl, List.mem_singleton, Prod.mk.injEq]
    cases a with
    | nil => exact (and_iff_right rfl).trans (eq_comm.trans (Option.some.injEq _ _ ▸ Iff.rfl))
    | cons s a =>
      refine iff_of_false (fun h => List.cons_ne_nil s a h.1) fun h => ?_
      rw [get?_cons, child?_of_isScalar rfl] at h
      cases h

theorem mem_memberNodes_iff : ∀ {ms : List (String × Json)} (_ : (ms.map Prod.fst).Nodup)
    (_ : MembersUnique ms) {s : Step} {a : Address} {x : Json},
    (s :: a, x) ∈ memberNodes ms ↔ ∃ y, (obj ms).child? s = some y ∧ y.get? a = some x
  | [], _, _, s, a, x => by
    refine iff_of_false List.not_mem_nil fun ⟨y, hy, _⟩ => ?_
    cases s <;> cases hy
  | (k, j) :: ms, hn, hu, s, a, x => by
    obtain ⟨hk, hn⟩ := List.nodup_cons.mp hn
    rw [memberNodes, List.mem_append, cons_mem_map_under, mem_nodes_iff hu.1, mem_memberNodes_iff hn hu.2]
    cases s with
    | index i => exact iff_of_false (by simp [child?]) (by simp [child?])
    | key l =>
      by_cases hl : l = k
      · subst hl
        have hnone : ms.lookup l = none := by
          rw [List.lookup_eq_none_iff]
          exact fun m hm => bne_iff_ne.mpr fun e => hk (List.mem_map.mpr ⟨m, hm, e.symm⟩)
        simp [child?, hnone]
      · have hcons : ((k, j) :: ms).lookup l = ms.lookup l := by rw [List.lookup_cons, beq_false_of_ne hl]
        simp [child?, hcons, hl]

theorem mem_itemNodes_iff : ∀ {js : List Json} (_ : ItemsUnique js) {pos : Nat} {s : Step} {a : Address}
    {x : Json}, (s :: a, x) ∈ itemNodes pos js ↔
      ∃ i y, s = .index (pos + i) ∧ js[i]? = some y ∧ y.get? a = some x
  | [], _, pos, s, a, x => iff_of_false List.not_mem_nil fun ⟨_, _, _, hy, _⟩ => by cases hy
  | j :: js, hu, pos, s, a, x => by
    rw [itemNodes, List.mem_append, cons_mem_map_under, mem_nodes_iff hu.1, mem_itemNodes_iff hu.2]
    constructor
    · rintro (⟨rfl, hx⟩ | ⟨i, y, rfl, hy, hx⟩)
      · exact ⟨0, j, rfl, rfl, hx⟩
      · exact ⟨i + 1, y, by rw [Nat.add_right_comm, Nat.add_assoc], hy, hx⟩
    · rintro ⟨i, y, rfl, hy, hx⟩
      cases i with
      | zero => exact .inl ⟨rfl, Option.some.inj hy ▸ hx⟩
      | succ i => exact .inr ⟨i, y, by rw [Nat.add_right_comm, Nat.add_assoc], hy, hx⟩

end

/-! ## The order of the walk -/

/-- Which of two steps into one value is taken first. -/
def Step.Before : Step → Step → Prop
  | .key k, .key l => Bytes.leString k l = true ∧ k ≠ l
  | .index i, .index j => i < j
  | _, _ => False

/-- Which of two addresses is come to first: a value before what is in it, and
otherwise by the first steps in which they differ. -/
abbrev Precedes : Address → Address → Prop := List.Lex Step.Before

theorem Step.Before.ne : ∀ {s t : Step}, s.Before t → s ≠ t
  | .key _, .key _, h => fun e => h.2 (Step.key.inj e)
  | .index _, .index _, h => fun e => Nat.ne_of_lt h (Step.index.inj e)

theorem Precedes.ne {a b : Address} (h : Precedes a b) : a ≠ b := by
  induction h with
  | nil => exact (List.cons_ne_nil _ _).symm
  | rel hst => exact fun e => hst.ne (List.cons.inj e).1
  | cons _ ih => exact fun e => ih (List.cons.inj e).2

theorem pairwise_map_under {s : Step} {ns : List Node} (h : ns.Pairwise fun m n => Precedes m.1 n.1) :
    (ns.map (Node.under s)).Pairwise fun m n => Precedes m.1 n.1 :=
  List.pairwise_map.mpr (h.imp .cons)

mutual

theorem pairwise_nodes : ∀ {j : Json}, j.KeysSorted → j.nodes.Pairwise fun m n => Precedes m.1 n.1
  | .obj members, h => by
    rw [nodes]
    refine List.pairwise_cons.mpr ⟨fun n hn => ?_, pairwise_memberNodes h.1 h.2⟩
    obtain ⟨k, -, a, he⟩ := exists_key_of_mem_memberNodes hn
    rw [he]
    exact .nil
  | .arr items, h => by
    rw [nodes]
    refine List.pairwise_cons.mpr ⟨fun n hn => ?_, pairwise_itemNodes h 0⟩
    obtain ⟨i, -, a, he⟩ := exists_index_of_mem_itemNodes hn
    rw [he]
    exact .nil
  | .null, _ | .bool _, _ | .num _, _ | .str _, _ => by
    rw [nodes_of_isScalar rfl]
    exact List.pairwise_singleton _ _

theorem pairwise_memberNodes : ∀ {ms : List (String × Json)}, SortedKeys ms → MembersSorted ms →
    (memberNodes ms).Pairwise fun m n => Precedes m.1 n.1
  | [], _, _ => .nil
  | (k, j) :: ms, hs, hm => by
    obtain ⟨hk, hs⟩ := List.pairwise_cons.mp hs
    rw [memberNodes]
    refine List.pairwise_append.mpr ⟨pairwise_map_under (pairwise_nodes hm.1), pairwise_memberNodes hs hm.2, ?_⟩
    rintro m hm n hn
    obtain ⟨m, -, rfl⟩ := List.mem_map.mp hm
    obtain ⟨l, hl, a, he⟩ := exists_key_of_mem_memberNodes hn
    obtain ⟨member, hmember, rfl⟩ := List.mem_map.mp hl
    rw [he]
    exact .rel (hk member hmember)

theorem pairwise_itemNodes : ∀ {js : List Json}, ItemsSorted js → ∀ pos,
    (itemNodes pos js).Pairwise fun m n => Precedes m.1 n.1
  | [], _, _ => .nil
  | j :: js, h, pos => by
    rw [itemNodes]
    refine List.pairwise_append.mpr ⟨pairwise_map_under (pairwise_nodes h.1), pairwise_itemNodes h.2 _, ?_⟩
    rintro m hm n hn
    obtain ⟨m, -, rfl⟩ := List.mem_map.mp hm
    obtain ⟨i, hi, a, he⟩ := exists_index_of_mem_itemNodes hn
    rw [he]
    exact .rel hi

end

end EventMatch.Json
