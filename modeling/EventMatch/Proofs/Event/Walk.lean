import EventMatch.Proofs.Event.Flatten
import EventMatch.Proofs.Json.Address
import Mathlib.Data.List.Nodup

/-!
# Flattening as a walk

The fields of an event are its scalars, in the order of their addresses
(`spots_eq`): the path of each is that of the keys in its address, and its trail
names the arrays that its address goes through. An array's number is one more than
its position among the array addresses of the event.

Of two scalars one is never on the way to the other, so their addresses part at a
value that both are in. Their trails conflict if and only if that value is an array
(`not_agree_iff`). `flatten_walk` puts both together for the flattener.
-/

namespace EventMatch

namespace Json

/-- A scalar as the value of a field. -/
def rendering : Json → Bytes
  | num n => Numeral.plainText n.spelling
  | scalar => Bytes.ofString scalar.text

/-- The elements of arrays that an address goes through, if `number` gives the number
of the array at an address. -/
def trail (number : Address → Nat) : Address → List ArrayPos
  | [] => []
  | .key k :: a => trail (fun p => number (.key k :: p)) a
  | .index i :: a => ⟨number [], i⟩ :: trail (fun p => number (.index i :: p)) a

/-- The scalars among nodes. -/
def leafNodes (ns : List Node) : List Node := ns.filter fun n => n.2.isScalar

/-- The addresses of the arrays among nodes. -/
def arrayAddresses (ns : List Node) : List Address := (ns.filter fun n => n.2.isArray).map Prod.fst

/-- The spot of a scalar. -/
def Node.spot (number : Address → Nat) (n : Node) : Spot := ⟨keysOf n.1, n.2.rendering, trail number n.1⟩

/-- The field of a scalar. -/
def Node.field (number : Address → Nat) (n : Node) : Field :=
  ⟨Path.ofKeys (keysOf n.1), n.2.rendering, trail number n.1⟩

/-! ## Numbers of arrays -/

/-- The arrays at the addresses have the numbers after `arrays`, one after the other. -/
def Counts (number : Address → Nat) (arrays : Nat) (as : List Address) : Prop :=
  as.map number = List.range' (arrays + 1) as.length

theorem counts_append {number : Address → Nat} {arrays : Nat} {as bs : List Address} :
    Counts number arrays (as ++ bs) ↔ Counts number arrays as ∧ Counts number (arrays + as.length) bs := by
  have hlen : (as.map number).length = (List.range' (arrays + 1) as.length).length := by
    rw [List.length_map, List.length_range']
  rw [Counts, Counts, Counts, List.map_append, List.length_append, ← List.range'_append_1,
    Nat.add_right_comm arrays 1, List.append_eq_append_iff_of_size_eq_left hlen]

theorem counts_map_cons {number : Address → Nat} {arrays : Nat} {s : Step} {as : List Address} :
    Counts number arrays (as.map (s :: ·)) ↔ Counts (fun p => number (s :: p)) arrays as := by
  rw [Counts, Counts, List.map_map, List.length_map]
  rfl

/-- Arrays that are numbered by their positions have the numbers from 1 on. -/
theorem counts_idxOf {as : List Address} (h : as.Nodup) : Counts (fun p => as.idxOf p + 1) 0 as := by
  refine List.ext_getElem (by rw [List.length_map, List.length_range']) fun i h₁ h₂ => ?_
  rw [List.getElem_map, List.getElem_range', h.idxOf_getElem]
  omega

theorem leafNodes_map_under (s : Step) (ns : List Node) :
    leafNodes (ns.map (Node.under s)) = (leafNodes ns).map (Node.under s) := List.filter_map ..

theorem arrayAddresses_map_under (s : Step) (ns : List Node) :
    arrayAddresses (ns.map (Node.under s)) = (arrayAddresses ns).map (s :: ·) := by
  rw [arrayAddresses, arrayAddresses, List.filter_map, List.map_map, List.map_map]
  rfl

theorem leafNodes_append (ns ms : List Node) : leafNodes (ns ++ ms) = leafNodes ns ++ leafNodes ms :=
  List.filter_append ..

theorem arrayAddresses_append (ns ms : List Node) :
    arrayAddresses (ns ++ ms) = arrayAddresses ns ++ arrayAddresses ms := by
  rw [arrayAddresses, List.filter_append, List.map_append]
  rfl

/-! ## Spots are scalars with their addresses -/

mutual

/-- The spots of a value are its scalars, and as many arrays are counted as it has. -/
theorem spots_eq : ∀ (j : Json) {arrays : Nat} {number : Address → Nat},
    Counts number arrays (arrayAddresses j.nodes) →
      j.spots arrays = ((leafNodes j.nodes).map (Node.spot number), arrays + (arrayAddresses j.nodes).length)
  | .obj members, arrays, number, h => by
    rw [nodes] at h ⊢
    rw [spots]
    exact memberSpots_eq members h
  | .arr items, arrays, number, h => by
    rw [nodes] at h ⊢
    rw [spots]
    have hself : arrayAddresses (([], .arr items) :: itemNodes 0 items) =
        [[]] ++ arrayAddresses (itemNodes 0 items) := rfl
    rw [hself] at h ⊢
    obtain ⟨hnumber, h⟩ := counts_append.mp h
    refine (itemSpots_eq items (List.cons.inj hnumber).1 h).trans ?_
    rw [List.length_append, ← Nat.add_assoc]
    rfl
  | .null, arrays, number, _ | .bool _, arrays, number, _ | .num _, arrays, number, _
  | .str _, arrays, number, _ => by
    rw [nodes_of_isScalar rfl]
    simp [spots, leafNodes, arrayAddresses, isScalar, isArray, Node.spot, keysOf, rendering, trail]

theorem memberSpots_eq : ∀ (ms : List (String × Json)) {arrays : Nat} {number : Address → Nat},
    Counts number arrays (arrayAddresses (memberNodes ms)) →
      memberSpots arrays ms = ((leafNodes (memberNodes ms)).map (Node.spot number),
        arrays + (arrayAddresses (memberNodes ms)).length)
  | [], arrays, number, _ => rfl
  | (k, j) :: ms, arrays, number, h => by
    rw [memberNodes, arrayAddresses_append, arrayAddresses_map_under] at h ⊢
    obtain ⟨hj, hms⟩ := counts_append.mp h
    rw [List.length_map] at hms
    rw [memberSpots, spots_eq j (counts_map_cons.mp hj)]
    dsimp only
    rw [memberSpots_eq ms hms, leafNodes_append, leafNodes_map_under]
    simp only [List.map_append, List.map_map, List.length_append, List.length_map, Nat.add_assoc]
    rfl

theorem itemSpots_eq : ∀ (js : List Json) {array pos arrays : Nat} {number : Address → Nat},
    number [] = array → Counts number arrays (arrayAddresses (itemNodes pos js)) →
      itemSpots array pos arrays js = ((leafNodes (itemNodes pos js)).map (Node.spot number),
        arrays + (arrayAddresses (itemNodes pos js)).length)
  | [], _, _, _, _, _, _ => rfl
  | j :: js, _, pos, arrays, number, rfl, h => by
    rw [itemNodes, arrayAddresses_append, arrayAddresses_map_under] at h ⊢
    obtain ⟨hj, hjs⟩ := counts_append.mp h
    rw [List.length_map] at hjs
    rw [itemSpots, spots_eq j (counts_map_cons.mp hj)]
    dsimp only
    rw [itemSpots_eq js rfl hjs, leafNodes_append, leafNodes_map_under]
    simp only [List.map_append, List.map_map, List.length_append, List.length_map, Nat.add_assoc]
    rfl

end

/-! ## Trails and the arrays on the way -/

/-- A trail names the elements that the address goes through, each by its array's number. -/
theorem mem_trail_iff {e : ArrayPos} : ∀ {number : Address → Nat} {a : Address},
    e ∈ trail number a ↔ ∃ (p : Address) (i : Nat), p ++ [.index i] <+: a ∧ e = ⟨number p, i⟩
  | number, [] => by
    refine iff_of_false List.not_mem_nil fun ⟨p, i, hp, _⟩ => ?_
    exact List.append_ne_nil_of_right_ne_nil p (List.cons_ne_nil _ _) (List.prefix_nil.mp hp)
  | number, s :: a => by
    have hstep : (∃ (p : Address) (i : Nat), p ++ [.index i] <+: s :: a ∧ e = ⟨number p, i⟩) ↔
        (∃ i : Nat, s = .index i ∧ e = ⟨number [], i⟩) ∨
          ∃ (p : Address) (i : Nat), p ++ [.index i] <+: a ∧ e = ⟨number (s :: p), i⟩ := by
      constructor
      · rintro ⟨p, i, hp, he⟩
        cases p with
        | nil => exact .inl ⟨i, (List.cons_prefix_cons.mp hp).1.symm, he⟩
        | cons t p =>
          obtain ⟨rfl, hp'⟩ := List.cons_prefix_cons.mp hp
          exact .inr ⟨p, i, hp', he⟩
      · rintro (⟨i, rfl, he⟩ | ⟨p, i, hp, he⟩)
        · exact ⟨[], i, List.cons_prefix_cons.mpr ⟨rfl, List.nil_prefix⟩, he⟩
        · exact ⟨s :: p, i, List.cons_prefix_cons.mpr ⟨rfl, hp⟩, he⟩
    rw [hstep]
    cases s with
    | key k => rw [trail, mem_trail_iff]; simp
    | index i => rw [trail, List.mem_cons, mem_trail_iff]; simp

/-- Two lists of which neither begins with the other part at some place. -/
theorem exists_fork {α : Type} : ∀ {a b : List α}, ¬ a <+: b → ¬ b <+: a →
    ∃ p s t a' b', a = p ++ s :: a' ∧ b = p ++ t :: b' ∧ s ≠ t
  | [], _, h, _ => absurd List.nil_prefix h
  | _ :: _, [], _, h => absurd List.nil_prefix h
  | s :: a, t :: b, hab, hba => by
    by_cases hst : s = t
    · subst hst
      obtain ⟨p, u, v, a', b', rfl, rfl, huv⟩ := exists_fork
        (fun h => hab (List.cons_prefix_cons.mpr ⟨rfl, h⟩)) (fun h => hba (List.cons_prefix_cons.mpr ⟨rfl, h⟩))
      exact ⟨s :: p, u, v, a', b', rfl, rfl, huv⟩
    · exact ⟨[], s, t, a, b, rfl, rfl, hst⟩

/-- Beyond the place where two lists part they have no beginning in common. -/
theorem prefix_fork_iff {α : Type} {s t : α} (hst : s ≠ t) {a b : List α} : ∀ {p q : List α},
    q <+: p ↔ q <+: p ++ s :: a ∧ q <+: p ++ t :: b
  | p, [] => iff_of_true List.nil_prefix ⟨List.nil_prefix, List.nil_prefix⟩
  | [], u :: q => by
    refine iff_of_false (fun h => List.cons_ne_nil _ _ (List.prefix_nil.mp h)) fun ⟨h₁, h₂⟩ => hst ?_
    exact (List.cons_prefix_cons.mp h₁).1.symm.trans (List.cons_prefix_cons.mp h₂).1
  | v :: p, u :: q => by
    rw [List.cons_append, List.cons_append, List.cons_prefix_cons, List.cons_prefix_cons, List.cons_prefix_cons,
      ← and_and_left]
    exact and_congr_right fun _ => prefix_fork_iff hst

section

variable {j : Json} {number : Address → Nat}

/-- Every array that an address goes through has an item there. -/
theorem exists_arr_of_prefix {a p : Address} {i : Nat} {x : Json} (h : j.get? a = some x)
    (hp : p ++ [.index i] <+: a) : ∃ items, j.get? p = some (.arr items) := by
  obtain ⟨b, rfl⟩ := hp
  rw [List.append_assoc, get?_append, Option.bind_eq_some_iff] at h
  obtain ⟨y, hy, h⟩ := h
  rw [List.singleton_append, get?_cons, Option.bind_eq_some_iff] at h
  obtain ⟨z, hz, -⟩ := h
  obtain ⟨items, rfl⟩ := exists_arr_of_child? hz
  exact ⟨items, hy⟩

/-- The addresses of two scalars part. -/
theorem not_prefix_of_isScalar {a b : Address} {x y : Json} (ha : j.get? a = some x) (hx : x.isScalar = true)
    (hb : j.get? b = some y) (hab : a ≠ b) : ¬ a <+: b := by
  rintro ⟨c, rfl⟩
  rw [get?_append, ha, Option.bind_some] at hb
  cases c with
  | nil => exact hab (List.append_nil a).symm
  | cons s c =>
    rw [get?_cons, child?_of_isScalar hx] at hb
    cases hb

/-- Where two addresses part, their trails conflict if and only if they part at an
array. -/
theorem not_agree_iff (hinj : ∀ p q items items', j.get? p = some (.arr items) →
      j.get? q = some (.arr items') → number p = number q → p = q)
    {p a b : Address} {s t : Step} (hst : s ≠ t) {x y : Json} (hx : j.get? (p ++ s :: a) = some x)
    (hy : j.get? (p ++ t :: b) = some y) :
    ¬ Agree (trail number (p ++ s :: a)) (trail number (p ++ t :: b)) ↔
      ∃ items, j.get? p = some (.arr items) := by
  constructor
  · intro h
    simp only [Agree, not_forall] at h
    obtain ⟨e, he, f, hf, harray, hpos⟩ := h
    obtain ⟨q, i, hq, rfl⟩ := mem_trail_iff.mp he
    obtain ⟨q', i', hq', rfl⟩ := mem_trail_iff.mp hf
    obtain ⟨items, hitems⟩ := exists_arr_of_prefix hx hq
    obtain ⟨items', hitems'⟩ := exists_arr_of_prefix hy hq'
    obtain rfl := hinj q q' items items' hitems hitems' (Int.ofNat_inj.mp harray)
    obtain ⟨r, rfl⟩ := (prefix_fork_iff hst).mpr
      ⟨(List.prefix_append q _).trans hq, (List.prefix_append q _).trans hq'⟩
    cases r with
    | nil => exact ⟨items, by rwa [List.append_nil]⟩
    | cons u r =>
      -- Both addresses would go through the same item of this array.
      rw [List.append_assoc, List.prefix_append_right_inj, List.cons_append, List.cons_prefix_cons] at hq hq'
      exact absurd (congrArg Int.ofNat (Step.index.inj (hq.1.trans hq'.1.symm))) hpos
  · rintro ⟨items, hp⟩ h
    have hindex : ∀ {u : Step} {c : Address} {z : Json}, j.get? (p ++ u :: c) = some z → ∃ i, u = .index i := by
      intro u c z hz
      rw [get?_append, hp, Option.bind_some, get?_cons] at hz
      cases u with
      | key k => cases hz
      | index i => exact ⟨i, rfl⟩
    obtain ⟨i, rfl⟩ := hindex hx
    obtain ⟨i', rfl⟩ := hindex hy
    have hmem : ∀ (i : Nat) (c : Address), (⟨number p, i⟩ : ArrayPos) ∈ trail number (p ++ .index i :: c) :=
      fun i c => mem_trail_iff.mpr ⟨p, i, ⟨c, List.append_assoc p [.index i] c⟩, rfl⟩
    exact hst (congrArg Step.index (Int.ofNat_inj.mp (h _ (hmem i a) _ (hmem i' b) rfl)))

end

/-! ## The flattener -/

theorem mem_leafNodes_iff {j : Json} (h : j.UniqueKeys) {n : Node} :
    n ∈ leafNodes j.nodes ↔ j.get? n.1 = some n.2 ∧ n.2.isScalar = true := by
  rw [leafNodes, List.mem_filter, ← mem_nodes_iff h]

theorem mem_arrayAddresses_iff {j : Json} (h : j.UniqueKeys) {a : Address} :
    a ∈ arrayAddresses j.nodes ↔ ∃ items, j.get? a = some (.arr items) := by
  rw [arrayAddresses, List.mem_map]
  constructor
  · rintro ⟨n, hn, rfl⟩
    obtain ⟨hn, harr⟩ := List.mem_filter.mp hn
    obtain ⟨items, he⟩ := isArray_iff.mp harr
    exact ⟨items, he ▸ (mem_nodes_iff h).mp hn⟩
  · rintro ⟨items, ha⟩
    exact ⟨(a, .arr items), List.mem_filter.mpr ⟨(mem_nodes_iff h).mpr ha, rfl⟩, rfl⟩

theorem pairwise_arrayAddresses {j : Json} (h : j.KeysSorted) : (arrayAddresses j.nodes).Pairwise Precedes :=
  List.pairwise_map.mpr ((pairwise_nodes h).sublist List.filter_sublist)

/-- The flattener gives the scalars of an event, in the order of the walk and sorted
stably by path: each with the path of its keys, its rendering and the elements that
its address goes through, the arrays numbered from 1 in the order of the walk. Two
fields are from different elements of one array if and only if the innermost value
that both lie in is an array. -/
theorem flatten_walk {event : Bytes} {members : List (String × Json)}
    (h : parseBytes? event = some (.obj members)) :
    let j := Json.obj members
    let leaves := leafNodes j.nodes
    let arrays := arrayAddresses j.nodes
    let field := Node.field fun p => arrays.idxOf p + 1
    ((∀ n, n ∈ leaves ↔ j.get? n.1 = some n.2 ∧ n.2.isScalar = true) ∧
      leaves.Pairwise fun m n => Precedes m.1 n.1) ∧
    ((∀ a, a ∈ arrays ↔ ∃ items, j.get? a = some (.arr items)) ∧ arrays.Pairwise Precedes) ∧
    (∃ fields, flatten event = .ok fields ∧ Bytes.StablySorted Field.path (leaves.map field) fields) ∧
    ∀ m ∈ leaves, ∀ n ∈ leaves, m.1 ≠ n.1 →
      ∃ p : Address, (∀ q, q <+: p ↔ q <+: m.1 ∧ q <+: n.1) ∧
        ((field m).compatible (field n) = false ↔ ∃ items, j.get? p = some (.arr items)) := by
  intro j leaves arrays field
  have hsorted : j.KeysSorted := keysSorted_of_parseBytes? h
  have hunique := hsorted.uniqueKeys
  have harrays : arrays.Pairwise Precedes := pairwise_arrayAddresses hsorted
  refine ⟨⟨fun n => mem_leafNodes_iff hunique, (pairwise_nodes hsorted).sublist List.filter_sublist⟩,
    ⟨fun a => mem_arrayAddresses_iff hunique, harrays⟩, ⟨_, by rw [flatten, h], ?_⟩, ?_⟩
  · have hfields : (j.leaves "" [] 0).1 = leaves.map field := by
      rw [leaves_eq_spots, spots_eq j (counts_idxOf (harrays.imp Precedes.ne)), List.map_map]
      rfl
    rw [fields, Field.sortByPath, hfields]
    exact Bytes.stablySorted_mergeSort Field.path _
  · rintro ⟨a, x⟩ hm ⟨b, y⟩ hn hab
    obtain ⟨hx, hxs⟩ := (mem_leafNodes_iff hunique).mp hm
    obtain ⟨hy, hys⟩ := (mem_leafNodes_iff hunique).mp hn
    obtain ⟨p, s, t, a', b', rfl, rfl, hst⟩ := exists_fork (not_prefix_of_isScalar hx hxs hy hab)
      (not_prefix_of_isScalar hy hys hx (Ne.symm hab))
    refine ⟨p, fun q => prefix_fork_iff hst, ?_⟩
    rw [← Bool.not_eq_true, Field.compatible_iff]
    refine not_agree_iff (fun q q' items items' hq hq' he => ?_) hst hx hy
    exact (List.idxOf_inj ((mem_arrayAddresses_iff hunique).mpr ⟨items, hq⟩)).mp (Nat.succ_inj.mp he)

/-- The walk comes to `a` first, and the empty array there is the second of the event. -/
theorem flatten_walk_nested : ∃ members fields,
    parseBytes? (Bytes.ofString "\x7b\"b\":[true,[null]],\"a\":[[],false]\x7d") = some (.obj members) ∧
      flatten (Bytes.ofString "\x7b\"b\":[true,[null]],\"a\":[[],false]\x7d") = .ok fields ∧
      Bytes.StablySorted Field.path [⟨"a", Bytes.ofString "false", [⟨1, 1⟩]⟩, ⟨"b", Bytes.ofString "true", [⟨3, 0⟩]⟩,
        ⟨"b", Bytes.ofString "null", [⟨3, 1⟩, ⟨4, 0⟩]⟩] fields := by
  have hleaves : (parseBytes? (Bytes.ofString "\x7b\"b\":[true,[null]],\"a\":[[],false]\x7d")).map
      (fun j => (leafNodes j.nodes).map (Node.field fun p => (arrayAddresses j.nodes).idxOf p + 1)) =
        some [⟨"a", Bytes.ofString "false", [⟨1, 1⟩]⟩, ⟨"b", Bytes.ofString "true", [⟨3, 0⟩]⟩,
          ⟨"b", Bytes.ofString "null", [⟨3, 1⟩, ⟨4, 0⟩]⟩] := by
    decide +kernel
  obtain ⟨members, hj⟩ : ∃ members,
      parseBytes? (Bytes.ofString "\x7b\"b\":[true,[null]],\"a\":[[],false]\x7d") = some (.obj members) :=
    exists_members (by decide +kernel)
  rw [hj] at hleaves
  obtain ⟨-, -, ⟨fields, hfields, hsorted⟩, -⟩ := flatten_walk hj
  exact ⟨members, fields, hj, hfields, Option.some.inj hleaves ▸ hsorted⟩

end Json

end EventMatch
