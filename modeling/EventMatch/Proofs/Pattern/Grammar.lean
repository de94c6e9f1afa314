import EventMatch.Proofs.Json.Address
import EventMatch.Proofs.Json.Writing
import EventMatch.Proofs.Numeral.Key
import EventMatch.Proofs.Numeric.Clause
import EventMatch.Proofs.Path

/-!
# The grammar of patterns

`Pattern.Denotes` says which items may stand in the array of a field and for which
values, and `Pattern.ItemFault` what is wrong with each of the others; every number
denotes a value. The members that are no objects, on all levels, are the `branches`
of a pattern. Reading a pattern reads these one after the other (`fieldsAt_eq_mapM`),
so it fails at the first of them that is no array of such items, if there is one, and
otherwise has one field for each (`parse_grammar`).
-/

namespace EventMatch

namespace Pattern

/-! ## Items -/

/-- What an item in the array of a field says that the field's value may be. -/
inductive Denotes : Json → ValueSpec → Prop
  | null : Denotes .null (.literal (Bytes.ofString Json.null.text))
  | bool (b : Bool) : Denotes (.bool b) (.literal (Bytes.ofString (Json.bool b).text))
  | str (s : String) : Denotes (.str s) (.literal (Bytes.ofString (Json.str s).text))
  /-- A number with a key stands for all numbers with this key. -/
  | number {n : Numeral} (h : n.HasKey) : Denotes (.num n) (.number (Numeral.keyDigits n.keyOf))
  /-- A number without a key stands for those with its plain text. -/
  | plain {n : Numeral} (h : ¬ n.HasKey) : Denotes (.num n) (.literal (Numeral.plainText n.spelling))
  | numeric {items : List Json} {cs : List NumericConstraint} (hne : items ≠ [])
      (h : NumericClause.Spells items cs) : Denotes (.obj [("numeric", .arr items)]) (.numeric ⟨cs⟩)
  | extension (arg : Json) : Denotes (.obj [("extension", arg)]) (.extension arg.text)

/-- What is wrong with an item in the array of the field at a path. -/
inductive ItemFault (path : String) : Json → MatchError → Prop
  | nestedArray (items : List Json) : ItemFault path (.arr items) (.pattern (.nestedArray path))
  | operatorKeys {members : List (String × Json)} (h : members.length ≠ 1) :
      ItemFault path (.obj members) (.pattern (.operatorKeys path))
  | unknownOperator {name : String} (arg : Json) (h₁ : name ≠ "numeric") (h₂ : name ≠ "extension") :
      ItemFault path (.obj [(name, arg)]) (.pattern (.unknownOperator name path))
  | numericNotArray {found : Json} (h : found.isArray = false) :
      ItemFault path (.obj [("numeric", found)]) (.pattern (.numericNotArray found))
  | clause {items : List Json} {e : MatchError} (h : NumericClause.ofJson items = .error e) :
      ItemFault path (.obj [("numeric", .arr items)]) e

theorem denotes_or_itemFault (path : String) : ∀ j : Json, (∃ v, Denotes j v) ∨ ∃ e, ItemFault path j e
  | .null => .inl ⟨_, .null⟩
  | .bool b => .inl ⟨_, .bool b⟩
  | .str s => .inl ⟨_, .str s⟩
  | .num n => .inl (by
    by_cases h : n.HasKey
    · exact ⟨_, .number h⟩
    · exact ⟨_, .plain h⟩)
  | .arr items => .inr ⟨_, .nestedArray items⟩
  | .obj [] => .inr ⟨_, .operatorKeys (by decide)⟩
  | .obj (_ :: _ :: _) => .inr ⟨_, .operatorKeys (by simp)⟩
  | .obj [(name, arg)] => by
    by_cases hnumeric : name = "numeric"
    · subst hnumeric
      cases arg with
      | arr items =>
        cases hc : NumericClause.ofJson items with
        | ok c =>
          obtain ⟨hne, h⟩ := NumericClause.ofJson_eq_ok_iff.mp hc
          exact .inl ⟨_, .numeric hne h⟩
        | error e => exact .inr ⟨e, .clause hc⟩
      | null | bool _ | num _ | str _ | obj _ => exact .inr ⟨_, .numericNotArray rfl⟩
    · by_cases hextension : name = "extension"
      · subst hextension
        exact .inl ⟨_, .extension arg⟩
      · exact .inr ⟨_, .unknownOperator arg hnumeric hextension⟩

theorem value_of_denotes (path : String) {j : Json} {v : ValueSpec} (h : Denotes j v) : value path j = .ok v := by
  cases h with
  | null | bool _ | str _ => rfl
  | number h => rw [value, number, Numeral.canonical_spelling_of_hasKey h]
  | plain h =>
    obtain ⟨e, he⟩ := Numeral.canonical_error_of_not_hasKey h
    rw [value, number, he]
  | numeric hne h =>
    show (NumericClause.ofJson _).map ValueSpec.numeric = _
    rw [NumericClause.ofJson_eq_ok_iff.mpr ⟨hne, h⟩]
    rfl
  | extension arg => rfl

theorem value_of_itemFault {path : String} {j : Json} {e : MatchError} (h : ItemFault path j e) :
    value path j = .error e := by
  cases h with
  | nestedArray => rfl
  | operatorKeys h =>
    rename_i members
    match members, h with
    | [], _ => rfl
    | _ :: _ :: _, _ => rfl
    | [_], h => exact absurd rfl h
  | unknownOperator arg h₁ h₂ =>
    show operator path _ arg = _
    unfold operator
    rw [if_neg h₁, if_neg h₂]
  | numericNotArray h =>
    rename_i found
    cases found with
    | arr items => cases h
    | null | bool _ | num _ | str _ | obj _ => rfl
  | clause h =>
    show (NumericClause.ofJson _).map ValueSpec.numeric = _
    rw [h]
    rfl

theorem value_eq_ok_iff {path : String} {j : Json} {v : ValueSpec} : value path j = .ok v ↔ Denotes j v := by
  refine ⟨fun h => ?_, value_of_denotes path⟩
  rcases denotes_or_itemFault path j with ⟨w, hw⟩ | ⟨e, he⟩
  · exact Except.ok.inj ((value_of_denotes path hw).symm.trans h) ▸ hw
  · cases (value_of_itemFault he).symm.trans h

theorem value_eq_error_iff {path : String} {j : Json} {e : MatchError} :
    value path j = .error e ↔ ItemFault path j e := by
  refine ⟨fun h => ?_, value_of_itemFault⟩
  rcases denotes_or_itemFault path j with ⟨w, hw⟩ | ⟨e', he⟩
  · cases (value_of_denotes path hw).symm.trans h
  · exact Except.error.inj ((value_of_itemFault he).symm.trans h) ▸ he

end Pattern

/-! ## Branches -/

namespace Json

/-- Whether the step leads to a member. -/
def Step.isKey : Step → Bool
  | .key _ => true
  | .index _ => false

/-- Whether the value is an object. -/
def isObject : Json → Bool
  | obj _ => true
  | _ => false

/-- The nodes to which members alone lead and which are no objects. -/
def branches (ns : List Node) : List Node := ns.filter fun n => n.1.all Step.isKey && !n.2.isObject

theorem branches_map_under_key (k : String) (ns : List Node) :
    branches (ns.map (Node.under (.key k))) = (branches ns).map (Node.under (.key k)) := List.filter_map ..

theorem branches_itemNodes (pos : Nat) (items : List Json) : branches (itemNodes pos items) = [] :=
  List.filter_eq_nil_iff.mpr fun n hn => by
    obtain ⟨i, -, a, he⟩ := exists_index_of_mem_itemNodes hn
    rw [he]
    exact Bool.false_ne_true

theorem branches_nodes_arr (items : List Json) : branches (nodes (.arr items)) = [([], .arr items)] := by
  rw [nodes]
  exact congrArg (([], Json.arr items) :: ·) (branches_itemNodes 0 items)

theorem branches_nodes_obj (members : List (String × Json)) :
    branches (nodes (.obj members)) = branches (memberNodes members) := by
  rw [nodes]
  rfl

theorem mem_branches_iff {j : Json} (h : j.UniqueKeys) {n : Node} : n ∈ branches j.nodes ↔
    j.get? n.1 = some n.2 ∧ n.1.all Step.isKey = true ∧ n.2.isObject = false := by
  rw [branches, List.mem_filter, ← mem_nodes_iff h, Bool.and_eq_true, Bool.not_eq_true']

end Json

namespace Pattern

open Json (Node branches keysOf)

/-- The field that a branch is, if a path leads to the value that it is in. -/
def branchField (path : String) (n : Node) : Except MatchError PatternField :=
  match n.2 with
  | .arr items => field ((keysOf n.1).foldl Path.extend path) items
  | found => .error (.pattern (.notArray ((keysOf n.1).foldl Path.extend path) found))

mutual

/-- The fields of a value are read from its branches, one after the other. -/
theorem fieldsAt_eq_mapM : ∀ (j : Json) (path : String),
    fieldsAt path j = (branches j.nodes).mapM (branchField path)
  | .obj members, path => by
    rw [fieldsAt, Json.branches_nodes_obj]
    exact fieldsOf_eq_mapM members path
  | .arr items, path => by
    rw [fieldsAt, Json.branches_nodes_arr, List.mapM_cons, List.mapM_nil]
    show _ = field path items >>= _
    cases field path items <;> rfl
  | .null, path | .bool _, path | .num _, path | .str _, path => by
    unfold fieldsAt
    rw [Json.nodes_of_isScalar rfl]
    rfl

theorem fieldsOf_eq_mapM : ∀ (ms : List (String × Json)) (path : String),
    fieldsOf path ms = (branches (Json.memberNodes ms)).mapM (branchField path)
  | [], path => rfl
  | (k, j) :: ms, path => by
    have hunder : branchField path ∘ Node.under (.key k) = branchField (Path.extend path k) := rfl
    have happend : branches (Json.memberNodes ((k, j) :: ms)) =
        (branches j.nodes).map (Node.under (.key k)) ++ branches (Json.memberNodes ms) := by
      rw [Json.memberNodes, branches, List.filter_append, ← branches, ← branches, Json.branches_map_under_key]
    rw [fieldsOf, fieldsAt_eq_mapM j, fieldsOf_eq_mapM ms, happend, List.mapM_append, List.mapM_map, hunder]
    rfl

end

/-- The field that a branch is: an array of items that each denote a value. -/
def IsField (n : Node) (f : PatternField) : Prop :=
  f.path = Path.ofKeys (keysOf n.1) ∧
    ∃ items, n.2 = .arr items ∧ items ≠ [] ∧ List.Forall₂ Denotes items f.values

/-- What is wrong with the branch at a path. -/
inductive BranchFault (path : String) : Json → MatchError → Prop
  | notArray {found : Json} (h : found.isArray = false) :
      BranchFault path found (.pattern (.notArray path found))
  | noValues : BranchFault path (.arr []) (.pattern (.noValues path))
  /-- The first item that denotes nothing. -/
  | item {front : List Json} {j : Json} {back : List Json} {e : MatchError}
      (hfront : ∀ i ∈ front, ∃ v, Denotes i v) (h : ItemFault path j e) :
      BranchFault path (.arr (front ++ j :: back)) e

theorem branchField_eq_ok_iff {n : Node} {f : PatternField} : branchField "" n = .ok f ↔ IsField n f := by
  obtain ⟨a, x⟩ := n
  cases x with
  | arr items =>
    show field (Path.ofKeys (keysOf a)) items = .ok f ↔ _
    unfold field
    by_cases hempty : items.isEmpty = true
    · rw [if_pos hempty]
      refine iff_of_false nofun fun ⟨_, items', he, hne, _⟩ => hne ?_
      rw [← Json.arr.inj he]
      exact List.isEmpty_iff.mp hempty
    · rw [if_neg hempty, Except.map_eq_ok]
      constructor
      · rintro ⟨vs, hvs, rfl⟩
        exact ⟨rfl, items, rfl, fun h => hempty (List.isEmpty_iff.mpr h),
          (Except.mapM_eq_ok.mp hvs).imp fun _ _ => value_eq_ok_iff.mp⟩
      · rintro ⟨hpath, items', he, -, hvalues⟩
        obtain rfl := Json.arr.inj he
        refine ⟨f.values, Except.mapM_eq_ok.mpr (hvalues.imp fun _ _ => value_eq_ok_iff.mpr), ?_⟩
        rw [← show f.path = Path.ofKeys (keysOf a) from hpath]
  | null | bool _ | num _ | str _ | obj _ => exact iff_of_false nofun fun ⟨_, _, he, _⟩ => by cases he

theorem branchField_eq_error_iff {n : Node} {e : MatchError} :
    branchField "" n = .error e ↔ BranchFault (Path.ofKeys (keysOf n.1)) n.2 e := by
  obtain ⟨a, x⟩ := n
  cases x with
  | arr items =>
    show field (Path.ofKeys (keysOf a)) items = .error e ↔ BranchFault (Path.ofKeys (keysOf a)) (.arr items) e
    unfold field
    cases items with
    | nil =>
      refine ⟨fun h => Except.error.inj h ▸ .noValues, fun h => ?_⟩
      generalize hx : Json.arr [] = x at h
      cases h with
      | noValues => rfl
      | notArray h => cases hx; cases h
      | item _ _ => exact absurd (Json.arr.inj hx).symm (List.append_ne_nil_of_right_ne_nil _ (List.cons_ne_nil _ _))
    | cons i items =>
      rw [if_neg (show ¬ ((i :: items).isEmpty = true) from Bool.false_ne_true), Except.map_eq_error,
        Except.mapM_eq_error]
      constructor
      · rintro ⟨front, j, back, hitems, hfront, hj⟩
        rw [hitems]
        exact .item (fun i hi => (hfront i hi).imp fun _ => value_eq_ok_iff.mp) (value_eq_error_iff.mp hj)
      · intro h
        generalize hx : Json.arr (i :: items) = x at h
        cases h with
        | noValues => cases hx
        | notArray h => cases hx; cases h
        | item hfront hj =>
          exact ⟨_, _, _, Json.arr.inj hx, fun i hi => (hfront i hi).imp fun _ => value_eq_ok_iff.mpr,
            value_eq_error_iff.mpr hj⟩
  | null | bool _ | num _ | str _ | obj _ =>
    constructor
    · intro h
      exact Except.error.inj h ▸ .notArray rfl
    · rintro ⟨-⟩
      rfl

/-! ## Patterns -/

theorem exists_isField_iff {n : Node} : (∃ f, IsField n f) ↔
    ∃ items, n.2 = .arr items ∧ items ≠ [] ∧ ∀ i ∈ items, ∃ v, Denotes i v := by
  constructor
  · rintro ⟨f, -, items, hn, hne, hvalues⟩
    exact ⟨items, hn, hne, exists_forall₂_iff.mp ⟨_, hvalues⟩⟩
  · rintro ⟨items, hn, hne, hitems⟩
    obtain ⟨vs, hvs⟩ := exists_forall₂_iff.mpr hitems
    exact ⟨⟨_, vs⟩, rfl, items, hn, hne, hvs⟩

section

variable {text : String} {members : List (String × Json)}

theorem parse_of_obj (h : Json.parse? text = some (.obj members)) :
    parse text = (branches (Json.obj members).nodes).mapM (branchField "") >>= fun fs =>
      if fs.isEmpty then .error (.pattern .noFields) else .ok (sortByPath fs) := by
  rw [parse, h, Json.branches_nodes_obj, ← fieldsOf_eq_mapM]
  rfl

theorem parse_eq_ok_iff (h : Json.parse? text = some (.obj members)) {fields : List PatternField} :
    parse text = .ok fields ↔
      ∃ fs, List.Forall₂ IsField (branches (Json.obj members).nodes) fs ∧ fs ≠ [] ∧ fields = sortByPath fs := by
  rw [parse_of_obj h, Except.bind_eq_ok]
  refine exists_congr fun fs => and_congr ?_ ?_
  · rw [Except.mapM_eq_ok]
    simp only [branchField_eq_ok_iff]
  · cases fs with
    | nil => exact iff_of_false nofun fun h => h.1 rfl
    | cons f fs =>
      exact ⟨fun h => ⟨List.cons_ne_nil f fs, (Except.ok.inj h).symm⟩, fun h => h.2 ▸ rfl⟩

theorem parse_eq_error_iff (h : Json.parse? text = some (.obj members)) {e : MatchError} :
    parse text = .error e ↔
      (∃ front n back, branches (Json.obj members).nodes = front ++ n :: back ∧ (∀ m ∈ front, ∃ f, IsField m f) ∧
        BranchFault (Path.ofKeys (keysOf n.1)) n.2 e) ∨
      branches (Json.obj members).nodes = [] ∧ e = .pattern .noFields := by
  have hfault : (branches (Json.obj members).nodes).mapM (branchField "") = .error e ↔ ∃ front n back,
      branches (Json.obj members).nodes = front ++ n :: back ∧ (∀ m ∈ front, ∃ f, IsField m f) ∧
        BranchFault (Path.ofKeys (keysOf n.1)) n.2 e := by
    rw [Except.mapM_eq_error]
    simp only [branchField_eq_ok_iff, branchField_eq_error_iff]
  rw [parse_of_obj h, ← hfault]
  cases hwalk : (branches (Json.obj members).nodes).mapM (branchField "") with
  | error e' =>
    refine ⟨.inl, fun h => h.elim id fun h => ?_⟩
    rw [h.1] at hwalk
    cases hwalk
  | ok fs =>
    have hlen := (Except.mapM_eq_ok.mp hwalk).length_eq
    rw [or_iff_right nofun, ← List.length_eq_zero_iff, hlen, List.length_eq_zero_iff]
    cases fs with
    | nil => exact ⟨fun h => ⟨rfl, (Except.error.inj h).symm⟩, fun h => h.2 ▸ rfl⟩
    | cons f fs => exact iff_of_false nofun fun h => List.cons_ne_nil f fs h.1

end

/-- A text is read as a pattern if and only if it is read as an object with some
branches, all of which are arrays of items that denote values; the pattern has one
field for each, sorted stably by path. Any other object has the fault of the first
branch in the walk that is no such array, or no fields at all. A number always denotes
a value. -/
theorem parse_grammar (text : String) :
    ((∃ fields, parse text = .ok fields) ↔ ∃ members, Json.parse? text = some (.obj members) ∧
      branches (Json.obj members).nodes ≠ [] ∧ ∀ n ∈ branches (Json.obj members).nodes,
        ∃ items, n.2 = .arr items ∧ items ≠ [] ∧ ∀ i ∈ items, ∃ v, Denotes i v) ∧
    (∀ members, Json.parse? text = some (.obj members) →
      let walk := branches (Json.obj members).nodes
      ((∀ n, n ∈ walk ↔ (Json.obj members).get? n.1 = some n.2 ∧ n.1.all Json.Step.isKey = true ∧
          n.2.isObject = false) ∧ walk.Pairwise fun m n => Json.Precedes m.1 n.1) ∧
      (∀ fields, parse text = .ok fields →
        ∃ fs, List.Forall₂ IsField walk fs ∧ Bytes.StablySorted PatternField.path fs fields) ∧
      ∀ e, parse text = .error e ↔
        (∃ front n back, walk = front ++ n :: back ∧ (∀ m ∈ front, ∃ f, IsField m f) ∧
          BranchFault (Path.ofKeys (keysOf n.1)) n.2 e) ∨ walk = [] ∧ e = .pattern .noFields) ∧
    ∀ n : Numeral, ∃ v, Denotes (.num n) v ∧ ∀ path, value path (.num n) = .ok v := by
  refine ⟨?_, fun members h => ⟨⟨?_, ?_⟩, ?_, fun e => parse_eq_error_iff h⟩, fun n => ?_⟩
  · constructor
    · rintro ⟨fields, hfields⟩
      obtain ⟨members, _, h, -⟩ := parse_eq_ok hfields
      obtain ⟨fs, hfs, hne, -⟩ := (parse_eq_ok_iff h).mp hfields
      refine ⟨members, h, fun he => hne ?_, fun n hn => exists_isField_iff.mp (exists_forall₂_iff.mp ⟨fs, hfs⟩ n hn)⟩
      rw [he] at hfs
      exact List.forall₂_nil_left_iff.mp hfs
    · rintro ⟨members, h, hne, hwalk⟩
      obtain ⟨fs, hfs⟩ := exists_forall₂_iff.mpr fun n hn => exists_isField_iff.mpr (hwalk n hn)
      refine ⟨_, (parse_eq_ok_iff h).mpr ⟨fs, hfs, fun he => hne ?_, rfl⟩⟩
      rw [he] at hfs
      exact List.forall₂_nil_right_iff.mp hfs
  · exact fun n => Json.mem_branches_iff (Json.uniqueKeys_of_parse? h)
  · exact (Json.pairwise_nodes (Json.keysSorted_of_parse? h)).sublist List.filter_sublist
  · intro fields hfields
    obtain ⟨fs, hfs, -, rfl⟩ := (parse_eq_ok_iff h).mp hfields
    exact ⟨fs, hfs, Bytes.stablySorted_mergeSort PatternField.path fs⟩
  · obtain ⟨v, hv⟩ : ∃ v, Denotes (.num n) v := by
      by_cases hkey : n.HasKey
      · exact ⟨_, .number hkey⟩
      · exact ⟨_, .plain hkey⟩
    exact ⟨v, hv, fun path => value_of_denotes path hv⟩

/-- An object without members beside a branch does no harm; an empty array, met first,
does. -/
theorem parse_grammar_nested :
    (∃ fields, parse "\x7b\"a\":\x7b\"c\":\x7b\x7d\x7d,\"b\":[\"x\"]\x7d" = .ok fields) ∧
    parse "\x7b\"a\":\x7b\"c\":[]\x7d,\"b\":[\"x\"]\x7d" = .error (.pattern (.noValues "a\nc")) := by
  have hgood : Json.parse? "\x7b\"a\":\x7b\"c\":\x7b\x7d\x7d,\"b\":[\"x\"]\x7d" =
      some (.obj [("a", .obj [("c", .obj [])]), ("b", .arr [.str "x"])]) := by
    have htext : (Json.obj [("a", .obj [("c", .obj [])]), ("b", .arr [.str "x"])]).text =
        "\x7b\"a\":\x7b\"c\":\x7b\x7d\x7d,\"b\":[\"x\"]\x7d" := by decide
    rw [← htext]
    exact Json.parse?_text
      ⟨126, rfl, ⟨125, rfl, ⟨124, rfl, trivial⟩, trivial⟩, ⟨125, rfl, trivial, trivial⟩, trivial⟩ rfl
  have hbad : Json.parse? "\x7b\"a\":\x7b\"c\":[]\x7d,\"b\":[\"x\"]\x7d" =
      some (.obj [("a", .obj [("c", .arr [])]), ("b", .arr [.str "x"])]) := by
    have htext : (Json.obj [("a", .obj [("c", .arr [])]), ("b", .arr [.str "x"])]).text =
        "\x7b\"a\":\x7b\"c\":[]\x7d,\"b\":[\"x\"]\x7d" := by decide
    rw [← htext]
    exact Json.parse?_text
      ⟨126, rfl, ⟨125, rfl, ⟨124, rfl, trivial⟩, trivial⟩, ⟨125, rfl, trivial, trivial⟩, trivial⟩ rfl
  constructor
  · refine (parse_grammar _).1.mpr ⟨_, hgood, List.cons_ne_nil _ _, fun n hn => ?_⟩
    obtain rfl : n = ([.key "b"], .arr [.str "x"]) := List.mem_singleton.mp hn
    exact ⟨_, rfl, List.cons_ne_nil _ _, List.forall_mem_singleton.mpr ⟨_, .str "x"⟩⟩
  · exact (((parse_grammar _).2.1 _ hbad).2.2 _).mpr
      (.inl ⟨[], ([.key "a", .key "c"], .arr []), _, rfl, fun m hm => absurd hm List.not_mem_nil, .noValues⟩)

end Pattern

end EventMatch
