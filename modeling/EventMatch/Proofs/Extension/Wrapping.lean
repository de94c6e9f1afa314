import EventMatch.Extension.Wrapping
import EventMatch.Pattern.Parser
import EventMatch.Proofs.Json.Rereading

/-!
# Wrapped clauses

Wrapping changes the arrays that are a named clause alone (`Json.clause?`) and nothing else
(`Json.wrapExtensions_arr`), so on values it does nothing a second time unless extensions
themselves are wrapped (`Json.wrapExtensions_idem`). On texts the second time starts from what
is parsed of the first: the wrapped value again or nothing at all, and either way the text
stays (`usingExtension_idem`). A pattern that is read after wrapping is the pattern read with
every named clause taken as an extension (`Pattern.parse_usingExtension`).
-/

namespace EventMatch

/-! ## Wrapped values -/

namespace Json

/-- The clause that a list of values is, if it is one alone and its operator is named. -/
def clause? (operators : List String) : List Json → Option Json
  | [obj [(op, arg)]] => if operators.contains op then some (obj [(op, arg)]) else none
  | _ => none

/-- A clause as an extension. -/
def asExtension (clause : Json) : Json := obj [("extension", clause)]

variable {operators : List String}

theorem clause?_eq_some {items : List Json} {clause : Json} : clause? operators items = some clause ↔
    ∃ op arg, items = [obj [(op, arg)]] ∧ op ∈ operators ∧ clause = obj [(op, arg)] := by
  constructor
  · intro h
    unfold clause? at h
    split at h
    · rename_i op arg
      split at h
      · rename_i hop
        exact ⟨op, arg, rfl, List.contains_iff_mem.mp hop, (Option.some.inj h).symm⟩
      · cases h
    · cases h
  · rintro ⟨op, arg, rfl, hop, rfl⟩
    exact if_pos (List.contains_iff_mem.mpr hop)

theorem wrapExtensions_of_clause {items : List Json} {clause : Json} (h : clause? operators items = some clause) :
    (arr items).wrapExtensions operators = arr [asExtension clause] := by
  obtain ⟨op, arg, rfl, hop, rfl⟩ := clause?_eq_some.mp h
  rw [wrapExtensions, if_pos (List.contains_iff_mem.mpr hop)]
  rfl

theorem wrapExtensions_of_no_clause {items : List Json} (h : clause? operators items = none) :
    (arr items).wrapExtensions operators = arr items := by
  unfold clause? at h
  split at h
  · rename_i op arg
    rw [wrapExtensions]
    split at h
    · cases h
    · rename_i hop
      exact if_neg hop
  · rename_i hne
    rw [wrapExtensions]
    · exact fun op arg h => hne op arg (arr.inj h)
    · exact fun members h => nomatch h

theorem wrapExtensions_obj (operators : List String) (members : List (String × Json)) :
    (obj members).wrapExtensions operators = obj (wrapExtensionsIn operators members) := by
  rw [wrapExtensions]

/-- An extension is no named clause if extensions are not named. -/
theorem clause?_asExtension (h : "extension" ∉ operators) (clause : Json) :
    clause? operators [asExtension clause] = none :=
  if_neg fun hmem => h (List.contains_iff_mem.mp hmem)

mutual

/-- Wrapping a second time changes nothing. -/
theorem wrapExtensions_idem (h : "extension" ∉ operators) : ∀ j : Json,
    (j.wrapExtensions operators).wrapExtensions operators = j.wrapExtensions operators
  | .arr items => by
    cases hc : clause? operators items with
    | some clause => rw [wrapExtensions_of_clause hc, wrapExtensions_of_no_clause (clause?_asExtension h clause)]
    | none => rw [wrapExtensions_of_no_clause hc, wrapExtensions_of_no_clause hc]
  | .obj members => by
    rw [wrapExtensions_obj, wrapExtensions_obj, wrapExtensionsIn_idem h members]
  | .null | .bool _ | .num _ | .str _ => rfl

theorem wrapExtensionsIn_idem (h : "extension" ∉ operators) : ∀ ms : List (String × Json),
    wrapExtensionsIn operators (wrapExtensionsIn operators ms) = wrapExtensionsIn operators ms
  | [] => rfl
  | (k, j) :: ms => by
    rw [wrapExtensionsIn, wrapExtensionsIn, wrapExtensions_idem h j, wrapExtensionsIn_idem h ms]

end

/-! ## What wrapping keeps -/

theorem map_fst_wrapExtensionsIn : ∀ ms : List (String × Json),
    (wrapExtensionsIn operators ms).map Prod.fst = ms.map Prod.fst
  | [] => rfl
  | (k, j) :: ms => by
    rw [wrapExtensionsIn, List.map_cons, List.map_cons, map_fst_wrapExtensionsIn ms]

/-- What holds of the items of an array, and of the extension that a clause becomes, holds of
the wrapped array. -/
theorem wrapExtensions_arr_induction {p : Json → Prop} {items : List Json} (hsame : p (arr items))
    (hclause : ∀ op arg, items = [obj [(op, arg)]] → p (arr [asExtension (obj [(op, arg)])])) :
    p ((arr items).wrapExtensions operators) := by
  cases hc : clause? operators items with
  | some clause =>
    rw [wrapExtensions_of_clause hc]
    obtain ⟨op, arg, hitems, -, rfl⟩ := clause?_eq_some.mp hc
    exact hclause op arg hitems
  | none => rwa [wrapExtensions_of_no_clause hc]

mutual

/-- Properties of keys stay if extensions have them. -/
theorem AllKeys.wrapExtensions {p : List String → Prop} (hp : p ["extension"]) : ∀ {j : Json}, j.AllKeys p →
    (j.wrapExtensions operators).AllKeys p
  | .arr items, h => by
    refine wrapExtensions_arr_induction h fun op arg hitems => ?_
    subst hitems
    exact ⟨⟨hp, h.1, trivial⟩, trivial⟩
  | .obj members, h => by
    rw [wrapExtensions_obj]
    exact ⟨map_fst_wrapExtensionsIn members ▸ h.1, membersAllKeys_wrapExtensionsIn hp h.2⟩
  | .null, _ | .bool _, _ | .num _, _ | .str _, _ => trivial

theorem membersAllKeys_wrapExtensionsIn {p : List String → Prop} (hp : p ["extension"]) :
    ∀ {ms : List (String × Json)}, MembersAllKeys p ms → MembersAllKeys p (wrapExtensionsIn operators ms)
  | [], _ => trivial
  | (_, _) :: _, h => ⟨h.1.wrapExtensions hp, membersAllKeys_wrapExtensionsIn hp h.2⟩

end

mutual

theorem KeysSorted.wrapExtensions : ∀ {j : Json}, j.KeysSorted → (j.wrapExtensions operators).KeysSorted
  | .arr items, h => by
    refine wrapExtensions_arr_induction h fun op arg hitems => ?_
    subst hitems
    exact ⟨⟨List.pairwise_singleton _ _, h.1, trivial⟩, trivial⟩
  | .obj members, h => by
    rw [wrapExtensions_obj]
    have hkeys : ((wrapExtensionsIn operators members).map Prod.fst).Pairwise
        fun k l => Bytes.leString k l = true ∧ k ≠ l := by
      rw [map_fst_wrapExtensionsIn]
      exact List.pairwise_map.mpr h.1
    exact ⟨List.pairwise_map.mp hkeys, membersSorted_wrapExtensionsIn h.2⟩
  | .null, _ | .bool _, _ | .num _, _ | .str _, _ => trivial

theorem membersSorted_wrapExtensionsIn : ∀ {ms : List (String × Json)}, MembersSorted ms →
    MembersSorted (wrapExtensionsIn operators ms)
  | [], _ => trivial
  | (_, _) :: _, h => ⟨h.1.wrapExtensions, membersSorted_wrapExtensionsIn h.2⟩

end

mutual

/-- A wrapped clause nests one container more. -/
theorem Writable.wrapExtensions : ∀ {j : Json} {d : Nat}, j.Writable d → (j.wrapExtensions operators).Writable (d + 1)
  | .arr items, d, h => by
    refine wrapExtensions_arr_induction (h.mono (Nat.le_succ d)) fun op arg hitems => ?_
    subst hitems
    obtain ⟨e, rfl, hclause, -⟩ := h
    exact ⟨e + 1, rfl, ⟨e, rfl, hclause, trivial⟩, trivial⟩
  | .obj members, _, ⟨e, he, h⟩ => by
    rw [wrapExtensions_obj, he]
    exact ⟨e + 1, rfl, writableMembers_wrapExtensionsIn h⟩
  | .num _, _, h => h
  | .null, _, _ | .bool _, _, _ | .str _, _, _ => trivial

theorem writableMembers_wrapExtensionsIn : ∀ {ms : List (String × Json)} {d : Nat}, WritableMembers d ms →
    WritableMembers (d + 1) (wrapExtensionsIn operators ms)
  | [], _, _ => trivial
  | (_, _) :: _, _, h => ⟨h.1.wrapExtensions, writableMembers_wrapExtensionsIn h.2⟩

end

end Json

/-! ## Wrapped texts -/

section

variable {operators : List String} {text : String} {j : Json}

theorem usingExtension_of_parse? (h : Json.parse? text = some j) :
    usingExtension text operators = (j.wrapExtensions operators).text := by
  rw [usingExtension, h]

theorem usingExtension_of_not_parse? (h : Json.parse? text = none) : usingExtension text operators = text := by
  rw [usingExtension, h]

/-- What is parsed of a wrapped text is the wrapped value. -/
theorem eq_of_parse?_usingExtension (h : Json.parse? text = some j) {r : Json}
    (hr : Json.parse? (usingExtension text operators) = some r) : r = j.wrapExtensions operators := by
  rw [usingExtension_of_parse? h] at hr
  exact Json.eq_of_parse?_text (Json.writable_of_parse? h).wrapExtensions (Json.keysSorted_of_parse? h).wrapExtensions
    ((Json.uncarried_of_parse? h).wrapExtensions (by decide)) hr

/-- A wrapped text is parsed if it does not nest too deep and no object begins with the number key. -/
theorem parse?_usingExtension (h : Json.parse? text = some j) (hu : j.Unmarked)
    (hd : (j.wrapExtensions operators).depth ≤ Json.maxDepth) :
    Json.parse? (usingExtension text operators) = some (j.wrapExtensions operators) := by
  rw [usingExtension_of_parse? h]
  exact Json.parse?_text_of_unmarked (Json.writable_of_parse? h).wrapExtensions
    (Json.keysSorted_of_parse? h).wrapExtensions hd (Json.AllKeys.wrapExtensions (by decide) hu)

/-- Wrapping a text a second time changes nothing. -/
theorem usingExtension_idem (h : "extension" ∉ operators) (text : String) :
    usingExtension (usingExtension text operators) operators = usingExtension text operators := by
  cases hj : Json.parse? text with
  | none => rw [usingExtension_of_not_parse? hj, usingExtension_of_not_parse? hj]
  | some j =>
    cases hr : Json.parse? (usingExtension text operators) with
    | none => exact usingExtension_of_not_parse? hr
    | some r =>
      rw [usingExtension_of_parse? hr, eq_of_parse?_usingExtension hj hr, Json.wrapExtensions_idem h,
        usingExtension_of_parse? hj]

end

/-! ## Patterns read with other fields -/

namespace Pattern

section

variable (read : String → List Json → Except MatchError PatternField)

mutual

/-- The fields that a member's value leads to, when arrays are read in this way. -/
def fieldsAtBy (path : String) : Json → Except MatchError (List PatternField)
  | .obj members => fieldsOfBy path members
  | .arr items => (read path items).map fun f => [f]
  | found => .error (.pattern (.notArray path found))

/-- The fields that an object's members lead to, when arrays are read in this way. -/
def fieldsOfBy (path : String) : List (String × Json) → Except MatchError (List PatternField)
  | [] => .ok []
  | (key, j) :: ms => do
    let fields ← fieldsAtBy (Path.extend path key) j
    let others ← fieldsOfBy path ms
    .ok (fields ++ others)

end

/-- The pattern that a JSON value stands for, when arrays are read in this way. -/
def ofJsonBy : Json → Except MatchError (List PatternField)
  | .obj members => do
    let fields ← fieldsOfBy read "" members
    if fields.isEmpty then .error (.pattern .noFields) else .ok (sortByPath fields)
  | _ => .error (.pattern .notObject)

/-- The pattern that a text spells, when arrays are read in this way. -/
def parseBy (text : String) : Except MatchError (List PatternField) :=
  match Json.parse? text with
  | none => .error (.pattern .malformed)
  | some j => ofJsonBy read j

end

mutual

theorem fieldsAtBy_field : ∀ (j : Json) (path : String), fieldsAtBy field path j = fieldsAt path j
  | .obj members, path => by rw [fieldsAtBy, fieldsAt, fieldsOfBy_field members]
  | .arr items, path => by rw [fieldsAtBy, fieldsAt]
  | .null, _ | .bool _, _ | .num _, _ | .str _, _ => by unfold fieldsAtBy fieldsAt; rfl

theorem fieldsOfBy_field : ∀ (ms : List (String × Json)) (path : String), fieldsOfBy field path ms = fieldsOf path ms
  | [], _ => rfl
  | (key, j) :: ms, path => by rw [fieldsOfBy, fieldsOf, fieldsAtBy_field j, fieldsOfBy_field ms]

end

/-- Patterns are read with arrays as fields. -/
theorem parseBy_field (text : String) : parseBy field text = parse text := by
  rw [parseBy, parse]
  cases Json.parse? text with
  | none => rfl
  | some j => cases j <;> simp only [ofJsonBy, ofJson, fieldsOfBy_field]

/-- An array as a field, but one that is a named clause alone as the extension of this clause. -/
def fieldOrClause (operators : List String) (path : String) (items : List Json) : Except MatchError PatternField :=
  match Json.clause? operators items with
  | some clause => .ok ⟨path, [.extension clause.text]⟩
  | none => field path items

variable {operators : List String}

mutual

/-- The fields of a wrapped value are those of the value with clauses read as extensions. -/
theorem fieldsAt_wrapExtensions : ∀ (j : Json) (path : String),
    fieldsAt path (j.wrapExtensions operators) = fieldsAtBy (fieldOrClause operators) path j
  | .obj members, path => by
    rw [Json.wrapExtensions_obj, fieldsAt, fieldsAtBy, fieldsOf_wrapExtensionsIn members]
  | .arr items, path => by
    rw [fieldsAtBy, fieldOrClause]
    cases hc : Json.clause? operators items with
    | some clause =>
      rw [Json.wrapExtensions_of_clause hc, fieldsAt]
      rfl
    | none => rw [Json.wrapExtensions_of_no_clause hc, fieldsAt]
  | .null, _ | .bool _, _ | .num _, _ | .str _, _ => by unfold Json.wrapExtensions fieldsAt fieldsAtBy; rfl

theorem fieldsOf_wrapExtensionsIn : ∀ (ms : List (String × Json)) (path : String),
    fieldsOf path (Json.wrapExtensionsIn operators ms) = fieldsOfBy (fieldOrClause operators) path ms
  | [], _ => rfl
  | (key, j) :: ms, path => by
    rw [Json.wrapExtensionsIn, fieldsOf, fieldsOfBy, fieldsAt_wrapExtensions j, fieldsOf_wrapExtensionsIn ms]

end

theorem ofJson_wrapExtensions (j : Json) :
    ofJson (j.wrapExtensions operators) = ofJsonBy (fieldOrClause operators) j := by
  cases j with
  | obj members => rw [Json.wrapExtensions_obj, ofJson, ofJsonBy, fieldsOf_wrapExtensionsIn]
  | arr items => exact Json.wrapExtensions_arr_induction (p := fun j => ofJson j = _) rfl fun _ _ _ => rfl
  | null | bool _ | num _ | str _ => rfl

/-- A pattern that is read of a wrapped text is the pattern with clauses read as extensions. -/
theorem parse_usingExtension {text : String} (h : (Json.parse? text).isSome)
    (hr : (Json.parse? (usingExtension text operators)).isSome) :
    parse (usingExtension text operators) = parseBy (fieldOrClause operators) text := by
  obtain ⟨j, hj⟩ := Option.isSome_iff_exists.mp h
  obtain ⟨r, hr⟩ := Option.isSome_iff_exists.mp hr
  rw [parse, hr, parseBy, hj, eq_of_parse?_usingExtension hj hr]
  exact ofJson_wrapExtensions j

end Pattern

/-! ## Wrapping as a whole -/

/-- If extensions are not named, wrapping a text a second time changes nothing. A wrapped text that
does not nest too deep is parsed as the wrapped value, unless an object begins with the number
key. Where it is parsed, the pattern or the error is that of the text itself with each array that
is a named clause alone read as the extension of this clause, and all other arrays as ever. -/
theorem usingExtension_wraps (operators : List String) (h : "extension" ∉ operators) (text : String) :
    usingExtension (usingExtension text operators) operators = usingExtension text operators ∧
    (∀ j, Json.parse? text = some j →
      (j.Unmarked → (j.wrapExtensions operators).depth ≤ Json.maxDepth →
        Json.parse? (usingExtension text operators) = some (j.wrapExtensions operators)) ∧
      ((Json.parse? (usingExtension text operators)).isSome →
        Pattern.parse (usingExtension text operators) =
          Pattern.parseBy (Pattern.fieldOrClause operators) text)) ∧
    Pattern.parseBy Pattern.field text = Pattern.parse text := by
  refine ⟨usingExtension_idem h text, fun j hj => ⟨parse?_usingExtension hj, ?_⟩, Pattern.parseBy_field text⟩
  exact Pattern.parse_usingExtension (Option.isSome_iff_exists.mpr ⟨j, hj⟩)

/-- A clause that is named and alone becomes an extension, beside others it does not. -/
theorem usingExtension_wraps_alone : ∃ text : String, "extension" ∉ ["numeric"] ∧
    text = "\x7b\"a\":[\x7b\"numeric\":[\">\",1]\x7d],\"b\":[\x7b\"numeric\":[\">\",1]\x7d,2]\x7d" ∧
    usingExtension (usingExtension text ["numeric"]) ["numeric"] = usingExtension text ["numeric"] ∧
    Pattern.parse (usingExtension text ["numeric"]) = Pattern.parseBy (Pattern.fieldOrClause ["numeric"]) text ∧
    (Pattern.parse (usingExtension text ["numeric"])).toBool = true := by
  let one : Numeral := ⟨false, ⟨1, []⟩, none, none⟩
  let two : Numeral := ⟨false, ⟨2, []⟩, none, none⟩
  let clause : Json := .obj [("numeric", .arr [.str ">", .num one])]
  have hone : Json.numeral? one.spelling = some one := by decide
  have htwo : Json.numeral? two.spelling = some two := by decide
  have hclause : clause.Writable 125 := ⟨124, rfl, ⟨123, rfl, trivial, hone, trivial⟩, trivial⟩
  have hkeys : clause.Unmarked := ⟨by decide, ⟨trivial, trivial, trivial⟩, trivial⟩
  have hj : Json.parse? (Json.obj [("a", .arr [clause]), ("b", .arr [clause, .num two])]).text =
      some (.obj [("a", .arr [clause]), ("b", .arr [clause, .num two])]) :=
    Json.parse?_text ⟨126, rfl, ⟨125, rfl, hclause, trivial⟩, ⟨125, rfl, hclause, htwo, trivial⟩, trivial⟩ rfl
  have htext : (Json.obj [("a", .arr [clause]), ("b", .arr [clause, .num two])]).text =
      "\x7b\"a\":[\x7b\"numeric\":[\">\",1]\x7d],\"b\":[\x7b\"numeric\":[\">\",1]\x7d,2]\x7d" := by decide
  rw [htext] at hj
  obtain ⟨hidem, hall, -⟩ := usingExtension_wraps ["numeric"] (by decide) _
  obtain ⟨hparse, hfields⟩ := hall _ hj
  have hunmarked : (Json.obj [("a", .arr [clause]), ("b", .arr [clause, .num two])]).Unmarked :=
    ⟨by decide, ⟨hkeys, trivial⟩, ⟨hkeys, trivial, trivial⟩, trivial⟩
  have hread := hfields (Option.isSome_iff_exists.mpr ⟨_, hparse hunmarked (by decide)⟩)
  refine ⟨_, by decide, rfl, hidem, hread, ?_⟩
  rw [hread, Pattern.parseBy, hj]
  decide +kernel

end EventMatch
