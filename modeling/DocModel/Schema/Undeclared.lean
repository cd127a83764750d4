import DocModel.Pattern.Parser
import DocModel.Value.Size

/-!
# Undeclared fields

The paths of the fields of a value that a schema does not declare. The walk descends along declared
properties, the first pattern that matches a key, additional properties, and items. A field is reported
where the schema judges fields at all: it has properties or a pattern, and it neither forbids nor describes
other fields. A schema that is composed of branches is replaced by the branch, on top of the rest of the
schema, that leaves the fewest fields undeclared; the first of those counts.

Every schema that the walk comes to is smaller than the one before (`size_branchSchema_lt`,
`size_itemSchema_lt`, `size_verdict_lt`), so it ends. What it reports is said once for each kind of value and
schema: `paths_composed`, and `paths_list`, `paths_map` and `paths_scalar` of schemas that are not composed.
-/

namespace DocModel

namespace Undeclared

open Value (size itemsSize fieldsSize sizeAt)

/-! ## Composed schemas -/

def compositionKeywords : List String := ["anyOf", "oneOf", "allOf"]

/-- The branches under a keyword, if it has a list. -/
def branches? (node : Fields) (keyword : String) : Option (List Value) :=
  (Dict.get? node keyword).bind Value.list?

/-- The first keyword that composes the schema, with its branches. -/
def composition? (node : Fields) : Option (String × List Value) :=
  compositionKeywords.findSome? fun keyword => (branches? node keyword).map (keyword, ·)

/-- A branch on top of the rest of a schema; what is no object adds nothing. -/
def branchSchema (rest : Fields) : Value → Value
  | .map branch => .map (Value.mergeFields rest branch)
  | _ => .map rest

/-- The first of the shortest lists. -/
def fewest (found : List (List String)) : List String :=
  match found with
  | [] => []
  | first :: more => more.foldl (fun best next => if next.length < best.length then next else best) first

theorem branches?_of_composition? {node : Fields} {keyword : String} {branches : List Value}
    (h : composition? node = some (keyword, branches)) :
    Dict.get? node keyword = some (.list branches) := by
  obtain ⟨k, _, hk⟩ := List.exists_of_findSome?_eq_some h
  obtain ⟨found, hfound, heq⟩ := Option.map_eq_some_iff.mp hk
  obtain ⟨rfl, rfl⟩ := Prod.mk.inj heq
  obtain ⟨v, hv, hlist⟩ := Option.bind_eq_some_iff.mp hfound
  cases v <;> simp_all [Value.list?]

/-- A branch on top of the rest is smaller than the whole, whatever it brings along. -/
theorem size_branchSchema_lt_of_get? {node : Fields} {keyword : String} {branches : List Value} {branch : Value}
    (h : Dict.get? node keyword = some (.list branches)) (hb : branch ∈ branches) :
    (branchSchema (Dict.erase node keyword) branch).size < (Value.map node).size := by
  have herase := Value.fieldsSize_erase_le node keyword
  have hbranch := Value.size_le_itemsSize hb
  rw [sizeAt, h] at herase
  simp only [size] at herase
  cases branch with
  | map fields =>
    have := Value.fieldsSize_mergeFields_le (Dict.erase node keyword) fields
    simp only [branchSchema, size] at hbranch ⊢
    omega
  | _ => simp only [branchSchema, size] at hbranch ⊢; omega

theorem size_branchSchema_lt {node : Fields} {keyword : String} {branches : List Value} {branch : Value}
    (h : composition? node = some (keyword, branches)) (hb : branch ∈ branches) :
    (branchSchema (Dict.erase node keyword) branch).size < (Value.map node).size :=
  size_branchSchema_lt_of_get? (branches?_of_composition? h) hb

/-! ## Items -/

/-- The schema of an item: the one in its place, else that of all items. -/
def itemSchema? (node : Fields) (index : Nat) : Option Value :=
  match (Dict.get? node "prefixItems").bind Value.list? with
  | some inOrder => inOrder[index]? <|> Dict.get? node "items"
  | none => Dict.get? node "items"

theorem size_itemSchema_lt {node : Fields} {index : Nat} {schema : Value}
    (h : itemSchema? node index = some schema) : schema.size < (Value.map node).size := by
  have items (h : Dict.get? node "items" = some schema) : schema.size < (Value.map node).size := by
    have := Value.size_le_of_get? h
    simp only [size]; omega
  rw [itemSchema?] at h
  split at h
  · next inOrder hfirst =>
    obtain ⟨v, hv, hlist⟩ := Option.bind_eq_some_iff.mp hfirst
    cases hget : inOrder[index]? with
    | none => exact items (by simpa [hget] using h)
    | some found =>
      have heq : found = schema := by simpa [hget] using h
      subst heq
      have hmem := Value.size_le_itemsSize (List.mem_of_getElem? hget)
      have hsize := Value.size_le_of_get? hv
      cases v <;> simp only [Value.list?, Option.some.injEq, reduceCtorEq] at hlist
      subst hlist
      simp only [size] at hsize ⊢
      omega
  · exact items h

/-! ## Members -/

/-- The properties that a schema declares. -/
def declared? (node : Fields) : Option Fields := (Dict.get? node "properties").bind Value.map?

/-- The patterns of a schema that can be read, with their schemas. -/
def patterns (engine : PatternEngine) (node : Fields) : List ((String → Bool) × Value) :=
  (((Dict.get? node "patternProperties").bind Value.map?).getD []).filterMap fun entry =>
    (engine entry.1).map (·, entry.2)

/-- What a schema says of a key. -/
inductive Verdict where
  | described (schema : Value)
  | accepted
  | undeclared

/-- What a schema says of a key that it does not declare. -/
def otherwise (node : Fields) (judged : Bool) : Verdict :=
  match Dict.get? node "additionalProperties" with
  | some (.bool false) => .accepted
  | some (.map schema) => .described (.map schema)
  | _ => if judged then .undeclared else .accepted

def verdict (engine : PatternEngine) (node : Fields) (key : String) : Verdict :=
  match (declared? node).bind (Dict.get? · key) with
  | some schema => .described schema
  | none =>
    match (patterns engine node).find? fun entry => entry.1 key with
    | some (_, schema) => .described schema
    | none => otherwise node ((declared? node).isSome || !(patterns engine node).isEmpty)

theorem size_lt_of_field {node fields : Fields} {keyword key : String} {schema : Value}
    (hf : (Dict.get? node keyword).bind Value.map? = some fields) (hs : (key, schema) ∈ fields) :
    schema.size < (Value.map node).size := by
  obtain ⟨v, hv, hmap⟩ := Option.bind_eq_some_iff.mp hf
  cases v <;> simp only [Value.map?, Option.some.injEq, reduceCtorEq] at hmap
  subst hmap
  have := Value.size_le_of_get? hv
  have := Value.size_le_fieldsSize hs
  simp only [size] at *
  omega

/-- The schema of a key is smaller than the one that describes it. -/
theorem size_verdict_lt {engine : PatternEngine} {node : Fields} {key : String} {schema : Value}
    (h : verdict engine node key = .described schema) : schema.size < (Value.map node).size := by
  rw [verdict] at h
  split at h
  · next found hd =>
    obtain rfl : found = schema := by simpa using h
    obtain ⟨fields, hfields, hget⟩ := Option.bind_eq_some_iff.mp hd
    exact size_lt_of_field hfields (Value.mem_of_get? hget)
  · split at h
    · next matching found hfind =>
      obtain rfl : found = schema := by simpa using h
      obtain ⟨⟨pattern, s⟩, hmem, heq⟩ := List.mem_filterMap.mp (List.mem_of_find?_eq_some hfind)
      obtain ⟨m, _, hm⟩ := Option.map_eq_some_iff.mp heq
      obtain ⟨rfl, rfl⟩ := Prod.mk.inj hm
      cases hp : (Dict.get? node "patternProperties").bind Value.map? with
      | none => simp [hp] at hmem
      | some fields => exact size_lt_of_field hp (by simpa [hp] using hmem)
    · rw [otherwise] at h
      split at h
      · simp at h
      · next fields hget =>
        obtain rfl : Value.map fields = schema := by simpa using h
        have := Value.size_le_of_get? hget
        simp only [size] at *
        omega
      · split at h <;> simp at h

/-! ## The walk -/

def memberPath (path key : String) : String := if path = "" then key else path ++ "." ++ key

def itemPath (path : String) (index : Nat) : String := path ++ "[" ++ toString index ++ "]"

/-- The paths of the fields of a value, which is at `path`, that a schema does not declare. -/
def paths (engine : PatternEngine) (value schema : Value) (path : String) : List String :=
  match schema with
  | .map node =>
    match _hc : composition? node with
    | some (keyword, branches) =>
      fewest <| branches.attach.map fun branch =>
        paths engine value (branchSchema (Dict.erase node keyword) branch.1) path
    | none =>
      match value with
      | .list items =>
        items.zipIdx.flatMap fun item =>
          match _hi : itemSchema? node item.2 with
          | some schema => paths engine item.1 schema (itemPath path item.2)
          | none => []
      | .map fields =>
        fields.flatMap fun field =>
          match _hv : verdict engine node field.1 with
          | .described schema => paths engine field.2 schema (memberPath path field.1)
          | .undeclared => [memberPath path field.1]
          | .accepted => []
      | _ => []
  | _ => []
  termination_by schema.size
  decreasing_by
    · exact size_branchSchema_lt _hc branch.2
    · exact size_itemSchema_lt _hi
    · exact size_verdict_lt _hv

/-! ## What the walk reports -/

variable {engine : PatternEngine} {node : Fields}

/-- A schema that is no object says nothing of any field. -/
theorem paths_of_map?_eq_none {schema : Value} (h : schema.map? = none) (value : Value) (start : String) :
    paths engine value schema start = [] := by
  cases schema with
  | map node => cases h
  | _ => rw [paths]; exact nofun

theorem paths_composed {keyword : String} {branches : List Value}
    (h : composition? node = some (keyword, branches)) (value : Value) (start : String) :
    paths engine value (.map node) start =
      fewest (branches.map fun branch =>
        paths engine value (branchSchema (Dict.erase node keyword) branch) start) := by
  rw [paths.eq_def]
  dsimp only
  split
  · next hc =>
    obtain ⟨rfl, rfl⟩ := Prod.mk.inj (Option.some.inj (h.symm.trans hc))
    exact congrArg fewest (List.attach_map_val (f := fun branch =>
      paths engine value (branchSchema (Dict.erase node keyword) branch) start))
  · next hc => rw [h] at hc; cases hc

theorem paths_scalar {value : Value} (hl : value.list? = none) (hm : value.map? = none)
    (h : composition? node = none) (start : String) : paths engine value (.map node) start = [] := by
  rw [paths.eq_def]
  dsimp only
  split
  · next hc => rw [h] at hc; cases hc
  · cases value with
    | list items => cases hl
    | map entries => cases hm
    | _ => rfl

theorem paths_list (items : List Value) (h : composition? node = none) (start : String) :
    paths engine (.list items) (.map node) start = items.zipIdx.flatMap fun item =>
      ((itemSchema? node item.2).map fun sub => paths engine item.1 sub (itemPath start item.2)).getD [] := by
  rw [paths]
  split
  · next hc => rw [h] at hc; cases hc
  · refine congrArg (items.zipIdx.flatMap ·) (funext fun item => ?_)
    split
    · next hsub => rw [hsub]; rfl
    · next hsub => rw [hsub]; rfl

/-- What is reported of a field. -/
def fieldReport (engine : PatternEngine) (child : Value) (path : String) : Verdict → List String
  | .described sub => paths engine child sub path
  | .undeclared => [path]
  | .accepted => []

theorem paths_map (fields : Fields) (h : composition? node = none) (start : String) :
    paths engine (.map fields) (.map node) start = fields.flatMap fun field =>
      fieldReport engine field.2 (memberPath start field.1) (verdict engine node field.1) := by
  rw [paths]
  split
  · next hc => rw [h] at hc; cases hc
  · refine congrArg (fields.flatMap ·) (funext fun field => ?_)
    split
    · next hv => rw [hv]; rfl
    · next hv => rw [hv]; rfl
    · next hv => rw [hv]; rfl

end Undeclared

end DocModel
