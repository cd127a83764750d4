import Mathlib.Logic.Function.Iterate
import DocModel.Proofs.Schema.UndeclaredFields

/-!
# Schemas that get smaller

A level of the walk for undeclared fields hands values on to further levels, each with a schema: the one that it
has itself, with a branch in the place of a composition keyword, or one that describes a part of the value. All
these schemas are smaller, since a branch on top of the rest of a schema is no larger than both together. So no
walk has more levels than its schema has nodes.

* `HandsOn`: what a level hands on, by the keywords of its schema.
* `HandsOn.size_lt`: it hands on smaller schemas only.
* `level_congr`, `paths_eq_level`: a level depends on the walks that it hands on to, and on no others.
* `iterate_level_eq`: as many levels as the schema has nodes are all of the walk.
-/

namespace DocModel

namespace Undeclared

/-- What a level of the walk hands on: the value itself, with a branch on top of the rest of a composed schema,
or the parts of the value that the keywords of another schema describe. -/
inductive HandsOn (engine : PatternEngine) : Value → Value → Value → Value → Prop where
  | branch {value node keyword branches branch} (h : composition? node = some (keyword, branches))
    (hbranch : branch ∈ branches) :
    HandsOn engine value (.map node) value (branchSchema (Dict.erase node keyword) branch)
  | part {value node step child sub} (h : composition? node = none)
    (henter : Enters engine value (.map node) step child sub) : HandsOn engine value (.map node) child sub

/-- One level of the walk of a schema that is not composed. -/
def levelOfParts (engine : PatternEngine) (walk : Value → Value → String → List String) (node : Fields)
    (path : String) : Value → List String
  | .list items => items.zipIdx.flatMap fun item =>
      ((itemSchema? node item.2).map fun sub => walk item.1 sub (itemPath path item.2)).getD []
  | .map fields => fields.flatMap fun field =>
      match verdict engine node field.1 with
      | .described sub => walk field.2 sub (memberPath path field.1)
      | .undeclared => [memberPath path field.1]
      | .accepted => []
  | _ => []

/-- One level of the walk; what is handed on is left to other walks. -/
def level (engine : PatternEngine) (walk : Value → Value → String → List String) (value schema : Value)
    (path : String) : List String :=
  match schema with
  | .map node =>
    match composition? node with
    | some (keyword, branches) =>
      fewest (branches.map fun branch => walk value (branchSchema (Dict.erase node keyword) branch) path)
    | none => levelOfParts engine walk node path value
  | _ => []

variable {engine : PatternEngine} {value schema child sub : Value} {node : Fields}

/-! ## Smaller schemas -/

/-- What describes a part of a value is part of the schema of the value. -/
theorem Enters.size_lt {step : FieldStep} (h : Enters engine value (.map node) step child sub) :
    sub.size < (Value.map node).size := by
  cases value with
  | list items =>
    cases step with
    | item index => exact size_itemSchema_lt (enters_item_iff.mp h).2
    | member key => cases h
  | map fields =>
    cases step with
    | item index => cases h
    | member key => exact size_verdict_lt (enters_member_iff.mp h).2
  | _ => cases h

theorem HandsOn.size_lt (h : HandsOn engine value schema child sub) : sub.size < schema.size := by
  cases h with
  | branch h hbranch => exact size_branchSchema_lt h hbranch
  | part h henter => exact henter.size_lt

/-! ## Levels -/

section

variable {walk walk' : Value → Value → String → List String}

theorem levelOfParts_congr
    (h : ∀ step child sub, Enters engine value (.map node) step child sub → walk child sub = walk' child sub)
    (path : String) : levelOfParts engine walk node path value = levelOfParts engine walk' node path value := by
  cases value with
  | list items =>
    refine List.flatMap_congr fun item hitem => ?_
    cases hsub : itemSchema? node item.2 with
    | none => rfl
    | some sub =>
      have hget : items[item.2]? = some item.1 := List.mem_zipIdx_iff_getElem?.mp hitem
      rw [Option.map_some, Option.map_some, h _ _ _ (enters_item_iff.mpr ⟨hget, hsub⟩)]
  | map fields =>
    refine List.flatMap_congr fun field hfield => ?_
    cases hv : verdict engine node field.1 with
    | described sub => exact congrFun (h _ _ _ (enters_member_iff.mpr ⟨hfield, hv⟩)) _
    | undeclared => rfl
    | accepted => rfl
  | _ => rfl

/-- A level does the same with walks that agree on what it hands on. -/
theorem level_congr (h : ∀ child sub, HandsOn engine value schema child sub → walk child sub = walk' child sub)
    (path : String) : level engine walk value schema path = level engine walk' value schema path := by
  cases schema with
  | map node =>
    rw [level, level]
    cases hc : composition? node with
    | some found =>
      obtain ⟨keyword, branches⟩ := found
      refine congrArg fewest (List.map_congr_left fun branch hbranch => ?_)
      rw [h _ _ (.branch hc hbranch)]
    | none => exact levelOfParts_congr (fun _ _ _ henter => h _ _ (.part hc henter)) path
  | _ => rfl

end

/-- A walk consists of one level and the walks that it hands on to. -/
theorem paths_eq_level (engine : PatternEngine) : paths engine = level engine (paths engine) := by
  funext value schema path
  cases schema with
  | map node =>
    rw [level]
    cases hc : composition? node with
    | some found => exact paths_composed hc value path
    | none =>
      cases value with
      | list items => exact paths_list items hc path
      | map fields =>
        refine (paths_map fields hc path).trans (List.flatMap_congr fun field _ => ?_)
        cases verdict engine node field.1 <;> rfl
      | _ => exact paths_scalar rfl rfl hc path
  | _ => exact paths_of_map?_eq_none rfl value path

/-- Levels beyond the size of the schema change nothing, whatever they hand on to in the end. -/
theorem iterate_level_eq {n : Nat} (h : schema.size ≤ n) (walk : Value → Value → String → List String)
    (path : String) : (level engine)^[n] walk value schema path = paths engine value schema path := by
  induction n generalizing value schema path with
  | zero => exact absurd (Value.size_pos schema) (Nat.not_lt.mpr h)
  | succ n ih =>
    rw [Function.iterate_succ_apply', paths_eq_level]
    refine level_congr (fun child sub hsub => funext fun path => ih ?_ path) path
    exact Nat.le_of_lt_succ (Nat.lt_of_lt_of_le hsub.size_lt h)

/-- Merging makes nothing larger than both sides together, and stripping makes nothing larger. So a branch of any
composition, on top of the rest of its schema, is smaller than the schema, whatever it brings along. Each level
of the walk hands on smaller schemas only, and depends on nothing but the walks that it hands on to; so as many
levels as a schema has nodes are all of the walk. -/
theorem walk_shrinks :
    (∀ a b : Value, (a.merge b).size ≤ a.size + b.size ∧ a.strip.size ≤ a.size) ∧
    (∀ (node : Fields), ∀ keyword ∈ compositionKeywords, ∀ branches,
      Dict.get? node keyword = some (.list branches) → ∀ branch ∈ branches,
        (branchSchema (Dict.erase node keyword) branch).size < (Value.map node).size) ∧
    ∀ engine : PatternEngine,
      (∀ value schema child sub, HandsOn engine value schema child sub → sub.size < schema.size) ∧
      paths engine = level engine (paths engine) ∧
      (∀ value schema (walk walk' : Value → Value → String → List String),
        (∀ child sub, HandsOn engine value schema child sub → walk child sub = walk' child sub) →
          level engine walk value schema = level engine walk' value schema) ∧
      ∀ value schema path n (walk : Value → Value → String → List String), schema.size ≤ n →
        (level engine)^[n] walk value schema path = paths engine value schema path :=
  ⟨fun a b => ⟨Value.size_merge_le b a, Value.size_strip_le a⟩,
    fun _ _ _ _ h _ hbranch => size_branchSchema_lt_of_get? h hbranch,
    fun engine => ⟨fun _ _ _ _ h => h.size_lt, paths_eq_level engine,
      fun _ _ _ _ h => funext (level_congr h), fun _ _ path _ walk h => iterate_level_eq h walk path⟩⟩

/-- An address with its place, which is of one of two kinds. -/
def fullAddress : Value :=
  .map [("anyOf", .list [.map [("properties", .map [("city", .bool true)])],
      .map [("properties", .map [("village", .bool true)])]]),
    ("oneOf", .list [.bool true])]

/-- An address is given in full or by a code. -/
def addressSchema : Fields :=
  [("anyOf", .list [fullAddress, .map [("properties", .map [("code", .bool true)])]]),
    ("oneOf", .list [.map [("properties", .map [("name", .bool true)])]])]

/-- A branch that is composed itself, and adds to another composition of the schema. -/
theorem walk_shrinks_address :
    HandsOn .unicode (.map [("city", .null)]) (.map addressSchema) (.map [("city", .null)])
        (branchSchema (Dict.erase addressSchema "anyOf") fullAddress) ∧
      (branchSchema (Dict.erase addressSchema "anyOf") fullAddress).size < (Value.map addressSchema).size ∧
      (level .unicode)^[(Value.map addressSchema).size] (fun _ _ _ => []) (.map [("city", .null)])
          (.map addressSchema) "" =
        paths .unicode (.map [("city", .null)]) (.map addressSchema) "" := by
  obtain ⟨-, -, hengine⟩ := walk_shrinks
  obtain ⟨hsmaller, -, -, hlevels⟩ := hengine .unicode
  have hbranch : HandsOn .unicode (.map [("city", .null)]) (.map addressSchema) (.map [("city", .null)])
      (branchSchema (Dict.erase addressSchema "anyOf") fullAddress) := .branch rfl (.head _)
  exact ⟨hbranch, hsmaller _ _ _ _ hbranch, hlevels _ _ _ _ _ (Nat.le_refl _)⟩

end Undeclared

end DocModel
