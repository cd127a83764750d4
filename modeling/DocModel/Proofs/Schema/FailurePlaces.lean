import DocModel.Proofs.Dict.Insertion
import DocModel.Schema.Engine

/-!
# Where schemas fail

Whatever a check finds wrong, the place in the schema document that it names is one of three kinds: a keyword, a
schema that accepts nothing, or a name that asks for other names. The way there leads through keywords, through
positions in lists of schemas, and through names that the author of the schema has chosen; references lead on from
the root of the document.

* `LocationStep`, `FailurePlace`: steps into a schema document, and the places at which a value can fail.
* `SchemaCheck.FailsIn`: all that a check finds is at locations of some kind; one lemma for each rule.
* `SchemaEngine.ReportsPlaces`: whatever an engine compiles fails at places of the schema document.
-/

namespace DocModel

/-- A step on the way to a place in a schema document. -/
inductive LocationStep where
  | keyword (word : String)
  | index (i : Nat)
  /-- A name of the author's choice: of a property, a pattern or a definition. -/
  | name (text : String)
  deriving DecidableEq

namespace LocationStep

def text : LocationStep → String
  | keyword word => word
  | index i => toString i
  | name text => text

end LocationStep

namespace Schema

/-! ## Keywords -/

/-- Keywords that stand for one schema. -/
def schemaKeywords : List String :=
  ["additionalItems", "additionalProperties", "contains", "else", "if", "items", "not", "propertyNames", "then",
    "unevaluatedItems", "unevaluatedProperties"]

/-- Keywords with a list of schemas. -/
def branchKeywords : List String := ["allOf", "anyOf", "items", "oneOf", "prefixItems"]

/-- Keywords with schemas by names. -/
def memberKeywords : List String :=
  ["$defs", "definitions", "dependencies", "dependentSchemas", "patternProperties", "properties"]

/-- Keywords with lists of names by names. -/
def dependencyKeywords : List String := ["dependencies", "dependentRequired"]

/-- Keywords without schemas. -/
def plainKeywords : List String :=
  ["$ref", "const", "dependentRequired", "enum", "exclusiveMaximum", "exclusiveMinimum", "format", "maxContains",
    "maxItems", "maxLength", "maxProperties", "maximum", "minContains", "minItems", "minLength", "minProperties",
    "minimum", "multipleOf", "pattern", "required", "type", "uniqueItems"]

def supportedKeywords : List String := schemaKeywords ++ branchKeywords ++ memberKeywords ++ plainKeywords

theorem mem_supported_of_schema : ∀ k ∈ schemaKeywords, k ∈ supportedKeywords := by decide

theorem mem_supported_of_branch : ∀ k ∈ branchKeywords, k ∈ supportedKeywords := by decide

/-! ## Places -/

/-- The places of a schema document at which a value can fail, as steps from the schema `v` in it. -/
inductive FailurePlace (root : Value) : Value → List LocationStep → Prop where
  /-- A schema that accepts nothing. -/
  | refused : FailurePlace root (.bool false) []
  | keyword {entries : Fields} {k : String} {v : Value} (h : (k, v) ∈ entries) (hk : k ∈ supportedKeywords) :
      FailurePlace root (.map entries) [.keyword k]
  /-- A name that asks for other names. -/
  | dependent {entries fields : Fields} {k n : String} {names : List Value} (h : (k, .map fields) ∈ entries)
      (hk : k ∈ dependencyKeywords) (hn : (n, .list names) ∈ fields) :
      FailurePlace root (.map entries) [.keyword k, .name n]
  | under {entries : Fields} {k : String} {v : Value} {p : List LocationStep} (h : (k, v) ∈ entries)
      (hk : k ∈ schemaKeywords) (hp : FailurePlace root v p) : FailurePlace root (.map entries) (.keyword k :: p)
  | branch {entries : Fields} {k : String} {vs : List Value} {i : Nat} {v : Value} {p : List LocationStep}
      (h : (k, .list vs) ∈ entries) (hk : k ∈ branchKeywords) (hv : vs[i]? = some v)
      (hp : FailurePlace root v p) : FailurePlace root (.map entries) (.keyword k :: .index i :: p)
  | member {entries fields : Fields} {k n : String} {v : Value} {p : List LocationStep}
      (h : (k, .map fields) ∈ entries) (hk : k ∈ memberKeywords) (hv : (n, v) ∈ fields)
      (hp : FailurePlace root v p) : FailurePlace root (.map entries) (.keyword k :: .name n :: p)
  | ref {entries : Fields} {target : String} {v : Value} {p : List LocationStep}
      (h : ("$ref", .string target) ∈ entries) (ht : Pointer.target? root target = some v)
      (hp : FailurePlace root v p) : FailurePlace root (.map entries) (.keyword "$ref" :: p)

/-- The location is that of such a place. -/
def Locates (root v : Value) (location : List String) : Prop :=
  ∃ p, FailurePlace root v p ∧ location = p.map LocationStep.text

namespace Locates

variable {root v : Value} {entries : Fields} {location : List String}

theorem keyword {k : String} (h : (k, v) ∈ entries) (hk : k ∈ supportedKeywords) :
    Locates root (.map entries) [k] :=
  ⟨_, .keyword h hk, rfl⟩

theorem under {k : String} (h : (k, v) ∈ entries) (hk : k ∈ schemaKeywords) (hl : Locates root v location) :
    Locates root (.map entries) (k :: location) := by
  obtain ⟨p, hp, rfl⟩ := hl
  exact ⟨_, .under h hk hp, rfl⟩

theorem branch {k : String} {vs : List Value} {i : Nat} (h : (k, .list vs) ∈ entries) (hk : k ∈ branchKeywords)
    (hv : vs[i]? = some v) (hl : Locates root v location) :
    Locates root (.map entries) (k :: toString i :: location) := by
  obtain ⟨p, hp, rfl⟩ := hl
  exact ⟨_, .branch h hk hv hp, rfl⟩

theorem member {k n : String} {fields : Fields} (h : (k, .map fields) ∈ entries) (hk : k ∈ memberKeywords)
    (hv : (n, v) ∈ fields) (hl : Locates root v location) : Locates root (.map entries) (k :: n :: location) := by
  obtain ⟨p, hp, rfl⟩ := hl
  exact ⟨_, .member h hk hv hp, rfl⟩

theorem dependent {k n : String} {fields : Fields} {names : List Value} (h : (k, .map fields) ∈ entries)
    (hk : k ∈ dependencyKeywords) (hn : (n, .list names) ∈ fields) : Locates root (.map entries) [k, n] :=
  ⟨_, .dependent h hk hn, rfl⟩

theorem ref {target : String} (h : ("$ref", .string target) ∈ entries) (ht : Pointer.target? root target = some v)
    (hl : Locates root v location) : Locates root (.map entries) ("$ref" :: location) := by
  obtain ⟨p, hp, rfl⟩ := hl
  exact ⟨_, .ref h ht hp, rfl⟩

end Locates

end Schema

/-! ## Rules -/

/-- All that a check finds is at locations of a kind. -/
def SchemaCheck.FailsIn (check : SchemaCheck) (Q : List String → Prop) : Prop := ∀ v, ∀ f ∈ check v, Q f.location

namespace Rules

open SchemaCheck (FailsIn)

variable {Q : List String → Prop} {check : SchemaCheck} {checks : List SchemaCheck} {k : String}

theorem location_of_mem_require {holds : Bool} {fault : SchemaFault} {f : SchemaFailure}
    (h : f ∈ require holds k fault) : f.location = [k] := by
  rw [require] at h
  split at h
  · cases h
  · rw [List.mem_singleton.mp h]

theorem of_mem_require (hQ : Q [k]) {holds : Bool} {fault : SchemaFault} {f : SchemaFailure}
    (h : f ∈ require holds k fault) : Q f.location := by
  rw [location_of_mem_require h]
  exact hQ

theorem of_mem_within {location place : List String} (h : check.FailsIn fun l => Q (location ++ l)) {v : Value}
    {f : SchemaFailure} (hf : f ∈ check.within location place v) : Q f.location := by
  obtain ⟨inner, hinner, rfl⟩ := List.mem_map.mp hf
  exact h v inner hinner

/-! ### Values as such -/

theorem types_failsIn (hQ : Q ["type"]) (names : List TypeName) : (types names).FailsIn Q :=
  fun _ _ => of_mem_require hQ

theorem enum_failsIn (hQ : Q ["enum"]) (allowed : List Value) : (enum allowed).FailsIn Q :=
  fun _ _ => of_mem_require hQ

theorem const_failsIn (hQ : Q ["const"]) (expected : Value) : (const expected).FailsIn Q :=
  fun _ _ => of_mem_require hQ

theorem bound_failsIn {side : Bound} (hQ : Q [side.keyword]) (limit : Number) : (bound side limit).FailsIn Q := by
  intro v f hf
  cases v with
  | number n => exact of_mem_require hQ hf
  | _ => cases hf

theorem multipleOf_failsIn (hQ : Q ["multipleOf"]) (divisor : Number) : (multipleOf divisor).FailsIn Q := by
  intro v f hf
  cases v with
  | number n => exact of_mem_require hQ hf
  | _ => cases hf

theorem count_failsIn {limit : CountLimit} (hQ : Q [limit.keyword]) : (count limit).FailsIn Q := by
  intro v f hf
  rw [count] at hf
  split at hf
  · exact of_mem_require hQ hf
  · cases hf

theorem pattern_failsIn (hQ : Q ["pattern"]) (engine : PatternEngine) (text : String) :
    (pattern engine text).FailsIn Q := by
  intro v f hf
  cases v with
  | string s => exact of_mem_require hQ hf
  | _ => cases hf

theorem uniqueItems_failsIn (hQ : Q ["uniqueItems"]) : uniqueItems.FailsIn Q := by
  intro v f hf
  cases v with
  | list items => exact of_mem_require hQ hf
  | _ => cases hf

/-! ### Members -/

theorem required_failsIn {location : List String} (hQ : Q location) (names : List String) :
    (required location names).FailsIn Q := by
  intro v f hf
  cases v with
  | map entries =>
    obtain ⟨_, -, rfl⟩ := List.mem_map.mp hf
    exact hQ
  | _ => cases hf

/-- The checks of members fail at the names that they stand under. -/
def MembersFailIn (Q : List String → Prop) (k : String) (checks : Dict SchemaCheck) : Prop :=
  ∀ entry ∈ checks, entry.2.FailsIn fun l => Q (k :: entry.1 :: l)

theorem dependencies_failsIn {checks : Dict SchemaCheck} (h : MembersFailIn Q k checks) :
    (dependencies k checks).FailsIn Q := by
  intro v f hf
  cases v with
  | map entries =>
    obtain ⟨entry, hentry, hf⟩ := List.mem_flatMap.mp hf
    exact of_mem_within (h entry (List.mem_filter.mp hentry).1) hf
  | _ => cases hf

theorem properties_failsIn {checks : Dict SchemaCheck} (h : MembersFailIn Q "properties" checks) :
    (properties checks).FailsIn Q := by
  intro v f hf
  cases v with
  | map entries =>
    obtain ⟨entry, hentry, hf⟩ := List.mem_flatMap.mp hf
    split at hf
    · exact of_mem_within (h entry hentry) hf
    · cases hf
  | _ => cases hf

theorem patternProperties_failsIn (engine : PatternEngine) {checks : Dict SchemaCheck}
    (h : MembersFailIn Q "patternProperties" checks) : (patternProperties engine checks).FailsIn Q := by
  intro v f hf
  cases v with
  | map entries =>
    obtain ⟨entry, hentry, hf⟩ := List.mem_flatMap.mp hf
    obtain ⟨member, -, hf⟩ := List.mem_flatMap.mp hf
    exact of_mem_within (h entry hentry) hf
  | _ => cases hf

theorem of_mem_describedMember? {engine : PatternEngine} {members patterns : Dict SchemaCheck}
    (hmembers : MembersFailIn Q "properties" members) (hpatterns : MembersFailIn Q "patternProperties" patterns)
    {name : String} {member : Value} {found : List SchemaFailure}
    (h : describedMember? engine members patterns name member = some found) : ∀ f ∈ found, Q f.location := by
  have hmatching : ∀ f ∈ (patterns.filter fun entry => nameMatches engine entry.1 name).flatMap fun entry =>
      entry.2.within ["patternProperties", entry.1] [name] member, Q f.location := by
    intro f hf
    obtain ⟨entry, hentry, hf⟩ := List.mem_flatMap.mp hf
    exact of_mem_within (hpatterns entry (List.mem_filter.mp hentry).1) hf
  intro f hf
  rw [describedMember?] at h
  split at h
  · next own hown =>
    rw [← Option.some.inj h] at hf
    rcases List.mem_append.mp hf with hf | hf
    · exact of_mem_within (hmembers (name, own) (Dict.mem_of_get? hown)) hf
    · exact hmatching f hf
  · split at h
    · rw [← Option.some.inj h] at hf
      exact hmatching f hf
    · cases h

theorem otherMembers_failsIn (engine : PatternEngine) {members patterns : Dict SchemaCheck}
    (hmembers : MembersFailIn Q "properties" members) (hpatterns : MembersFailIn Q "patternProperties" patterns)
    (hother : check.FailsIn fun l => Q ("additionalProperties" :: l)) :
    (otherMembers engine members patterns check).FailsIn Q := by
  intro v f hf
  cases v with
  | map entries =>
    obtain ⟨member, -, hf⟩ := List.mem_flatMap.mp hf
    cases hdescribed : describedMember? engine members patterns member.1 member.2 with
    | none =>
      rw [hdescribed] at hf
      exact of_mem_within hother hf
    | some found =>
      rw [hdescribed] at hf
      exact of_mem_describedMember? hmembers hpatterns hdescribed f hf
  | _ => cases hf

theorem closedMembers_failsIn (engine : PatternEngine) {members patterns : Dict SchemaCheck}
    (hmembers : MembersFailIn Q "properties" members) (hpatterns : MembersFailIn Q "patternProperties" patterns)
    (hQ : Q ["additionalProperties"]) : (closedMembers engine members patterns).FailsIn Q := by
  intro v f hf
  cases v with
  | map entries =>
    rcases List.mem_append.mp hf with hf | hf
    · obtain ⟨found, hfound, hf⟩ := List.mem_flatten.mp hf
      obtain ⟨member, -, hdescribed⟩ := List.mem_filterMap.mp hfound
      exact of_mem_describedMember? hmembers hpatterns hdescribed f hf
    · exact of_mem_require hQ hf
  | _ => cases hf

theorem noMembers_failsIn (hQ : Q ["additionalProperties"]) : noMembers.FailsIn Q := by
  intro v f hf
  rw [noMembers.eq_def] at hf
  split at hf
  · exact of_mem_require hQ hf
  · cases hf

theorem propertyNames_failsIn (h : check.FailsIn fun l => Q ("propertyNames" :: l)) :
    (propertyNames check).FailsIn Q := by
  intro v f hf
  cases v with
  | map entries =>
    obtain ⟨member, -, hf⟩ := List.mem_flatMap.mp hf
    obtain ⟨inner, hinner, rfl⟩ := List.mem_map.mp hf
    exact h _ inner hinner
  | _ => cases hf

theorem noNames_failsIn (hQ : Q ["propertyNames"]) : noNames.FailsIn Q := by
  intro v f hf
  rw [noNames.eq_def] at hf
  split at hf
  · exact of_mem_require hQ hf
  · cases hf

/-! ### Items -/

/-- The checks of a list fail at their positions. -/
def BranchesFailIn (Q : List String → Prop) (k : String) (checks : List SchemaCheck) : Prop :=
  ∀ (i : Nat) (check : SchemaCheck), checks[i]? = some check → check.FailsIn fun l => Q (k :: toString i :: l)

theorem items_failsIn (h : check.FailsIn fun l => Q (k :: l)) (skipped : Nat) : (items k skipped check).FailsIn Q := by
  intro v f hf
  cases v with
  | list all =>
    obtain ⟨item, -, hf⟩ := List.mem_flatMap.mp hf
    exact of_mem_within h hf
  | _ => cases hf

theorem itemsInOrder_failsIn (h : BranchesFailIn Q k checks) : (itemsInOrder k checks).FailsIn Q := by
  intro v f hf
  cases v with
  | list all =>
    obtain ⟨⟨check, item, i⟩, hpair, hf⟩ := List.mem_flatMap.mp hf
    obtain ⟨j, hj⟩ := List.mem_iff_getElem?.mp hpair
    rw [List.getElem?_zip_eq_some, List.getElem?_zipIdx] at hj
    obtain ⟨hcheck, hitem⟩ := hj
    obtain ⟨_, -, hitem⟩ := Option.map_eq_some_iff.mp hitem
    obtain rfl : j = i := by simpa using (Prod.mk.inj hitem).2
    exact of_mem_within (h j check hcheck) hf
  | _ => cases hf

theorem noAdditionalItems_failsIn (hQ : Q ["additionalItems"]) (skipped : Nat) :
    (noAdditionalItems skipped).FailsIn Q := by
  intro v f hf
  cases v with
  | list all => exact of_mem_require hQ hf
  | _ => cases hf

theorem contains_failsIn (hQ : Q ["contains"]) (check : SchemaCheck) : (contains check).FailsIn Q := by
  intro v f hf
  cases v with
  | list all => exact of_mem_require hQ hf
  | _ => cases hf

/-! ### Composition -/

theorem anyOf_failsIn (hQ : Q ["anyOf"]) (checks : List SchemaCheck) : (anyOf checks).FailsIn Q :=
  fun _ _ => of_mem_require hQ

theorem oneOf_failsIn (hQ : Q ["oneOf"]) (checks : List SchemaCheck) : (oneOf checks).FailsIn Q := by
  intro v f hf
  rw [oneOf] at hf
  split at hf
  · exact of_mem_require hQ hf
  · cases hf
  · exact of_mem_require hQ hf

theorem allOf_failsIn (h : BranchesFailIn Q "allOf" checks) : (allOf checks).FailsIn Q := by
  intro v f hf
  obtain ⟨⟨check, i⟩, hbranch, hf⟩ := List.mem_flatMap.mp hf
  exact of_mem_within (h i check (List.mem_zipIdx_iff_getElem?.mp hbranch)) hf

theorem not_failsIn (hQ : Q ["not"]) (check : SchemaCheck) (source : Value) : (not check source).FailsIn Q :=
  fun _ _ => of_mem_require hQ

theorem conditional_failsIn {test yes no : SchemaCheck} (hyes : yes.FailsIn fun l => Q ("then" :: l))
    (hno : no.FailsIn fun l => Q ("else" :: l)) : (conditional test yes no).FailsIn Q := by
  intro v f hf
  rw [conditional] at hf
  split at hf
  · exact of_mem_within hyes hf
  · exact of_mem_within hno hf

end Rules

/-! ## Engines -/

/-- Whatever an engine compiles fails at places of the schema document. -/
def SchemaEngine.ReportsPlaces (engine : SchemaEngine) : Prop :=
  ∀ schema check, engine schema = .ok check → check.FailsIn (Schema.Locates schema schema)

end DocModel
