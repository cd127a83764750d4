import DocModel.Document
import DocModel.Merging

/-!
# Class definitions

A class has parents, a schema and properties, which are the defaults of its instances. `layered` puts one
definition on top of another; its name, parents and provenance are those of the one on top.
-/

namespace DocModel

structure ClassDefinition where
  name : String
  parents : List String := []
  schema : Option Value := none
  properties : Fields := []
  provenance : Option Provenance := none
  deriving DecidableEq

namespace ClassDefinition

/-- Properties of a class document that are no defaults of instances. -/
def reservedFields : List String := ["class", "parent", "parents", "id", "schema"]

/-- The strings in the schema's own `required` list. -/
def requiredFields (c : ClassDefinition) : List String :=
  match c.schema.bind (·.get? "required") with
  | some (.list items) => items.filterMap Value.string?
  | _ => []

/-- The names in a `parent` or `parents` field. -/
def namesIn : Option Value → List String
  | some (.string name) => [name]
  | some (.list items) => items.filterMap Value.string?
  | _ => []

/-- The names of both fields in one list, `parent` first, without empty names and repeats. -/
def normalizeParents (parent parents : Option Value) : List String :=
  (namesIn parent ++ namesIn parents).foldl
    (fun out name => if name = "" || out.contains name then out else out ++ [name]) []

/-- The definition in a class document. -/
def ofFields (name : String) (fields : Fields) (provenance : Provenance) : ClassDefinition where
  name := name
  parents := normalizeParents (Dict.get? fields "parent") (Dict.get? fields "parents")
  schema := Dict.get? fields "schema"
  properties := ["schema", "class", "parent", "parents"].foldl Dict.erase fields
  provenance := some provenance

/-- The schema of one definition on top of that of another. -/
def layeredSchema : Option Value → Option Value → Option Value
  | some base, some overlay => some (base.merge overlay)
  | none, some schema => some schema.strip
  | some schema, none => some schema.strip
  | none, none => none

/-- `other` on top of `base`. -/
def layered (base other : ClassDefinition) : ClassDefinition :=
  { other with
    schema := layeredSchema base.schema other.schema
    properties := Value.mergeFields base.properties other.properties }

/-- The definition as a document; properties win over the other fields. -/
def toFields (c : ClassDefinition) : Fields :=
  Dict.ofList <|
    [("class", .string c.name)]
    ++ (if c.parents.isEmpty then [] else [("parents", .strings c.parents)])
    ++ (match c.schema with
      | some schema => [("schema", schema)]
      | none => [])
    ++ c.properties

def toValue (c : ClassDefinition) : Value := .map c.toFields

end ClassDefinition

/-- Definitions by name. -/
abbrev Classes := Dict ClassDefinition

end DocModel
