import DocModel.Class.Basic
import DocModel.Instance.Fold

/-!
# Class defaults

The properties of a class go under the fields of its instances, value by value. A field that the schema
requires is never filled in: an instance without it is remarked on and left as it is.
-/

namespace DocModel

namespace Instance

def missingRequired (id field className : String) : Issue where
  level := .warn
  code := "required-before-defaults"
  message := "instance `" ++ id ++ "` is missing required field `" ++ field ++ "` of class `" ++ className
    ++ "`"
  className := some className
  instanceId := some id
  path := some field

/-- Whether a default may go under a field of these fields. -/
def takesDefault (required : List String) (fields : Fields) (field : String) (default : Value) : Bool :=
  !ClassDefinition.reservedFields.contains field && !default.isNull
    && !(required.contains field && !Dict.contains fields field)

/-- Puts one default under a field. -/
def applyDefault (required : List String) (fields : Fields) (entry : String × Value) : Fields :=
  if takesDefault required fields entry.1 entry.2 then
    Dict.insert fields entry.1 (Value.mergeDefault entry.2 (Dict.get? fields entry.1))
  else fields

/-- The fields with the defaults of a class under them, and what is remarked on. -/
def applyDefaults (id : String) (fields : Fields) (c : ClassDefinition) : Fields × List Issue :=
  let required := c.requiredFields
  let missing := required.filter fun field => !Dict.contains fields field
  (c.properties.foldl (applyDefault required) fields,
    missing.map fun field => missingRequired id field c.name)

def unknownClass (id className : String) (file : Option SourcePath) : Issue where
  level := .warn
  code := "unknown-class"
  message := "instance `" ++ id ++ "` references unknown class `" ++ className ++ "`"
  className := some className
  instanceId := some id
  file := file.map SourcePath.text

/-- The fields of a record once the defaults of its class are under them. -/
def withDefaults (classes : Classes) (last : Option SourcePath) (id : String) (fields : Fields) :
    Fields × List Issue :=
  match (Dict.get? fields "class").bind Value.string? with
  | none => (fields, [])
  | some name =>
    match Dict.get? classes name with
    | some c => applyDefaults id fields c
    | none => (fields, [unknownClass id name last])

/-- The fields without reset directives; none if they are a directive for something else than a map. -/
def settled (fields : Fields) : Fields := ((Value.map fields).strip.map?).getD []

end Instance

/-- Instances, the global one first, and what was remarked on while loading them. -/
structure LoadedInstances where
  instances : List Instance := []
  provenance : Dict (List Provenance) := []
  warnings : List Issue := []

namespace LoadedInstances

/-- Adds the instance of one record. -/
def addRecord (classes : Classes) (provenance : Dict (List Provenance)) (loaded : LoadedInstances)
    (record : String × Fields) : Except BuildError LoadedInstances := do
  let last := ((Dict.get? provenance record.1).bind List.getLast?).map Provenance.path
  let (fields, issues) := Instance.withDefaults classes last record.1 record.2
  let i ← Instance.ofFields record.1 (Instance.settled fields)
  return { loaded with instances := loaded.instances ++ [i], warnings := loaded.warnings ++ issues }

/-- Folds instance documents, puts class defaults under them and splits each record into an instance. -/
def ofDocuments (classes : Classes) (documents : List Document) : Except BuildError LoadedInstances := do
  let folded ← FoldedInstances.ofDocuments documents
  ((Instance.globalId, folded.global) :: folded.records).foldlM (addRecord classes folded.provenance)
    { provenance := folded.provenance }

end LoadedInstances

end DocModel
