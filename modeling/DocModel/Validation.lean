import DocModel.Issue
import DocModel.Schema.Engine
import DocModel.Schema.Undeclared
import DocModel.Snapshot.Basic

/-!
# Validating a model

Each instance of a known class is checked against the schema of the class and, if asked for, for fields that
the schema does not declare. Rules find issues of level `warn`; strict validation makes errors of them and
changes nothing else (`applyPolicy`). A schema that does not compile is one error, and its class then has no
schema rule.

The engines that read schemas and patterns are parameters.
-/

namespace DocModel

structure ValidationOptions where
  /-- Whether what the rules find are errors. -/
  strict : Bool := false
  /-- Whether to look for undeclared fields. -/
  reportExtraFields : Bool := false
  deriving DecidableEq, Repr

/-- What reads schemas and the patterns of field names. -/
structure ValidationEngines where
  schema : SchemaEngine
  patterns : PatternEngine

def ValidationEngines.standard : ValidationEngines := ⟨.standard, .unicode⟩

namespace Validation

/-- The last step of a pointer that is no index, `schema` if there is none. -/
def keywordOf (pointer : String) : String :=
  ((Text.split '/' pointer).reverse.find? fun step => step ≠ "" && !step.all Char.isDigit).getD "schema"

def doesNotCompile (className reason : String) : Issue where
  level := .error
  code := "schema-invalid"
  message := "schema for class `" ++ className ++ "` does not compile: " ++ reason
  className := some className

/-- The issue of a schema that does not compile. -/
def compileIssue? (engine : SchemaEngine) (className : String) (schema : Value) : Option Issue :=
  match engine schema with
  | .ok _ => none
  | .error reason => some (doesNotCompile className reason)

/-- One issue for each class whose schema does not compile. -/
def compileIssues (engine : SchemaEngine) (classes : Classes) : List Issue :=
  classes.filterMap fun entry => entry.2.schema.bind (compileIssue? engine entry.1)

/-- What a schema sees of an instance: its own fields alone. -/
def document (i : Instance) : Value := .map i.properties

def schemaIssue (i : Instance) (c : ClassDefinition) (f : SchemaFailure) : Issue :=
  let keyword := keywordOf (Pointer.text f.location)
  { level := .warn
    code := "schema-" ++ keyword
    message := i.id ++ ": " ++ f.fault.message
    className := some c.name
    instanceId := some i.id
    keyword := some keyword
    path := some (Pointer.text f.place) }

/-- Finds issues of an instance of a class. -/
abbrev Rule := Instance → ClassDefinition → List Issue

/-- What the schemas that compile stand for, by the names of their classes. -/
def compiledSchemas (engine : SchemaEngine) (classes : Classes) : Dict SchemaCheck :=
  classes.filterMap fun entry => (entry.2.schema.bind fun schema => (engine schema).toOption).map (entry.1, ·)

/-- Says nothing of a class whose schema has not compiled. -/
def schemaRule (compiled : Dict SchemaCheck) : Rule := fun i c =>
  match Dict.get? compiled c.name with
  | some check => (check (document i)).map (schemaIssue i c)
  | none => []

def extraFieldIssue (i : Instance) (c : ClassDefinition) (path : String) : Issue where
  level := .warn
  code := "extra-field"
  message := i.id ++ ": field `" ++ path ++ "` is not declared by class `" ++ c.name ++ "`"
  className := some c.name
  instanceId := some i.id
  path := some path

def extraFieldRule (patterns : PatternEngine) : Rule := fun i c =>
  match c.schema with
  | some schema => (Undeclared.paths patterns (document i) schema "").map (extraFieldIssue i c)
  | none => []

/-- The rules in the order in which an instance goes through them. -/
def rules (engines : ValidationEngines) (options : ValidationOptions) (classes : Classes) : List Rule :=
  schemaRule (compiledSchemas engines.schema classes)
    :: if options.reportExtraFields then [extraFieldRule engines.patterns] else []

def applyPolicy (options : ValidationOptions) (issue : Issue) : Issue :=
  if options.strict then { issue with level := .error } else issue

/-- What the rules find wrong with an instance; nothing if its class is unknown. -/
def instanceIssues (rules : List Rule) (options : ValidationOptions) (classes : Classes) (i : Instance) :
    List Issue :=
  match i.classRef.bind (Dict.get? classes) with
  | some c => (rules.flatMap fun rule => rule i c).map (applyPolicy options)
  | none => []

end Validation

/-- The issues of a snapshot: schemas first, then instances in their order. -/
def Snapshot.validate (engines : ValidationEngines) (options : ValidationOptions) (s : Snapshot) : Report :=
  let rules := Validation.rules engines options s.classes
  ⟨Validation.compileIssues engines.schema s.classes
    ++ s.instances.flatMap (Validation.instanceIssues rules options s.classes)⟩

end DocModel
