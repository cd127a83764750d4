import DocModel.Error

/-!
# Instances

An instance has an id, may refer to a class, and asks for outputs in its `build` list. `ofFields` splits a
document into these and the fields of its own; `toFields` puts them together again.
-/

namespace DocModel

/-- One output that an instance asks for; a bare one leaves its filename to the plan. -/
structure BuildDirective where
  template : String
  filename : Option String := none
  deriving DecidableEq, Repr

namespace BuildDirective

def toValue (d : BuildDirective) : Value :=
  match d.filename with
  | none => .string d.template
  | some filename => .map [(d.template, .string filename)]

/-- The directives of a map of filenames by template. -/
def ofPairs : List (String × Value) → Except DirectiveFault (List BuildDirective)
  | [] => .ok []
  | (template, .string filename) :: rest => do
    let more ← ofPairs rest
    return ⟨template, some filename⟩ :: more
  | (template, _) :: _ => .error (.filenameNotString template)

/-- The directives of one entry of a `build` list. -/
def ofEntry : Value → Except DirectiveFault (List BuildDirective)
  | .string template => .ok [⟨template, none⟩]
  | .map pairs => ofPairs pairs
  | other => .error (.unsupported other)

/-- The directives of the entries of a `build` list. -/
def ofEntries : List Value → Except DirectiveFault (List BuildDirective)
  | [] => .ok []
  | entry :: rest => do
    let directives ← ofEntry entry
    let more ← ofEntries rest
    return directives ++ more

/-- The directives of a `build` list. -/
def ofValue : Value → Except DirectiveFault (List BuildDirective)
  | .list entries => ofEntries entries
  | _ => .error .notList

end BuildDirective

structure Instance where
  id : String
  classRef : Option String := none
  properties : Fields := []
  build : List BuildDirective := []
  deriving DecidableEq

namespace Instance

/-- The id of the record that documents without an id belong to. -/
def globalId : String := "global"

def emptyGlobal : Instance := { id := globalId }

def isGlobal (i : Instance) : Bool := i.id = globalId

/-- The class that a document refers to. -/
def classRefOf (id : String) : Option Value → Except BuildError (Option String)
  | none => .ok none
  | some .null => .ok none
  | some (.string name) => .ok (some name)
  | some other => .error (.merge (.badClassReference id other))

/-- The directives that a document's `build` field holds. -/
def buildOf (id : String) : Option Value → Except BuildError (List BuildDirective)
  | none => .ok []
  | some .null => .ok []
  | some v =>
    match BuildDirective.ofValue v with
    | .ok directives => .ok directives
    | .error fault => .error (.merge (.badDirectives id fault))

/-- The instance in a document. -/
def ofFields (id : String) (fields : Fields) : Except BuildError Instance := do
  let classRef ← classRefOf id (Dict.get? fields "class")
  let build ← buildOf id (Dict.get? fields "build")
  return { id, classRef, properties := ["id", "class", "build"].foldl Dict.erase fields, build }

/-- The instance as a document. -/
def toFields (i : Instance) : Fields :=
  let fields := Dict.insert i.properties "id" (.string i.id)
  let fields := match i.classRef with
    | some name => Dict.insert fields "class" (.string name)
    | none => fields
  if i.build.isEmpty then fields
  else Dict.insert fields "build" (.list (i.build.map BuildDirective.toValue))

def toValue (i : Instance) : Value := .map i.toFields

end Instance

end DocModel
