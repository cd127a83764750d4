import DocModel.Class.Basic
import DocModel.Error

/-!
# Folding class documents

Documents of one class are layered on each other in the order of their provenance, and each class takes the
provenance of the last. A file whose name ends in `.schema.json` holds the schema of a class, which it names
in `class` or by its own name.
-/

namespace DocModel

namespace ClassDefinition

def sidecarSuffix : String := ".schema.json"

/-- The class that a schema file is named for. -/
def sidecarName? (path : SourcePath) : Option String := do
  let stem ← Text.dropBack? sidecarSuffix (← (← path.fileName?).text?)
  if stem = "" then none else some stem

/-- The name of a document's class and what the document says about it. -/
def fragment (path : SourcePath) : Value → Except DocumentFault (String × Fields)
  | .map body =>
    match sidecarName? path with
    | some stem =>
      let name := match Dict.get? body "class" with
        | some (.string name) => name
        | _ => stem
      .ok (name, [("schema", .map (Dict.erase body "class"))])
    | none =>
      match Dict.get? body "class" with
      | some (.string name) => if name = "" then .error .classWithoutName else .ok (name, body)
      | _ => .error .classWithoutName
  | _ => .error .classNotObject

/-- What is known of a class so far, and the last document that said it. -/
structure Folded where
  fields : Fields
  last : Provenance
  deriving DecidableEq

/-- A document's fragment on top of what is known of its class. -/
def foldStep (folded : Dict Folded) (doc : Document) : Except BuildError (Dict Folded) :=
  match fragment doc.provenance.path doc.value with
  | .error fault => .error (.document doc.provenance.path fault)
  | .ok (name, fields) =>
    let below := match Dict.get? folded name with
      | some known => known.fields
      | none => []
    .ok (Dict.insert folded name ⟨Fields.layer below fields, doc.provenance⟩)

/-- The definitions in the documents, parents not yet applied. -/
def foldDocuments (documents : List Document) : Except BuildError Classes := do
  let folded ← (Document.sorted documents).foldlM foldStep []
  return folded.map fun entry => (entry.1, ofFields entry.1 entry.2.fields entry.2.last)

end ClassDefinition

end DocModel
