import DocModel.Document
import DocModel.Instance.Basic
import DocModel.Merging

/-!
# Folding instance documents

The documents of one id are layered on each other in the order in which they come. Documents without an id,
or with the id `global`, make the global record.
-/

namespace DocModel

/-- The records of each id and the documents that made them. -/
structure FoldedInstances where
  global : Fields := []
  records : Dict Fields := []
  provenance : Dict (List Provenance) := []
  deriving DecidableEq

namespace FoldedInstances

/-- The id that a document belongs to. -/
def idOf : Value → Except DocumentFault String
  | .map body =>
    match Dict.get? body "id" with
    | none => .ok Instance.globalId
    | some .null => .ok Instance.globalId
    | some (.string id) => if id = "" then .error .badId else .ok id
    | some _ => .error .badId
  | _ => .error .instanceNotObject

/-- The fields of a document, none if it is no map. -/
def fieldsOf (v : Value) : Fields := v.map?.getD []

/-- The record of an id, empty if no document belongs to it. -/
def record (folded : FoldedInstances) (id : String) : Fields :=
  if id = Instance.globalId then folded.global else (Dict.get? folded.records id).getD []

/-- Puts a document of an id on top of what is there. -/
def addTo (folded : FoldedInstances) (id : String) (doc : Document) : FoldedInstances :=
  let fields := Fields.layer (folded.record id) (fieldsOf doc.value)
  let provenance := Dict.modify folded.provenance id [] (· ++ [doc.provenance])
  if id = Instance.globalId then { folded with global := fields, provenance }
  else { folded with records := Dict.insert folded.records id fields, provenance }

def add (folded : FoldedInstances) (doc : Document) : Except BuildError FoldedInstances :=
  match idOf doc.value with
  | .ok id => .ok (folded.addTo id doc)
  | .error fault => .error (.document doc.provenance.path fault)

def ofDocuments (documents : List Document) : Except BuildError FoldedInstances :=
  documents.foldlM add {}

end FoldedInstances

end DocModel
