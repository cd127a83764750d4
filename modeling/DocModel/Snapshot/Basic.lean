import DocModel.Class.Forest
import DocModel.Digest.Sha256
import DocModel.Instance.Basic
import DocModel.Value.Text

/-!
# Snapshots

The assembled model and what is derived from it: the order of its instances, the index of their ids, the
class forest and the content hash. `reindexed` derives all of these anew: the global record comes first,
the other instances follow in the order of their ids, and of several with one id the first one stays. The
content hash covers classes and instances, and neither provenance nor the stamp of the build.
-/

namespace DocModel

/-- The roots that a model was loaded from. -/
structure SourceRoots where
  classes : List Path := []
  instances : List Path := []
  templates : List Path := []
  deriving DecidableEq

/-- What tells one build from another of the same model. -/
structure BuildStamp where
  buildId : String
  builtAt : String
  deriving DecidableEq

/-- The first of each run of instances with one id, after an instance `last`. -/
def Instance.dropRepeats (last : Instance) : List Instance → List Instance
  | [] => []
  | i :: rest =>
    if i.id = last.id then dropRepeats last rest else i :: dropRepeats i rest

namespace Instance

/-- The global record first, then by id. -/
def before (a b : Instance) : Bool :=
  (a.isGlobal && !b.isGlobal) || (a.isGlobal == b.isGlobal && a.id < b.id)

/-- Adds the global record if it is missing. -/
def withGlobal (instances : List Instance) : List Instance :=
  if instances.any isGlobal then instances else instances ++ [emptyGlobal]

def sorted (instances : List Instance) : List Instance :=
  instances.mergeSort fun a b => !b.before a

/-- The first of each run of instances with one id. -/
def distinctRuns : List Instance → List Instance
  | [] => []
  | i :: rest => i :: dropRepeats i rest

/-- The instances of a model in their order. -/
def arranged (instances : List Instance) : List Instance := distinctRuns (sorted (withGlobal instances))

end Instance

/-- What comes of reading an instance by its id. -/
inductive InstanceRead where
  | found (i : Instance)
  | missing
  /-- There is a position for the id, and no instance at it. -/
  | outOfRange (position : Nat)
  deriving DecidableEq

def InstanceRead.instance? : InstanceRead → Option Instance
  | .found i => some i
  | .missing | .outOfRange _ => none

structure Snapshot where
  stamp : BuildStamp
  sourceRoots : SourceRoots
  classes : Classes
  instances : List Instance
  provenance : Dict (List Provenance)
  /-- The position of each instance by its id. -/
  index : Dict Nat
  hierarchy : List ClassNode
  contentHash : String

namespace Snapshot

def version : String := "1.0.0"

def stability : String := "stable"

def engineVersion : String := "1.0.0"

/-- The positions of ids in a list of instances. -/
def indexOf (instances : List Instance) : Dict Nat :=
  Dict.ofList (instances.zipIdx.map fun entry => (entry.1.id, entry.2))

/-- The classes and instances of a model as one document. -/
def contentValue (classes : List ClassDefinition) (instances : List Instance) : Value :=
  .map [("classes", .list (classes.map ClassDefinition.toValue)),
    ("instances", .list (instances.map Instance.toValue))]

/-- The text that the content hash is the digest of. -/
def contentText (classes : List ClassDefinition) (instances : List Instance) : String :=
  (contentValue classes instances).compact

def contentHashOf (classes : List ClassDefinition) (instances : List Instance) : String :=
  Sha256.hexDigest (contentText classes instances)

/-- The snapshot with everything derived from its classes and instances. -/
def reindexed (s : Snapshot) : Snapshot :=
  let instances := Instance.arranged s.instances
  { s with
    instances
    index := indexOf instances
    hierarchy := s.classes.forest
    contentHash := contentHashOf (Dict.values s.classes) instances }

/-- The snapshot of loaded classes and instances. -/
def assemble (stamp : BuildStamp) (sourceRoots : SourceRoots) (classes : Classes)
    (instances : List Instance) (provenance : Dict (List Provenance)) : Snapshot :=
  reindexed
    { stamp, sourceRoots, classes, instances, provenance, index := [], hierarchy := [], contentHash := "" }

def global (s : Snapshot) : Instance := s.instances.headD Instance.emptyGlobal

/-- Reads the instance at the position that the index has for an id. -/
def read (s : Snapshot) (id : String) : InstanceRead :=
  match Dict.get? s.index id with
  | none => .missing
  | some n =>
    match s.instances[n]? with
    | some i => .found i
    | none => .outOfRange n

def instance? (s : Snapshot) (id : String) : Option Instance := (s.read id).instance?

def class? (s : Snapshot) (name : String) : Option ClassDefinition := Dict.get? s.classes name

def instancesOf (s : Snapshot) (className : String) : List Instance :=
  s.instances.filter fun i => i.classRef = some className

private def pathValues (paths : List Path) : Value := .strings (paths.map Path.text)

/-- The snapshot as a document. -/
def toFields (s : Snapshot) : Fields :=
  Dict.ofList
    [("version", .string version),
      ("stability", .string stability),
      ("buildMeta", .ofFields
        [("buildId", .string s.stamp.buildId),
          ("engineVersion", .string engineVersion),
          ("sourceRoots", .ofFields
            [("classes", pathValues s.sourceRoots.classes),
              ("instances", pathValues s.sourceRoots.instances),
              ("templates", pathValues s.sourceRoots.templates)]),
          ("contentHash", .string s.contentHash),
          ("builtAt", .string s.stamp.builtAt)]),
      ("global", s.global.toValue),
      ("classes", .ofFields (s.classes.map fun entry => (entry.1, entry.2.toValue))),
      ("classHierarchy", .list (ClassNode.toValues s.hierarchy)),
      ("instances", .list (s.instances.map Instance.toValue)),
      ("instancesById", .ofFields (s.instances.map fun i => (i.id, i.toValue)))]

def toValue (s : Snapshot) : Value := .map s.toFields

end Snapshot

end DocModel
