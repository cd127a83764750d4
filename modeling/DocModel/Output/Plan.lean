import DocModel.Output.Claim
import DocModel.Snapshot.Basic
import DocModel.Template.Set

/-!
# The output plan

Every output of a model with its path, before anything is written. Paths that several owners claim are the
plan's collisions. A second check follows while templates run: a `Tracker` starts from the planned outputs
and reports every emitted file whose path is claimed already.
-/

namespace DocModel

structure PlannedOutput where
  path : Path
  template : String
  instanceId : String
  deriving DecidableEq

namespace PlannedOutput

def claim (o : PlannedOutput) : Claim := ⟨o.template, o.instanceId, .directive⟩

def toValue (o : PlannedOutput) : Value :=
  .ofFields [("path", .string o.path.text), ("template", .string o.template),
    ("instanceId", .string o.instanceId)]

end PlannedOutput

/-- The claims on each path, in the order of paths; a path is written as it was first claimed. -/
abbrev ClaimTable := List (Path × List Claim)

namespace ClaimTable

/-- The claims on a path, in the order in which they were made. -/
def on (table : ClaimTable) (path : Path) : List Claim :=
  match table with
  | [] => []
  | (p, claims) :: rest => if p.same path then claims else on rest path

def add (table : ClaimTable) (path : Path) (claim : Claim) : ClaimTable :=
  match table with
  | [] => [(path, [claim])]
  | (p, claims) :: rest =>
    if p.same path then (p, claims ++ [claim]) :: rest
    else if path.before p then (path, [claim]) :: (p, claims) :: rest
    else (p, claims) :: add rest path claim

/-- The paths with more than one claim. -/
def collisions (table : ClaimTable) : List Collision :=
  (table.filter fun entry => 1 < entry.2.length).map fun entry => ⟨entry.1, entry.2⟩

end ClaimTable

structure OutputPlan where
  outputs : List PlannedOutput := []
  collisions : List Collision := []
  deriving DecidableEq

namespace OutputPlan

def hasCollisions (plan : OutputPlan) : Bool := !plan.collisions.isEmpty

def toValue (plan : OutputPlan) : Value :=
  .ofFields [("outputs", .list (plan.outputs.map PlannedOutput.toValue)),
    ("collisions", .list (plan.collisions.map Collision.toValue))]

/-- The output that a directive of an instance asks for. -/
def planDirective (templates : TemplateSet) (root : Path) (instanceId : String) (d : BuildDirective) :
    Except BuildError PlannedOutput :=
  match templates.keyFor? d.template with
  | none => .error (.templateNotFound d.template)
  | some key =>
    let filename := d.filename.getD (Output.defaultFilename key instanceId)
    match Output.outputPath key filename root with
    | .ok path => .ok ⟨path, key, instanceId⟩
    | .error fault => .error (.location key instanceId fault)

/-- The outputs found so far and the claims that they make. -/
structure Progress where
  outputs : List PlannedOutput := []
  claims : ClaimTable := []

/-- Adds an output, unless its owner has claimed its path already. -/
def Progress.add (progress : Progress) (o : PlannedOutput) : Progress :=
  if (progress.claims.on o.path).any o.claim.sameOwner then progress
  else ⟨progress.outputs ++ [o], progress.claims.add o.path o.claim⟩

/-- The directives of all instances, in order. -/
def requests (instances : List Instance) : List (String × BuildDirective) :=
  instances.flatMap fun i => i.build.map ((i.id, ·))

/-- The plan of a model. -/
def ofSnapshot (s : Snapshot) (templates : TemplateSet) (root : Path) : Except BuildError OutputPlan := do
  let outputs ← (requests s.instances).mapM fun request => planDirective templates root request.1 request.2
  let progress := outputs.foldl Progress.add {}
  return ⟨progress.outputs, progress.claims.collisions⟩

end OutputPlan

/-- The claims made so far. -/
structure Tracker where
  claims : ClaimTable := []

namespace Tracker

def ofPlan (plan : OutputPlan) : Tracker :=
  ⟨plan.outputs.foldl (fun table o => ClaimTable.add table o.path o.claim) []⟩

/-- Makes a claim; if there are earlier ones on its path, all of them collide. -/
def claim (t : Tracker) (path : Path) (c : Claim) : Option Collision × Tracker :=
  let earlier := t.claims.on path
  (if earlier.isEmpty then none else some ⟨path, earlier ++ [c]⟩, ⟨t.claims.add path c⟩)

end Tracker

end DocModel
