import DocModel.Digest.Sha256
import DocModel.Output.Plan
import DocModel.Template.Render
import DocModel.Workspace

/-!
# Rendering a plan

The planned outputs are rendered in order. The files that a template emits take their paths by the rules of
all outputs and claim them one by one after the plan's own claims; a clash is recorded or, under strict
collisions, ends the run before the file is written. What a run renders is a list of files; writing them is
left to the build, so a run can be looked at as a whole.
-/

namespace DocModel

/-- A file with the output that it belongs to. -/
structure RenderedFile where
  path : Path
  template : String
  instanceId : String
  origin : Origin
  content : String
  deriving DecidableEq

namespace RenderedFile

def hash (f : RenderedFile) : String := Sha256.hexDigest f.content

def toValue (f : RenderedFile) : Value :=
  .ofFields [("path", .string f.path.text), ("template", .string f.template),
    ("instanceId", .string f.instanceId), ("origin", .string f.origin.text), ("hash", .string f.hash)]

def toWrite (f : RenderedFile) : FileWrite := ⟨.output, f.path, f.content⟩

end RenderedFile

/-- What has been rendered so far, and the error that ended the run if there was one. -/
structure RenderRun where
  files : List RenderedFile := []
  collisions : List Collision := []
  tracker : Tracker := {}
  stopped : Option BuildError := none

/-- What rendering a plan depends on. -/
structure RenderSetup where
  render : TemplateRenderer
  root : Path
  strict : Bool
  snapshot : Snapshot

namespace RenderSetup

/-- What a template is rendered with: the model, and beside it the instance, the template and the path below
the build root. -/
def context (setup : RenderSetup) (i : Instance) (o : PlannedOutput) : Value :=
  let fields := Dict.insert setup.snapshot.toFields "instance" i.toValue
  let fields := Dict.insert fields "template" (.string o.template)
  .map (Dict.insert fields "outputPath" (.string (o.path.relativeText setup.root)))

/-- Gives an emitted file its path and claims it. -/
def addEmitted (setup : RenderSetup) (o : PlannedOutput) (run : RenderRun) (f : EmittedFile) : RenderRun :=
  match Output.outputPath o.template f.filename setup.root with
  | .error fault => { run with stopped := some (.location o.template o.instanceId fault) }
  | .ok path =>
    let (clash, tracker) := run.tracker.claim path ⟨o.template, o.instanceId, .emitted⟩
    let files := run.files ++ [⟨path, o.template, o.instanceId, .emitted, f.content⟩]
    match clash with
    | none => { run with tracker, files }
    | some c =>
      if setup.strict then { run with tracker, stopped := some (.collision c) }
      else { run with tracker, files, collisions := run.collisions ++ [c] }

/-- Goes on with a run unless it has ended. -/
def proceed {α : Type} (add : RenderRun → α → RenderRun) (run : RenderRun) (next : α) : RenderRun :=
  if run.stopped.isSome then run else add run next

/-- Renders a planned output and what it emits. -/
def addOutput (setup : RenderSetup) (run : RenderRun) (o : PlannedOutput) : RenderRun :=
  match setup.snapshot.instance? o.instanceId with
  | none => { run with stopped := some (.merge (.missingInstance o.instanceId)) }
  | some i =>
    match setup.render o.template (setup.context i o) with
    | .error fault => { run with stopped := some (.template o.template fault) }
    | .ok rendered =>
      let files := run.files ++ [⟨o.path, o.template, o.instanceId, .directive, rendered.text⟩]
      rendered.emitted.foldl (proceed (setup.addEmitted o)) { run with files }

/-- Renders a plan. -/
def run (setup : RenderSetup) (plan : OutputPlan) : RenderRun :=
  plan.outputs.foldl (proceed setup.addOutput) { tracker := Tracker.ofPlan plan }

end RenderSetup

end DocModel
