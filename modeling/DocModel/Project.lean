import DocModel.Class.Inheritance
import DocModel.Config.Basic
import DocModel.Instance.Defaults
import DocModel.Output.Rendering
import DocModel.Snapshot.Draft
import DocModel.Source

/-!
# Projects

A project is loaded, changed through a draft if need be, validated, planned and rendered. `Project.build` does
all of it: nothing but artifacts is written before the report on the very snapshot that is rendered has no
errors, every planned path is known and every template compiles. Loading, validating and planning can also be
asked for alone; they write nothing.
-/

namespace DocModel

/-- What a project leaves to others. -/
structure BuildEngines where
  validation : ValidationEngines
  templates : TemplateEngine

def BuildEngines.standard : BuildEngines := ⟨.standard, .standard⟩

/-- A model with what was found while loading it. -/
structure LoadedProject where
  snapshot : Snapshot
  issues : List Issue

structure BuildResult where
  snapshot : Snapshot
  report : Report
  plan : OutputPlan
  files : List RenderedFile
  collisions : List Collision

namespace Collision

/-- The issue of a collision, which names each owner once. -/
def issue (c : Collision) : Issue :=
  let owners := (c.claims.map Claim.instanceId).eraseDups
  { level := .warn
    code := "output-collision"
    message := "output collision: " ++ c.message
    path := some c.path.text
    instances := owners
    instanceId := owners.head? }

end Collision

namespace Project

/-- Reads, folds and assembles the sources of a project. -/
def load (stamp : BuildStamp) (config : BuildConfig) (ws : Workspace) : Except BuildError LoadedProject := do
  config.check ws
  let resolved ← resolveClasses (← ws.readRoots Document.extension config.classRoots)
  let documents ← ws.readRoots Document.extension config.instanceRoots
  let loaded ← LoadedInstances.ofDocuments resolved.classes documents
  let snapshot :=
    Snapshot.assemble stamp config.sourceRoots resolved.classes loaded.instances loaded.provenance
  return ⟨snapshot, resolved.warnings ++ loaded.warnings⟩

def validate (engines : BuildEngines) (config : BuildConfig) (s : Snapshot) : Report :=
  s.validate engines.validation config.validationOptions

/-- The outputs of a model, without rendering them. -/
def plan (config : BuildConfig) (s : Snapshot) (ws : Workspace) : Except BuildError OutputPlan := do
  OutputPlan.ofSnapshot s (← ws.readTemplates config.templateRoots) config.buildRoot

/-! ## Artifacts -/

/-- A file of the artifacts directory. -/
def artifact (config : BuildConfig) (name : String) (v : Value) : FileWrite :=
  ⟨.artifact, config.artifactsPath.append name, v.pretty⟩

/-- The artifacts of a class: its definition, and its schema if it has one. -/
def classArtifacts (config : BuildConfig) (name : String) (c : ClassDefinition) : List FileWrite :=
  artifact config ("classes/" ++ name ++ ".json") c.toValue
    :: c.schema.toList.map (artifact config ("classes/" ++ name ++ ".schema.json"))

/-- The artifacts of a model. -/
def snapshotArtifacts (config : BuildConfig) (s : Snapshot) : List FileWrite :=
  artifact config "snapshot.json" s.toValue
    :: s.classes.flatMap fun entry => classArtifacts config entry.1 entry.2

def reportArtifact (config : BuildConfig) (r : Report) : FileWrite :=
  artifact config "validation.json" r.toValue

def outputsArtifact (config : BuildConfig) (files : List RenderedFile) : FileWrite :=
  artifact config "outputs.json" (.list (files.map RenderedFile.toValue))

/-- Writes artifacts if the configuration wants any. -/
def writeArtifacts (config : BuildConfig) (writes : List FileWrite) : Build Unit :=
  if config.writeArtifacts then Build.writeAll writes else pure ()

def writeReport (config : BuildConfig) (r : Report) : Build Unit :=
  writeArtifacts config [reportArtifact config r]

/-! ## Building -/

/-- The first collision of a plan, if it ends the build. -/
def fatalCollision? (config : BuildConfig) (plan : OutputPlan) : Option Collision :=
  if config.strictCollisions then plan.collisions.head? else none

/-- Writes what a run has rendered and ends with the error that the run ended with. -/
def writeRun (run : RenderRun) : Build Unit := do
  Build.writeAll (run.files.map RenderedFile.toWrite)
  match run.stopped with
  | some e => throw e
  | none => pure ()

/-- The issues that an error adds to the report. -/
def errorIssues : BuildError → List Issue
  | .collision c => [c.issue]
  | _ => []

/-- Renders a plan and writes the outputs and the report. -/
def render (engines : BuildEngines) (config : BuildConfig) (s : Snapshot) (templates : TemplateSet)
    (plan : OutputPlan) (report : Report) : Build BuildResult := do
  let render ← Build.ofExcept (engines.templates templates)
  let run := RenderSetup.run ⟨render, config.buildRoot, config.strictCollisions, s⟩ plan
  try
    writeRun run
  catch e =>
    writeReport config (report.add (errorIssues e))
    throw e
  let report := report.add (run.collisions.map Collision.issue)
  writeReport config report
  writeArtifacts config [outputsArtifact config run.files]
  return ⟨s, report, plan, run.files, run.collisions⟩

/-- Plans and renders a snapshot that has been validated. -/
def produce (engines : BuildEngines) (config : BuildConfig) (s : Snapshot) (report : Report) :
    Build BuildResult := do
  let templates ← Build.ofRead fun ws => ws.readTemplates config.templateRoots
  let plan ← Build.ofExcept (OutputPlan.ofSnapshot s templates config.buildRoot)
  let report := report.add (plan.collisions.map Collision.issue)
  match fatalCollision? config plan with
  | some c =>
    writeReport config report
    throw (.collision c)
  | none => render engines config s templates plan report

/-- Builds a project; `enrich` can change the model after it is loaded. -/
def build (engines : BuildEngines) (stamp : BuildStamp) (config : BuildConfig)
    (enrich : Draft → Except BuildError Draft) : Build BuildResult := do
  let loaded ← Build.ofRead (load stamp config)
  let draft ← Build.ofExcept (enrich (Draft.ofSnapshot loaded.snapshot))
  let s ← Build.ofExcept (draft.commit fun _ => .ok ())
  let report := Report.add ⟨loaded.issues⟩ (validate engines config s).issues
  writeArtifacts config (snapshotArtifacts config s)
  if report.hasErrors then
    writeReport config report
    throw (.invalid report)
  else
    produce engines config s report

end Project

end DocModel
