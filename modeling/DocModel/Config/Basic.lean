import DocModel.Decoding
import DocModel.Snapshot.Basic
import DocModel.Workspace

/-!
# Build configurations

What a build reads and where it writes. `check` wants something to load and every root to be a directory that
exists; the first root that is not, in the order of classes, instances and templates, is the fault.
-/

namespace DocModel

structure BuildConfig where
  classRoots : List Path := []
  instanceRoots : List Path := []
  templateRoots : List Path := []
  buildRoot : Path := ⟨"build"⟩
  /-- Where artifacts go; below the build root if not given. -/
  artifactsRoot : Option Path := none
  writeArtifacts : Bool := true
  /-- Whether what validation finds are errors. -/
  strict : Bool := false
  /-- Whether the first collision ends a build. -/
  strictCollisions : Bool := false
  reportExtraFields : Bool := false
  deriving DecidableEq

namespace BuildConfig

/-- How a configuration is decoded, given how its flags and paths are. -/
def formatOf (flag : Decoder Bool) (path : Decoder Path) : RecordFormat BuildConfig where
  name := "BuildConfig"
  start := {}
  fields :=
    [.of "class_roots" (.list path) fun c v => { c with classRoots := v },
      .of "instance_roots" (.list path) fun c v => { c with instanceRoots := v },
      .of "template_roots" (.list path) fun c v => { c with templateRoots := v },
      .of "build_root" path fun c v => { c with buildRoot := v },
      .of "artifacts_dir" (.optional path) fun c v => { c with artifactsRoot := v },
      .of "write_artifacts" flag fun c v => { c with writeArtifacts := v },
      .of "strict" flag fun c v => { c with strict := v },
      .of "strict_collisions" flag fun c v => { c with strictCollisions := v },
      .of "report_extra_fields" flag fun c v => { c with reportExtraFields := v }]

def format : RecordFormat BuildConfig := formatOf Decoder.bool Decoder.path

private def roots (paths : List Path) : Value := .strings (paths.map Path.text)

def toValue (c : BuildConfig) : Value :=
  .ofFields
    [("class_roots", roots c.classRoots), ("instance_roots", roots c.instanceRoots),
      ("template_roots", roots c.templateRoots), ("build_root", .string c.buildRoot.text),
      ("artifacts_dir", (c.artifactsRoot.map fun p => Value.string p.text).getD .null),
      ("write_artifacts", .bool c.writeArtifacts), ("strict", .bool c.strict),
      ("strict_collisions", .bool c.strictCollisions),
      ("report_extra_fields", .bool c.reportExtraFields)]

/-- Where artifacts go. -/
def artifactsPath (c : BuildConfig) : Path := c.artifactsRoot.getD (c.buildRoot.append "_artifacts")

def validationOptions (c : BuildConfig) : ValidationOptions :=
  { strict := c.strict, reportExtraFields := c.reportExtraFields }

def sourceRoots (c : BuildConfig) : SourceRoots :=
  { classes := c.classRoots, instances := c.instanceRoots, templates := c.templateRoots }

def allRoots (c : BuildConfig) : List Path := c.classRoots ++ c.instanceRoots ++ c.templateRoots

/-- What is wrong with a root. -/
def rootFault? (ws : Workspace) (root : Path) : Option BuildError :=
  if ws.isDir root then none
  else if ws.contains root then some (.root root .notDirectory)
  else some (.root root .missing)

def check (c : BuildConfig) (ws : Workspace) : Except BuildError Unit :=
  if c.classRoots.isEmpty && c.instanceRoots.isEmpty then .error (.config .noRoots)
  else
    match c.allRoots.findSome? (rootFault? ws) with
    | some e => .error e
    | none => .ok ()

/-- Places every relative path of a configuration below `base`. -/
def rebase (c : BuildConfig) (base : Path) : BuildConfig :=
  { c with
    classRoots := c.classRoots.map base.join
    instanceRoots := c.instanceRoots.map base.join
    templateRoots := c.templateRoots.map base.join
    buildRoot := base.join c.buildRoot
    artifactsRoot := c.artifactsRoot.map base.join }

end BuildConfig

end DocModel
