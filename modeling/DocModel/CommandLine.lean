import DocModel.Config.Load
import DocModel.Project

/-!
# The command line

A command with options that may stand before or after it. Options after the command win over the same options
before it; an option with one value must not be given twice in one place. Options override the configuration
file: lists of roots replace its lists, and a flag can be set but not taken back.

`Invocation.run` gives the text for standard output and the exit code: 2 if validation or a collision ended
the command, 1 after any other error.
-/

namespace DocModel

inductive Command where
  | build
  | validate
  | snapshot
  | plan
  deriving DecidableEq, Repr

namespace Command

def ofName? : String → Option Command
  | "build" => some build
  | "validate" => some validate
  | "snapshot" => some snapshot
  | "plan" => some plan
  | _ => none

end Command

/-- Options as they are given in one place. -/
structure CommandOptions where
  config : Option Path := none
  classRoots : List Path := []
  instanceRoots : List Path := []
  templateRoots : List Path := []
  buildRoot : Option Path := none
  strict : Bool := false
  strictCollisions : Bool := false
  extraFields : Bool := false
  verbosity : Nat := 0
  deriving DecidableEq

/-- An option either is a flag or takes a path; it fails if it must not be given again. -/
inductive OptionKind where
  | flag (set : CommandOptions → Option CommandOptions)
  | path (set : CommandOptions → Path → Option CommandOptions)

namespace CommandOptions

def setConfig (o : CommandOptions) (p : Path) : Option CommandOptions :=
  if o.config.isSome then none else some { o with config := some p }

def setBuildRoot (o : CommandOptions) (p : Path) : Option CommandOptions :=
  if o.buildRoot.isSome then none else some { o with buildRoot := some p }

def addVerbose (o : CommandOptions) : Option CommandOptions := some { o with verbosity := o.verbosity + 1 }

def long? : String → Option OptionKind
  | "config" => some (.path setConfig)
  | "class-root" => some (.path fun o p => some { o with classRoots := o.classRoots ++ [p] })
  | "instance-root" => some (.path fun o p => some { o with instanceRoots := o.instanceRoots ++ [p] })
  | "template-root" => some (.path fun o p => some { o with templateRoots := o.templateRoots ++ [p] })
  | "build-root" => some (.path setBuildRoot)
  | "strict" => some (.flag fun o => if o.strict then none else some { o with strict := true })
  | "strict-collisions" =>
    some (.flag fun o => if o.strictCollisions then none else some { o with strictCollisions := true })
  | "extra-fields" =>
    some (.flag fun o => if o.extraFields then none else some { o with extraFields := true })
  | "verbose" => some (.flag addVerbose)
  | _ => none

def short? : Char → Option OptionKind
  | 'c' => some (.path setConfig)
  | 'v' => some (.flag addVerbose)
  | _ => none

/-- What an argument does to the options: it is complete, or it still needs a value. -/
inductive Effect where
  | complete (options : CommandOptions)
  | needsValue (set : Path → Option CommandOptions)

/-- Sets a path, which must not be empty. -/
def setPath (set : Path → Option CommandOptions) (value : List Char) : Option CommandOptions :=
  if value.isEmpty then none else set ⟨String.ofList value⟩

/-- Reads `name` or `name=value` after two dashes. -/
def readLong (o : CommandOptions) (cs : List Char) : Option Effect := do
  let name := cs.takeWhile (· ≠ '=')
  match ← long? (String.ofList name), cs.drop name.length with
  | .flag set, [] => return .complete (← set o)
  | .flag _, _ :: _ => none
  | .path set, [] => return .needsValue (set o)
  | .path set, _ :: value => return .complete (← setPath (set o) value)

/-- Reads letters after one dash; what follows a letter that takes a path is its value. -/
def readShort (o : CommandOptions) : List Char → Option Effect
  | [] => some (.complete o)
  | c :: rest => do
    match ← short? c with
    | .flag set => readShort (← set o) rest
    | .path set =>
      match rest with
      | [] => return .needsValue (set o)
      | '=' :: value => return .complete (← setPath (set o) value)
      | value => return .complete (← setPath (set o) value)

/-- Whether an argument is an option and no value. -/
def isOption (arg : List Char) : Bool :=
  match arg with
  | '-' :: _ :: _ => true
  | _ => false

/-- Reads one option. -/
def readOption (o : CommandOptions) (arg : List Char) : Option Effect :=
  match arg with
  | '-' :: '-' :: name => readLong o name
  | '-' :: letters => readShort o letters
  | _ => none

/-- Reads options up to the first argument that is none; gives the options and what is left. -/
def read (o : CommandOptions) : List String → Option (CommandOptions × List String)
  | [] => some (o, [])
  | arg :: rest =>
    if arg = "--" then (if rest.isEmpty then some (o, []) else none)
    else if !isOption arg.toList then some (o, arg :: rest)
    else
      match readOption o arg.toList with
      | none => none
      | some (.complete o) => read o rest
      | some (.needsValue set) =>
        match rest with
        | [] => none
        | value :: rest =>
          if isOption value.toList then none
          else
            match setPath set value.toList with
            | some o => read o rest
            | none => none

/-- The options before a command together with those after it. -/
def override (before after : CommandOptions) : CommandOptions where
  config := after.config <|> before.config
  classRoots := if after.classRoots.isEmpty then before.classRoots else after.classRoots
  instanceRoots := if after.instanceRoots.isEmpty then before.instanceRoots else after.instanceRoots
  templateRoots := if after.templateRoots.isEmpty then before.templateRoots else after.templateRoots
  buildRoot := after.buildRoot <|> before.buildRoot
  strict := before.strict || after.strict
  strictCollisions := before.strictCollisions || after.strictCollisions
  extraFields := before.extraFields || after.extraFields
  verbosity := if after.verbosity = 0 then before.verbosity else after.verbosity

/-- A configuration with the options on top. -/
def apply (o : CommandOptions) (c : BuildConfig) : BuildConfig :=
  { c with
    classRoots := if o.classRoots.isEmpty then c.classRoots else o.classRoots
    instanceRoots := if o.instanceRoots.isEmpty then c.instanceRoots else o.instanceRoots
    templateRoots := if o.templateRoots.isEmpty then c.templateRoots else o.templateRoots
    buildRoot := o.buildRoot.getD c.buildRoot
    strict := c.strict || o.strict
    strictCollisions := c.strictCollisions || o.strictCollisions
    reportExtraFields := c.reportExtraFields || o.extraFields }

/-- The configuration of the options and of the file that they name. -/
def configuration (o : CommandOptions) (ws : Workspace) : Except BuildError BuildConfig :=
  match o.config with
  | some file => (BuildConfig.load file ws).map o.apply
  | none => .ok (o.apply {})

end CommandOptions

/-- A command with its options. -/
structure Invocation where
  command : Command
  options : CommandOptions

/-- What a command prints, and its exit code. -/
structure CommandAnswer where
  code : Nat
  output : String
  deriving DecidableEq

namespace CommandAnswer

def ofValue (code : Nat) (v : Value) : CommandAnswer := ⟨code, v.pretty ++ "\n"⟩

/-- The answer to arguments that make no sense. -/
def badArguments : CommandAnswer := ⟨2, ""⟩

def errorCode : BuildError → Nat
  | .invalid _ => 2
  | .collision _ => 2
  | _ => 1

def ofError (e : BuildError) : CommandAnswer :=
  let report := match e with
    | .invalid report => [("report", report.toValue)]
    | _ => []
  ofValue (errorCode e)
    (.ofFields ([("success", .bool false), ("error", .string e.message)] ++ report))

def ofBuild (r : BuildResult) : CommandAnswer :=
  ofValue 0 <| .ofFields
    [("success", .bool true), ("contentHash", .string r.snapshot.contentHash),
      ("written", .list (r.files.map RenderedFile.toValue)), ("report", r.report.toValue)]

def ofReport (r : Report) : CommandAnswer := ofValue (if r.hasErrors then 2 else 0) r.toValue

end CommandAnswer

namespace Invocation

/-- The command of some arguments; nothing if they make no sense. -/
def ofArguments? (args : List String) : Option Invocation := do
  let (before, rest) ← CommandOptions.read {} args
  match rest with
  | name :: rest =>
    let command ← Command.ofName? name
    let (after, rest) ← CommandOptions.read {} rest
    if rest.isEmpty then return ⟨command, before.override after⟩ else none
  | [] => none

/-- What a command answers when it succeeds, or the error that ended it. -/
def answer (engines : BuildEngines) (stamp : BuildStamp) (i : Invocation) : Build CommandAnswer := do
  let config ← Build.ofRead i.options.configuration
  match i.command with
  | .build => return CommandAnswer.ofBuild (← Project.build engines stamp config .ok)
  | .validate =>
    let loaded ← Build.ofRead (Project.load stamp config)
    let report := Report.add ⟨loaded.issues⟩ (Project.validate engines config loaded.snapshot).issues
    return CommandAnswer.ofReport report
  | .snapshot =>
    let loaded ← Build.ofRead (Project.load stamp config)
    return CommandAnswer.ofValue 0 loaded.snapshot.toValue
  | .plan =>
    let loaded ← Build.ofRead (Project.load stamp config)
    let plan ← Build.ofRead (Project.plan config loaded.snapshot)
    return CommandAnswer.ofValue 0 plan.toValue

/-- Runs a command. -/
def run (engines : BuildEngines) (stamp : BuildStamp) (i : Invocation) (ws : Workspace) :
    CommandAnswer × Workspace :=
  match i.answer engines stamp ws with
  | (.ok a, ws) => (a, ws)
  | (.error e, ws) => (CommandAnswer.ofError e, ws)

end Invocation

/-- Runs a command line. -/
def runCommandLine (engines : BuildEngines) (stamp : BuildStamp) (args : List String) (ws : Workspace) :
    CommandAnswer × Workspace :=
  match Invocation.ofArguments? args with
  | some i => i.run engines stamp ws
  | none => (CommandAnswer.badArguments, ws)

end DocModel
