import DocModel.Path
import DocModel.Value.Basic

/-!
# Issues and reports

What loading, validation and planning found. An issue has a level, a message and a code, and names what it
is about as far as it is known.
-/

namespace DocModel

inductive Level where
  | warn
  | error
  deriving DecidableEq, Repr

namespace Level

def text : Level → String
  | warn => "warn"
  | error => "error"

end Level

structure Issue where
  level : Level
  message : String
  code : String
  className : Option String := none
  instanceId : Option String := none
  /-- Every instance of an issue that spans several, `instanceId` being the first of them. -/
  instances : List String := []
  keyword : Option String := none
  path : Option String := none
  file : Option String := none
  deriving DecidableEq, Repr

namespace Issue

def isError (issue : Issue) : Bool := issue.level = .error

private def field (name : String) (v : Option String) : List (String × Value) :=
  match v with
  | some s => [(name, .string s)]
  | none => []

/-- The issue as a document; what is not set is left out. -/
def toValue (issue : Issue) : Value :=
  .ofFields <|
    [("level", .string issue.level.text), ("message", .string issue.message), ("code", .string issue.code)]
    ++ field "class" issue.className ++ field "instance" issue.instanceId
    ++ (if issue.instances.isEmpty then [] else [("instances", .strings issue.instances)])
    ++ field "keyword" issue.keyword ++ field "path" issue.path ++ field "file" issue.file

end Issue

/-- Issues in the order in which they were found. -/
structure Report where
  issues : List Issue := []
  deriving DecidableEq, Repr

namespace Report

def add (r : Report) (issues : List Issue) : Report := ⟨r.issues ++ issues⟩

def hasErrors (r : Report) : Bool := r.issues.any Issue.isError

def errorCount (r : Report) : Nat := r.issues.countP Issue.isError

def warningCount (r : Report) : Nat := r.issues.length - r.errorCount

def withCode (r : Report) (code : String) : List Issue := r.issues.filter fun i => i.code = code

def toValue (r : Report) : Value := .ofFields [("issues", .list (r.issues.map Issue.toValue))]

end Report

end DocModel
