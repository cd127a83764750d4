import DocModel.Value.Basic

/-!
# The syntax of templates

A template is a list of nodes: text, values that are looked up by a path, calls of helpers, blocks that a
helper governs, and other templates.
-/

namespace DocModel

/-- Where a path starts. -/
inductive PathStart where
  /-- At the value of a scope. -/
  | scope
  /-- At the value that the whole template is rendered with. -/
  | root
  /-- At a name that a scope defines beside its value. -/
  | name
  deriving DecidableEq, Repr

/-- A path to a value: so many scopes further out, then step by step inside. -/
structure TemplatePath where
  /-- The path as it is written. -/
  text : String
  start : PathStart
  outward : Nat
  steps : List String
  deriving DecidableEq, Repr

inductive TemplateArg where
  | literal (v : Value)
  | path (p : TemplatePath)

/-- A helper with its arguments and named options. -/
structure HelperCall where
  name : String
  args : List TemplateArg := []
  options : List (String × TemplateArg) := []

inductive TemplateNode where
  | text (s : String)
  | value (escaped : Bool) (path : TemplatePath)
  | call (escaped : Bool) (call : HelperCall)
  /-- A block and what stands in its place if the helper does not want it. -/
  | block (call : HelperCall) (body otherwise : List TemplateNode)
  /-- Another template; its lines but the first one are indented. -/
  | included (key : String) (value : Option TemplateArg) (indent : String)

namespace HelperCall

/-- The helpers that can be called without arguments. -/
def names : List String := ["if", "unless", "each", "with", "lookup", "json", "emit"]

end HelperCall

end DocModel
