import DocModel.Error
import DocModel.Template.Parser
import DocModel.Template.Set
import DocModel.Value.Numeric
import DocModel.Value.Size

/-!
# Rendering a template

A template is rendered with a value and gives a text and the files that it emits on the way. Paths are
followed from the value of the innermost scope; `each` and `with` open scopes. Values are written in
HTML-escaped form unless the tag asks for them as they are.

Templates include each other. `standardEngine` follows as many of them in a row as there are pairs of a
template and a part of the value, after which nothing new can come.
-/

namespace DocModel

namespace TemplateFault

/-- What is said here of every template that does not compile. -/
def unparsed : TemplateFault := malformed "malformed template"

/-- What is said here of every rendering that fails for another reason than a missing filename. -/
def unrendered : TemplateFault := failed "rendering failed"

end TemplateFault

/-- A file that a template asks for. -/
structure EmittedFile where
  filename : String
  content : String
  deriving DecidableEq, Repr

structure RenderedText where
  text : String := ""
  emitted : List EmittedFile := []
  deriving DecidableEq, Repr

namespace RenderedText

def append (a b : RenderedText) : RenderedText := ⟨a.text ++ b.text, a.emitted ++ b.emitted⟩

end RenderedText

/-- The value that paths start from, and the names beside it. -/
structure TemplateScope where
  value : Value
  names : List (String × Value) := []

/-- What rendering gives in some scopes, the innermost one first. -/
abbrev Rendering := List TemplateScope → Except TemplateFault RenderedText

namespace Rendering

def nothing : Rendering := fun _ => .ok {}

/-- One after the other. -/
def andThen (a b : Rendering) : Rendering := fun scopes => do
  let first ← a scopes
  let second ← b scopes
  return first.append second

end Rendering

namespace Value

mutual

/-- A value as templates write it: lists in brackets, maps only hinted at, and nothing for null. -/
def shown : Value → String
  | null => ""
  | string s => s
  | bool b => if b then "true" else "false"
  | number n => (Value.number n).compact
  | list items => "[" ++ shownItems items ++ "]"
  | map _ => "[object]"

def shownItems : List Value → String
  | [] => ""
  | [x] => shown x
  | x :: y :: rest => shown x ++ ", " ++ shownItems (y :: rest)

end

/-- Whether a value counts as there: neither null nor false nor empty nor, unless zero is included, zero. -/
def isTruthy (withZero : Bool) : Value → Bool
  | bool b => b
  | number n => withZero || n.toDouble.isNormal
  | null => false
  | string s => s ≠ ""
  | list items => !items.isEmpty
  | map entries => !entries.isEmpty

end Value

namespace Html

def escapeChar (c : Char) : List Char :=
  if c = '&' then "&amp;".toList
  else if c = '<' then "&lt;".toList
  else if c = '>' then "&gt;".toList
  else if c = '"' then "&quot;".toList
  else if c = '\'' then "&#x27;".toList
  else if c.toNat = 0x60 then "&#x60;".toList
  else if c = '=' then "&#x3D;".toList
  else [c]

def escape (s : String) : String := String.ofList (s.toList.flatMap escapeChar)

end Html

namespace TemplatePath

/-- The index that a step is, as far as lists can be long. -/
def index? (step : String) : Option Nat :=
  let digits := match step.toList with
    | '+' :: rest => rest
    | cs => cs
  if digits.isEmpty || !digits.all Char.isDigit then none
  else
    let n := digits.foldl (fun n c => n * 10 + (c.toNat - '0'.toNat)) 0
    if n < Nat.pow 2 64 then some n else none

/-- One step into a value; a list has steps that are indices only. -/
def step (v : Option Value) (name : String) : Except TemplateFault (Option Value) :=
  match v with
  | some (.list items) =>
    match index? name with
    | some i => .ok items[i]?
    | none => .error .unrendered
  | some (.map entries) => .ok (Dict.get? entries name)
  | _ => .ok none

/-- The scope that lies so far out; the innermost one if there is none. -/
def scopeAt (scopes : List TemplateScope) (outward : Nat) : Option TemplateScope :=
  scopes[outward]? <|> scopes.head?

def resolve (root : Value) (scopes : List TemplateScope) (p : TemplatePath) :
    Except TemplateFault (Option Value) :=
  match p.start with
  | .name =>
    .ok do
      let scope ← scopes[p.outward]?
      Dict.get? scope.names (← p.steps.head?)
  | .root => p.steps.foldlM step (some root)
  | .scope => p.steps.foldlM step ((scopeAt scopes p.outward).map TemplateScope.value)

end TemplatePath

/-- What a template needs from outside. -/
structure TemplateContext where
  root : Value
  /-- How another template is rendered with a value. -/
  included : String → Value → Except TemplateFault RenderedText

namespace TemplateContext

/-- What an argument stands for, null if it leads nowhere. -/
def argument (ctx : TemplateContext) (scopes : List TemplateScope) :
    TemplateArg → Except TemplateFault Value
  | .literal v => .ok v
  | .path p => do return (← p.resolve ctx.root scopes).getD .null

def written (escaped : Bool) (v : Value) : RenderedText :=
  { text := if escaped then Html.escape v.shown else v.shown }

def value (ctx : TemplateContext) (escaped : Bool) (p : TemplatePath) : Rendering := fun scopes => do
  return written escaped ((← p.resolve ctx.root scopes).getD .null)

end TemplateContext

/-- A call with what its arguments stand for, and the block under it. -/
structure HelperInput where
  args : List Value
  withZero : Bool
  body : Option Rendering
  otherwise : Rendering

namespace Helpers

/-- Runs a block if there is one. -/
def run (body : Option Rendering) : Rendering := body.getD Rendering.nothing

def condition (holds : Bool → Bool) (input : HelperInput) : Rendering := fun scopes =>
  match input.args with
  | [] => .error .unrendered
  | v :: _ => if holds (v.isTruthy input.withZero) then run input.body scopes else input.otherwise scopes

/-- The scopes of a loop, each with its first and last one marked. -/
def loopScopes (name : String) (members : List (Value × Value)) : List TemplateScope :=
  members.zipIdx.map fun ((key, v), i) =>
    { value := v
      names := [("first", .bool (i = 0)), ("last", .bool (i + 1 = members.length)), (name, key)] }

/-- Renders a body once for each scope. -/
def loop (body : Rendering) (scopes inner : List TemplateScope) : Except TemplateFault RenderedText :=
  inner.foldlM (fun done scope => return done.append (← body (scope :: scopes))) {}

def each (input : HelperInput) : Rendering := fun scopes =>
  match input.args, input.body with
  | [], _ => .error .unrendered
  | _, none => .ok {}
  | .list (x :: xs) :: _, some body =>
    loop body scopes (loopScopes "index" ((x :: xs).zipIdx.map fun (v, i) => (.ofNat i, v)))
  | .map (e :: es) :: _, some body =>
    loop body scopes (loopScopes "key" ((e :: es).map fun (k, v) => (.string k, v)))
  | _, _ => input.otherwise scopes

/-- `with`: a scope for one value. -/
def withValue (input : HelperInput) : Rendering := fun scopes =>
  match input.args with
  | [] => .error .unrendered
  | v :: _ =>
    if v.isTruthy false then run input.body ({ value := v } :: scopes) else input.otherwise scopes

/-- What a list or a map has under a key, null if it has nothing. -/
def found (collection key : Value) : Value :=
  match collection, key with
  | .list items, .number (.int n) => if n < 0 then .null else (items[n.toNat]?).getD .null
  | .map entries, .string k => (Dict.get? entries k).getD .null
  | _, _ => .null

def lookup (escaped : Bool) (input : HelperInput) : Rendering := fun _ =>
  match input.args with
  | collection :: key :: _ => .ok (TemplateContext.written escaped (found collection key))
  | _ => .error .unrendered

def json (input : HelperInput) : Rendering := fun _ =>
  match input.args with
  | [] => .ok {}
  | v :: _ => .ok { text := v.compact }

/-- A file's content: the block under the call, or a text as it is and other values as pretty JSON. -/
def emitContent (input : HelperInput) : Rendering := fun scopes =>
  match input.body, input.args with
  | some body, _ => body scopes
  | none, _ :: .string s :: _ => .ok { text := s }
  | none, _ :: v :: _ => .ok { text := v.pretty }
  | none, _ => .ok {}

def emit (input : HelperInput) : Rendering := fun scopes =>
  match input.args with
  | .string filename :: _ => do
    let content ← emitContent input scopes
    return { emitted := content.emitted ++ [⟨filename, content.text⟩] }
  | _ => .error (.emitWithoutFilename "")

/-- The helper of a name. -/
def call (name : String) (escaped : Bool) (input : HelperInput) : Rendering :=
  match name with
  | "if" => condition id input
  | "unless" => condition (!·) input
  | "each" => each input
  | "with" => withValue input
  | "lookup" => lookup escaped input
  | "json" => json input
  | "emit" => emit input
  | _ => fun _ => .error .unrendered

end Helpers

namespace HelperCall

def render (ctx : TemplateContext) (c : HelperCall) (escaped : Bool) (body : Option Rendering)
    (otherwise : Rendering) : Rendering := fun scopes => do
  let args ← c.args.mapM (ctx.argument scopes)
  let options ← c.options.mapM fun option => return (option.1, ← ctx.argument scopes option.2)
  let withZero := Dict.get? options "includeZero" = some (.bool true)
  Helpers.call c.name escaped { args, withZero, body, otherwise } scopes

end HelperCall

/-- Puts an indent after every line break that something follows. -/
def indentLines (indent : List Char) : List Char → List Char
  | [] => []
  | '\n' :: c :: rest => '\n' :: (indent ++ indentLines indent (c :: rest))
  | c :: rest => c :: indentLines indent rest

namespace TemplateContext

/-- Renders another template with a value, by default that of the innermost scope. -/
def includeOther (ctx : TemplateContext) (key : String) (arg : Option TemplateArg) (indent : String) :
    Rendering := fun scopes => do
  let v ← match arg with
    | some a => ctx.argument scopes a
    | none => pure ((scopes.head?.map TemplateScope.value).getD .null)
  let rendered ← ctx.included key v
  return { rendered with text := String.ofList (indentLines indent.toList rendered.text.toList) }

end TemplateContext

mutual

def TemplateNode.render (ctx : TemplateContext) : TemplateNode → Rendering
  | .text s => fun _ => .ok { text := s }
  | .value escaped path => ctx.value escaped path
  | .call escaped c => c.render ctx escaped none Rendering.nothing
  | .block c body otherwise => c.render ctx true (some (renderNodes ctx body)) (renderNodes ctx otherwise)
  | .included key arg indent => ctx.includeOther key arg indent

def renderNodes (ctx : TemplateContext) : List TemplateNode → Rendering
  | [] => Rendering.nothing
  | node :: rest => Rendering.andThen (TemplateNode.render ctx node) (renderNodes ctx rest)

end

/-! ## Sets of templates -/

/-- Renders the template of a key with a value. -/
abbrev TemplateRenderer := String → Value → Except TemplateFault RenderedText

/-- Compiles all templates of a set, or says which one it cannot compile. -/
abbrev TemplateEngine := TemplateSet → Except BuildError TemplateRenderer

namespace TemplateEngine

/-- Templates in their parsed form. -/
abbrev Compiled := Dict (List TemplateNode)

def compileOne (t : Template) : Except BuildError (String × List TemplateNode) :=
  match TemplateNode.parse t.source with
  | .ok nodes => .ok (t.key, nodes)
  | .error _ => .error (.template t.key .unparsed)

/-- Whether a template includes itself outside of any block, which never ends. -/
def includesItself (key : String) (nodes : List TemplateNode) : Bool :=
  nodes.any fun node => match node with
    | .included other _ _ => other = key
    | _ => false

/-- Renders a template that may include others `fuel` deep. -/
def renderWith (compiled : Compiled) (root : Value) : Nat → String → Value →
    Except TemplateFault RenderedText
  | 0, _, _ => .error .unrendered
  | fuel + 1, key, v =>
    match Dict.get? compiled key with
    | none => .error .unrendered
    | some nodes =>
      if includesItself key nodes then .error .unrendered
      else renderNodes ⟨root, renderWith compiled root fuel⟩ nodes [{ value := v }]

def standard : TemplateEngine := fun set => do
  let compiled ← set.list.mapM compileOne
  return fun key root => renderWith compiled root ((set.length + 1) * (root.size + 1)) key root

end TemplateEngine

end DocModel
