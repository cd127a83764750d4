import DocModel.Pattern.CharSets
import DocModel.Template.Syntax
import DocModel.Value.Reader

/-!
# Tags and text

A template is cut into text and tags between double braces. A backslash before a tag makes text of it, and
two backslashes stand for one before a tag. A tilde at either end of a tag takes the blanks on that side
away. A tag that controls what is rendered and stands alone on its line takes the line with it.
-/

namespace DocModel

/-- What a tag is for. -/
inductive TagKind where
  | value (escaped : Bool) (path : TemplatePath)
  | call (escaped : Bool) (call : HelperCall)
  | included (key : String) (value : Option TemplateArg)
  | blockStart (call : HelperCall)
  /-- Ends one part of a block and starts the next under another helper. -/
  | blockChain (call : HelperCall)
  /-- Ends the last governed part of a block. -/
  | blockElse
  | blockStop (name : String)
  | comment

structure TemplateTag where
  kind : TagKind
  trimBefore : Bool
  trimAfter : Bool
  /-- Nothing else stands on the line. -/
  alone : Bool
  /-- The blanks between the start of the line, or the last tag, and this one. -/
  indent : String

inductive TemplateToken where
  | text (s : List Char)
  | tag (t : TemplateTag)

namespace TemplateLexer

def isBlank (c : Char) : Bool := c = ' ' || c = '\t'

def isLineBreak (c : Char) : Bool := c = '\n' || c = '\r'

/-- What may stand between the parts of a tag. -/
def isGap (c : Char) : Bool := isBlank c || isLineBreak c

def skipGap (cs : List Char) : List Char := cs.dropWhile isGap

/-- A character of a name. -/
def isNameChar (c : Char) : Bool := c.isAlphanum || c = '_' || c = '-' || c = '$' || 0x80 ≤ c.toNat

def name (cs : List Char) : Option (String × List Char) :=
  let front := cs.takeWhile isNameChar
  if front.isEmpty then none else some (String.ofList front, cs.dropWhile isNameChar)

/-! ## Paths -/

/-- One step of a path; none of a name stands for a scope further out. -/
def pathItem : List Char → Option (Option String × List Char)
  | '.' :: '.' :: rest => some (none, rest)
  | '[' :: rest =>
    match rest.dropWhile (· ≠ ']') with
    | _ :: after => some (some (String.ofList (rest.takeWhile (· ≠ ']'))), after)
    | [] => none
  | cs => (name cs).map fun (s, rest) => (some s, rest)

/-- The steps that follow a step. -/
def pathTail : Nat → List Char → List (Option String) × List Char
  | 0, cs => ([], cs)
  | fuel + 1, cs =>
    match cs with
    | sep :: rest =>
      if sep = '.' || sep = '/' then
        match pathItem rest with
        | some (item, rest) =>
          let (items, rest) := pathTail fuel rest
          (item :: items, rest)
        | none => ([], cs)
      else ([], cs)
    | [] => ([], [])

/-- A mark of the present scope that opens a path. -/
def dropCurrent : List Char → List Char
  | 't' :: 'h' :: 'i' :: 's' :: '.' :: rest => rest
  | 't' :: 'h' :: 'i' :: 's' :: '/' :: rest => rest
  | '.' :: '/' :: rest => rest
  | cs => cs

def pathStart : List Char → PathStart × List Char
  | '@' :: 'r' :: 'o' :: 'o' :: 't' :: '.' :: rest => (.root, rest)
  | '@' :: 'r' :: 'o' :: 'o' :: 't' :: '/' :: rest => (.root, rest)
  | '@' :: rest => (.name, rest)
  | cs => (.scope, cs)

/-- A path; a step `this` leads nowhere else. -/
def path (cs : List Char) : Option (TemplatePath × List Char) :=
  let (start, rest) := pathStart (dropCurrent cs)
  match pathItem rest with
  | none => none
  | some (first, rest) =>
    let (items, rest) := pathTail rest.length rest
    let items := (first :: items).filter (· ≠ some "this")
    some
      ({ text := String.ofList (cs.take (cs.length - rest.length))
         start
         outward := (items.takeWhile Option.isNone).length
         steps := items.filterMap id },
        rest)

/-! ## Arguments -/

/-- A quoted text with its quotes, and what follows it. -/
def quoted (quote : Char) : List Char → Option (List Char × List Char)
  | [] => none
  | '\\' :: c :: rest => (quoted quote rest).map fun (s, rest) => ('\\' :: c :: s, rest)
  | c :: rest =>
    if c = quote then some ([], rest) else (quoted quote rest).map fun (s, rest) => (c :: s, rest)

/-- What stands between single quotes, as it stands between double ones. -/
def requote : List Char → List Char
  | '\\' :: '\'' :: rest => '\'' :: requote rest
  | '\\' :: c :: rest => '\\' :: c :: requote rest
  | '"' :: rest => '\\' :: '"' :: requote rest
  | c :: rest => c :: requote rest
  | [] => []

def readLiteral (cs : List Char) : Option Value := (Value.read (String.ofList cs)).toOption

def quotedText (content : List Char) : Option String :=
  (readLiteral ('"' :: content ++ ['"'])).bind Value.string?

/-- The digits of a number and what follows them. -/
def numberText (cs : List Char) : List Char × List Char :=
  let (sign, cs) := match cs with
    | '-' :: rest => (['-'], rest)
    | _ => ([], cs)
  let whole := cs.takeWhile Char.isDigit
  let cs := cs.dropWhile Char.isDigit
  let (fraction, cs) := match cs with
    | '.' :: rest => ('.' :: rest.takeWhile Char.isDigit, rest.dropWhile Char.isDigit)
    | _ => ([], cs)
  let (exponent, cs) := match cs with
    | 'E' :: '-' :: rest => ('E' :: '-' :: rest.takeWhile Char.isDigit, rest.dropWhile Char.isDigit)
    | 'E' :: rest => ('E' :: rest.takeWhile Char.isDigit, rest.dropWhile Char.isDigit)
    | _ => ([], cs)
  if whole.isEmpty then ([], cs) else (sign ++ whole ++ fraction ++ exponent, cs)

/-- A number that no character of a name follows. -/
def number (cs : List Char) : Option (Option Value × List Char) :=
  match numberText cs with
  | ([], _) => none
  | (digits, rest) =>
    if rest.head?.any isNameChar then none else some (readLiteral digits, rest)

/-- An argument; nothing if there is none, and an error if it cannot be read. -/
def arg (cs : List Char) : Except Unit (Option (TemplateArg × List Char)) :=
  let text (content : Option String) (rest : List Char) :=
    match content with
    | some s => .ok (some (.literal (.string s), rest))
    | none => .error ()
  match cs with
  | '"' :: rest =>
    match quoted '"' rest with
    | some (content, rest) => text (quotedText content) rest
    | none => .error ()
  | '\'' :: rest =>
    match quoted '\'' rest with
    | some (content, rest) => text (quotedText (requote content)) rest
    | none => .error ()
  | cs =>
    match number cs with
    | some (some v, rest) => .ok (some (.literal v, rest))
    | some (none, _) => .error ()
    | none =>
      match name cs with
      | some ("null", rest) => .ok (some (.literal .null, rest))
      | some ("true", rest) => .ok (some (.literal (.bool true), rest))
      | some ("false", rest) => .ok (some (.literal (.bool false), rest))
      | some ("else", _) | some ("as", _) => .ok none
      | _ => .ok ((path cs).map fun (p, rest) => (.path p, rest))

/-- The name of an option up to its equals sign. -/
def optionName (cs : List Char) : Option (String × List Char) :=
  match name cs with
  | some (key, rest) =>
    match skipGap rest with
    | '=' :: rest => some (key, skipGap rest)
    | _ => none
  | none => none

/-- The arguments and options of a call. -/
def args : Nat → List Char → HelperCall → Except Unit (HelperCall × List Char)
  | 0, cs, call => .ok (call, cs)
  | fuel + 1, cs, call => do
    match optionName (skipGap cs) with
    | some (key, rest) =>
      match ← arg rest with
      | some (a, rest) => args fuel rest { call with options := call.options ++ [(key, a)] }
      | none => .error ()
    | none =>
      match ← arg (skipGap cs) with
      | some (a, rest) => args fuel rest { call with args := call.args ++ [a] }
      | none => .ok (call, cs)

/-- A name with any number of arguments. -/
def call (cs : List Char) : Except Unit (HelperCall × List Char) :=
  match name (skipGap cs) with
  | some (name, rest) => args rest.length rest { name }
  | none => .error ()

/-- A name with arguments, or a path. -/
def valueOrCall (escaped : Bool) (cs : List Char) : Except Unit (TagKind × List Char) := do
  let cs := skipGap cs
  let found ← match name cs with
    | some (name, rest) => args rest.length rest { name }
    | none => pure ({ name := "" }, cs)
  if found.1.args.isEmpty && found.1.options.isEmpty then
    match path cs with
    | some (p, rest) =>
      if HelperCall.names.contains p.text then return (.call escaped { name := p.text }, rest)
      else return (.value escaped p, rest)
    | none => throw ()
  else return (.call escaped found.1, found.2)

/-! ## Tags -/

def tilde : List Char → Bool × List Char
  | '~' :: rest => (true, rest)
  | cs => (false, cs)

/-- The end of a tag: whether it takes blanks away, and what follows. -/
def close (braces : List Char) (cs : List Char) : Except Unit (Bool × List Char) :=
  let (trim, rest) := tilde (skipGap cs)
  let rest := skipGap rest
  if braces.isPrefixOf rest then .ok (trim, rest.drop braces.length) else .error ()

/-- What follows the first occurrence of some characters. -/
def after (mark : List Char) : List Char → Option (List Char)
  | [] => none
  | c :: rest => if mark.isPrefixOf (c :: rest) then some ((c :: rest).drop mark.length) else after mark rest

/-- The end of a comment, after its opening mark. -/
def comment (cs : List Char) : Except Unit (List Char) :=
  let long := if ['-', '-'].isPrefixOf cs then after ['-', '-', '}', '}'] (cs.drop 2) else none
  match long with
  | some rest => .ok rest
  | none =>
    match after ['}', '}'] cs with
    | some rest => .ok rest
    | none => .error ()

/-- The key of an included template. -/
def key (cs : List Char) : Except Unit (String × List Char) :=
  match cs with
  | '"' :: rest =>
    match quoted '"' rest with
    | some (content, rest) => .ok (String.ofList content, rest)
    | none => .error ()
  | '\'' :: rest =>
    match quoted '\'' rest with
    | some (content, rest) => .ok (String.ofList content, rest)
    | none => .error ()
  | cs =>
    let isKeyChar (c : Char) : Bool := isNameChar c || c = '/' || c = '.'
    let front := cs.takeWhile isKeyChar
    if front.isEmpty then .error () else .ok (String.ofList front, cs.dropWhile isKeyChar)

/-- A keyword at the front that no character of a name follows. -/
def keyword (word : List Char) (cs : List Char) : Option (List Char) :=
  if word.isPrefixOf cs && !(cs.drop word.length).head?.any isNameChar then some (cs.drop word.length)
  else none

/-- A tag that splits a block, after its keyword. -/
def blockSplit (cs : List Char) : Except Unit (TagKind × Bool × List Char) :=
  match close ['}', '}'] cs with
  | .ok (trim, rest) => .ok (.blockElse, trim, rest)
  | .error _ => do
    let (call, rest) ← call cs
    let (trim, rest) ← close ['}', '}'] rest
    return (.blockChain call, trim, rest)

/-- A value between three braces, after the third one. -/
def rawValue (cs : List Char) : Except Unit (TagKind × Bool × List Char) := do
  let (kind, rest) ← valueOrCall false cs
  match close ['}', '}', '}'] rest with
  | .ok (trim, rest) => return (kind, trim, rest)
  | .error _ =>
    match skipGap rest with
    | '}' :: rest =>
      let (trim, rest) ← close ['}', '}'] rest
      return (kind, trim, rest)
    | _ => throw ()

/-- A tag after its braces and its first tilde: what it is, whether it takes the blanks after it away, and
what follows. -/
def tagBody (cs : List Char) : Except Unit (TagKind × Bool × List Char) :=
  match cs with
  | '!' :: rest => do return (.comment, false, ← comment rest)
  | '#' :: rest => do
    let (call, rest) ← call rest
    let (trim, rest) ← close ['}', '}'] rest
    return (.blockStart call, trim, rest)
  | '/' :: rest => do
    match name (skipGap rest) with
    | some (name, rest) =>
      let (trim, rest) ← close ['}', '}'] rest
      return (.blockStop name, trim, rest)
    | none => throw ()
  | '>' :: rest => do
    let (key, rest) ← key (skipGap rest)
    let (value, rest) := match ← arg (skipGap rest) with
      | some (a, rest) => (some a, rest)
      | none => (none, rest)
    let (trim, rest) ← close ['}', '}'] rest
    return (.included key value, trim, rest)
  | '^' :: rest => blockSplit rest
  | '&' :: rest => do
    match path (skipGap rest) with
    | some (p, rest) =>
      let (trim, rest) ← close ['}', '}'] rest
      return (.value false p, trim, rest)
    | none => throw ()
  | '{' :: rest => rawValue (tilde rest).2
  | cs =>
    match keyword ['e', 'l', 's', 'e'] cs with
    | some rest => blockSplit rest
    | none => do
      let (kind, rest) ← valueOrCall true cs
      let (trim, rest) ← close ['}', '}'] rest
      return (kind, trim, rest)

/-- Whether a tag opens with a tilde: before or after a third brace. -/
def opensWithTilde : List Char → Bool
  | '~' :: _ => true
  | '{' :: '~' :: _ => true
  | _ => false

/-- Whether nothing but blanks lies between here and the end of a line, or of everything. -/
def lineEnds (cs : List Char) : Bool :=
  match cs.dropWhile isBlank with
  | [] => true
  | c :: _ => isLineBreak c

/-- Text up to the next tag; `slashed` says that a backslash comes before it. -/
def textRun (slashed : Bool) : List Char → List Char × List Char
  | [] => ([], [])
  | '\\' :: '{' :: '{' :: rest =>
    if slashed then ([], '{' :: '{' :: rest)
    else
      match rest with
      | '{' :: '{' :: rest =>
        let (text, rest) := textRun false rest
        ('{' :: '{' :: '{' :: '{' :: text, rest)
      | rest =>
        let (text, rest) := textRun false rest
        ('{' :: '{' :: text, rest)
  | '{' :: '{' :: rest => ([], '{' :: '{' :: rest)
  | c :: rest =>
    let (text, rest) := textRun (c = '\\') rest
    (c :: text, rest)

/-- The tokens of a text; `before` is what comes before it, nearest first. -/
def tokens : Nat → List Char → List Char → Except Unit (List TemplateToken)
  | _, _, [] => .ok []
  | 0, _, _ => .error ()
  | fuel + 1, before, '{' :: '{' :: rest => do
    let trimBefore := opensWithTilde (skipGap rest)
    let (kind, trimAfter, remaining) ← tagBody (skipGap (tilde (skipGap rest)).2)
    let source := ('{' :: '{' :: rest).take (rest.length + 2 - remaining.length)
    let tag : TemplateTag :=
      { kind, trimBefore, trimAfter
        alone := lineEnds before && lineEnds remaining
        indent := String.ofList (before.takeWhile isBlank).reverse }
    return .tag tag :: (← tokens fuel (source.reverse ++ before) remaining)
  | fuel + 1, before, cs => do
    let (text, remaining) := textRun false cs
    let source := cs.take (cs.length - remaining.length)
    return .text text :: (← tokens fuel (source.reverse ++ before) remaining)

def ofString (source : String) : Except Unit (List TemplateToken) :=
  tokens (source.length + 1) [] source.toList

end TemplateLexer

end DocModel
