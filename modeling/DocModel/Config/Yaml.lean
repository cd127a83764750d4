import DocModel.Config.Scalar
import DocModel.Text.Split

/-!
# Reading YAML

Plain YAML: one document of block maps and block lists by indentation, lists and maps in brackets, quoted and
plain scalars and comments. A scalar in quotes or brackets may go on in more deeply indented lines, and so may
a plain one. Of two entries with one key the later one stays. Anchors, tags and block scalars are not read.
-/

namespace DocModel

/-- A line that is not blank, without its indentation and its comment. -/
structure YamlLine where
  indent : Nat
  content : List Char
  deriving DecidableEq

namespace Yaml

/-! ## Lines -/

/-- The text before a comment. A comment starts the line or follows a blank, outside of quotes; `quote` is the
quote that is open. -/
def withoutComment (quote : Option Char) (afterBlank : Bool) : List Char → List Char
  | [] => []
  | c :: rest =>
    match quote with
    | some q =>
      if c = '\\' && q = '"' then
        match rest with
        | d :: rest => c :: d :: withoutComment quote false rest
        | [] => [c]
      else c :: withoutComment (if c = q then none else quote) false rest
    | none =>
      if c = '#' && afterBlank then []
      else if (c = '"' || c = '\'') && afterBlank then c :: withoutComment (some c) false rest
      else c :: withoutComment none ([' ', '\t', '[', ',', '\x7b'].contains c) rest

def trimEnd (cs : List Char) : List Char :=
  (cs.reverse.dropWhile fun c => c = ' ' || c = '\t' || c = '\r').reverse

def lineOf? (cs : List Char) : Option YamlLine :=
  let indent := (cs.takeWhile (· = ' ')).length
  let content := trimEnd (withoutComment none true (cs.drop indent))
  if content.isEmpty then none else some ⟨indent, content⟩

/-- Whether a line starts or ends a document. -/
def isMarker (line : YamlLine) : Bool :=
  line.indent = 0 && (line.content = "---".toList || line.content = "...".toList)

/-! ## Scalars and brackets -/

def isPlainStart (c : Char) : Bool :=
  !("[]\x7b\x7d,#&*!|>%@\"'".toList.contains c || c.toNat = 0x60)

/-- The value of a plain scalar. -/
def plainValue (cs : List Char) : Value :=
  if cs = [] || cs = ['~'] || cs = "null".toList then .null
  else if cs = "true".toList then .bool true
  else if cs = "false".toList then .bool false
  else
    match PlainNumber.ofChars? cs with
    | some n => .number n
    | none => .string (String.ofList cs)

def skipBlank (cs : List Char) : List Char := cs.dropWhile fun c => c = ' ' || c = '\t'

/-- The rest of a text in single quotes; a quote inside it is written twice. -/
def singleQuoted? (done : List Char) : List Char → Option (String × List Char)
  | [] => none
  | '\'' :: '\'' :: rest => singleQuoted? ('\'' :: done) rest
  | '\'' :: rest => some (String.ofList done.reverse, rest)
  | c :: rest => singleQuoted? (c :: done) rest

/-- A text in quotes. -/
def quoted? : List Char → Option (String × List Char)
  | '"' :: rest =>
    match Reader.stringBody rest 0 [] with
    | .ok (s, cur) => some (s, cur.rest)
    | .error _ => none
  | '\'' :: rest => singleQuoted? [] rest
  | _ => none

/-- The characters of a plain scalar inside brackets. -/
def plainInside : List Char → List Char
  | [] => []
  | ':' :: c :: rest =>
    if c = ' ' || c = ',' || c = ']' || c = '\x7d' then [] else ':' :: plainInside (c :: rest)
  | c :: rest => if "[]\x7b\x7d,".toList.contains c then [] else c :: plainInside rest

mutual

/-- A value inside brackets, or at the start of a text that has them. -/
def inside? : Nat → List Char → Option (Value × List Char)
  | 0, _ => none
  | fuel + 1, cs =>
    match skipBlank cs with
    | '[' :: rest => items? fuel rest []
    | '\x7b' :: rest => fields? fuel rest []
    | '"' :: rest => (quoted? ('"' :: rest)).map fun (s, rest) => (.string s, rest)
    | '\'' :: rest => (quoted? ('\'' :: rest)).map fun (s, rest) => (.string s, rest)
    | cs =>
      let plain := plainInside cs
      some (plainValue (trimEnd plain), cs.drop plain.length)

def items? : Nat → List Char → List Value → Option (Value × List Char)
  | 0, _, _ => none
  | fuel + 1, cs, done =>
    match skipBlank cs with
    | ']' :: rest => some (.list done.reverse, rest)
    | cs => do
      let (v, cs) ← inside? fuel cs
      match skipBlank cs with
      | ',' :: rest => items? fuel rest (v :: done)
      | ']' :: rest => some (.list (v :: done).reverse, rest)
      | _ => none

def fields? : Nat → List Char → Fields → Option (Value × List Char)
  | 0, _, _ => none
  | fuel + 1, cs, done =>
    match skipBlank cs with
    | '\x7d' :: rest => some (.map done, rest)
    | cs => do
      let (key, cs) ← inside? fuel cs
      let key ← key.string?
      let (v, cs) ← match skipBlank cs with
        | ':' :: rest => inside? fuel rest
        | rest => some (Value.null, rest)
      let done := Dict.insert done key v
      match skipBlank cs with
      | ',' :: rest => fields? fuel rest done
      | '\x7d' :: rest => some (.map done, rest)
      | _ => none

end

/-- Whether a plain scalar holds the mark between a key and its value. -/
def holdsColon : List Char → Bool
  | [] => false
  | [c] => c = ':'
  | c :: d :: rest => (c = ':' && (d = ' ' || d = '\t')) || holdsColon (d :: rest)

/-- The value that a text after a key or a dash is. -/
def inlineValue? (cs : List Char) : Option Value :=
  match cs with
  | [] => some .null
  | c :: _ =>
    if ['[', '\x7b', '"', '\''].contains c then
      match inside? (cs.length + 1) cs with
      | some (v, rest) => if (skipBlank rest).isEmpty then some v else none
      | none => none
    else if !isPlainStart c || holdsColon cs then none
    else if "- ".toList.isPrefixOf cs || "? ".toList.isPrefixOf cs then none
    else some (plainValue cs)

/-! ## Blocks -/

/-- The key of an entry and what follows its colon. -/
def keyOf? (cs : List Char) : Option (String × List Char) :=
  match quoted? cs with
  | some (key, rest) =>
    match skipBlank rest with
    | [':'] => some (key, [])
    | ':' :: ' ' :: rest => some (key, skipBlank rest)
    | _ => none
  | none => plainKey? [] cs
where
  plainKey? (done : List Char) : List Char → Option (String × List Char)
    | [] => none
    | [':'] => some (String.ofList (trimEnd done.reverse), [])
    | ':' :: ' ' :: rest => some (String.ofList (trimEnd done.reverse), skipBlank rest)
    | c :: rest => if done.isEmpty && !isPlainStart c then none else plainKey? (c :: done) rest

/-- What follows the dash of a list item, and how far it is from the dash. -/
def itemOf? : List Char → Option (Nat × List Char)
  | ['-'] => some (0, [])
  | '-' :: ' ' :: rest =>
    let content := skipBlank rest
    some (2 + (rest.length - content.length), content)
  | _ => none

/-- The lines that are indented more deeply than a line before them, and the rest. -/
def deeper (indent : Nat) (lines : List YamlLine) : List YamlLine × List YamlLine :=
  lines.span fun line => indent < line.indent

/-- A text with the lines that it goes on in. -/
def joined (cs : List Char) (lines : List YamlLine) : List Char :=
  lines.foldl (fun text line => text ++ ' ' :: line.content) cs

/-- Like `deeper`, for what stands below a key: a list there need not be indented. -/
def below (indent : Nat) (lines : List YamlLine) : List YamlLine × List YamlLine :=
  match lines with
  | line :: _ =>
    if line.indent = indent && (itemOf? line.content).isSome then
      lines.span fun l => indent < l.indent || (l.indent = indent && (itemOf? l.content).isSome)
    else deeper indent lines
  | [] => ([], [])

mutual

/-- The value of a block of lines; `fuel` exceeds the number of its characters and lines. -/
def block? : Nat → List YamlLine → Option Value
  | 0, _ => none
  | _, [] => some .null
  | fuel + 1, line :: rest =>
    if (itemOf? line.content).isSome then listBlock? fuel line.indent (line :: rest) []
    else if (keyOf? line.content).isSome then mapBlock? fuel line.indent (line :: rest) []
    else inlineValue? (joined line.content rest)

def listBlock? : Nat → Nat → List YamlLine → List Value → Option Value
  | 0, _, _, _ => none
  | _, _, [], done => some (.list done.reverse)
  | fuel + 1, indent, line :: rest, done => do
    if line.indent ≠ indent then none
    let (offset, content) ← itemOf? line.content
    let (inner, rest) := deeper indent rest
    let v ← if content.isEmpty then block? fuel inner
      else block? fuel (⟨indent + offset, content⟩ :: inner)
    listBlock? fuel indent rest (v :: done)

def mapBlock? : Nat → Nat → List YamlLine → Fields → Option Value
  | 0, _, _, _ => none
  | _, _, [], done => some (.map done)
  | fuel + 1, indent, line :: rest, done => do
    if line.indent ≠ indent then none
    let (key, content) ← keyOf? line.content
    let (inner, rest) := if content.isEmpty then below indent rest else deeper indent rest
    let v ← if content.isEmpty then block? fuel inner else inlineValue? (joined content inner)
    mapBlock? fuel indent rest (Dict.insert done key v)

end

/-- The lines of a document without its markers; of what is not one document, nothing. -/
def documentLines? (lines : List YamlLine) : Option (List YamlLine) :=
  let lines := match lines with
    | line :: rest => if line.content = "---".toList then rest else line :: rest
    | [] => []
  let lines := match lines.reverse with
    | line :: rest => if line.content = "...".toList then rest.reverse else lines
    | [] => []
  if lines.any isMarker then none else some lines

/-- The value of a document; an empty one is an empty map. -/
def read? (text : String) : Option Value := do
  let lines ← documentLines? ((Text.splitChars '\n' text.toList).filterMap lineOf?)
  if lines.isEmpty then some (.map []) else block? (text.toList.length + lines.length + 2) lines

end Yaml

end DocModel
