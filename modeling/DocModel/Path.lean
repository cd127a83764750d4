import DocModel.FileName

/-!
# Paths

A path is a text; its *steps* are what it means. Repeated separators, a separator at the end and `.` steps
that do not open a relative path mean nothing, so `a//b`, `a/./b` and `a/b/` have the steps of `a/b`, while
a leading `./` and every `..` are steps of their own. Paths are written as they were given and joined, and
compared and ordered by their steps.

The paths of a configuration are texts, and so is every path that is made of them. What lies below a directory
need not have a text for its name: the path of a source is a text and the names that lead down from it.
-/

namespace DocModel

/-- One step of a path. -/
inductive PathStep where
  | root
  | current
  | parent
  | name (name : FileName)
  deriving DecidableEq, Repr

namespace PathStep

/-- Root comes first, then `.`, then `..`, then names. -/
def rank : PathStep → Nat
  | root => 0
  | current => 1
  | parent => 2
  | name _ => 3

/-- The text that a step is shown as. -/
def shown : PathStep → String
  | root => "/"
  | current => "."
  | parent => ".."
  | name s => s.shown

def isName : PathStep → Bool
  | name _ => true
  | _ => false

/-- Steps come in the order of their kinds, names in the order of their bytes. -/
def before : PathStep → PathStep → Bool
  | name a, name b => a < b
  | a, b => a.rank < b.rank

/-- The order of lists of steps: the first difference decides, and a list comes before its extensions. -/
def listBefore : List PathStep → List PathStep → Bool
  | [], [] => false
  | [], _ :: _ => true
  | _ :: _, [] => false
  | a :: as, b :: bs => a.before b || (a == b && listBefore as bs)

/-- The name that the last step is. -/
def lastName? (steps : List PathStep) : Option FileName :=
  match steps.getLast? with
  | some (name n) => some n
  | _ => none

/-- The steps that follow those of a base. -/
def after? (base steps : List PathStep) : Option (List PathStep) :=
  if base.isPrefixOf steps then some (steps.drop base.length) else none

/-- What follows the steps of a base, or all steps where they do not come first, with slashes between them. -/
def textAfter (base steps : List PathStep) : String :=
  Text.join "/" (((after? base steps).getD steps).map shown)

end PathStep

/-- A path as it is written. -/
structure Path where
  text : String
  deriving DecidableEq, Repr

namespace Path

instance : Inhabited Path := ⟨⟨""⟩⟩

def isAbsolute (p : Path) : Bool := p.text.toList.head? = some '/'

/-- The step of a piece between two separators; only the first piece of a path can be a leading dot. -/
def stepOf? (first : Bool) (piece : List Char) : Option PathStep :=
  if piece = [] then none
  else if piece = ['.'] then (if first then some .current else none)
  else if piece = ['.', '.'] then some .parent
  else some (.name (.text (String.ofList piece)))

/-- The steps of pieces, each with the number of characters up to its end. -/
def spansFrom (first : Bool) (offset : Nat) : List (List Char) → List (PathStep × Nat)
  | [] => []
  | piece :: rest =>
    let stop := offset + piece.length
    match stepOf? first piece with
    | some s => (s, stop) :: spansFrom false (stop + 1) rest
    | none => spansFrom false (stop + 1) rest

/-- The steps of a path, each with the number of characters of the path up to its end. -/
def spans (p : Path) : List (PathStep × Nat) :=
  let cs := p.text.toList
  if p.isAbsolute then (.root, 1) :: spansFrom false 0 (Text.splitChars '/' cs)
  else spansFrom true 0 (Text.splitChars '/' cs)

def steps (p : Path) : List PathStep := p.spans.map Prod.fst

/-- Whether two paths have the same steps. -/
def same (a b : Path) : Bool := a.steps == b.steps

/-- The order of paths by their steps. -/
def before (a b : Path) : Bool := PathStep.listBefore a.steps b.steps

/-- Goes on from a path; an absolute path starts anew. -/
def join (base rel : Path) : Path :=
  if rel.isAbsolute then rel
  else
    match base.text.toList.getLast? with
    | none => rel
    | some '/' => ⟨base.text ++ rel.text⟩
    | some _ => ⟨base.text ++ "/" ++ rel.text⟩

def append (base : Path) (rel : String) : Path := base.join ⟨rel⟩

/-- The path without its last step. The root and the empty path have no parent. -/
def parent? (p : Path) : Option Path :=
  match p.spans.reverse with
  | [] => none
  | (.root, _) :: _ => none
  | [_] => some ⟨""⟩
  | _ :: (_, stop) :: _ => some ⟨String.ofList (p.text.toList.take stop)⟩

/-- What follows the last dot in the name of the last step. -/
def extension? (p : Path) : Option String :=
  ((PathStep.lastName? p.steps).bind FileName.text?).bind FileName.textExtension?

/-- Whether the steps of `base` come first among the steps of a path. -/
def startsWith (p base : Path) : Bool := base.steps.isPrefixOf p.steps

/-- The steps below `base`. -/
def relativeSteps? (p base : Path) : Option (List PathStep) := PathStep.after? base.steps p.steps

/-- The steps below `base`, or all steps of a path that is not below it, with slashes between them. -/
def relativeText (p base : Path) : String := PathStep.textAfter base.steps p.steps

end Path

/-- The path of what lies below a directory, along some names; with no names it is the path itself. -/
structure SourcePath where
  root : Path
  names : List FileName := []
  deriving DecidableEq, Repr

instance : Coe Path SourcePath := ⟨fun root => { root }⟩

namespace SourcePath

def append (p : SourcePath) (name : FileName) : SourcePath := { p with names := p.names ++ [name] }

def steps (p : SourcePath) : List PathStep := p.root.steps ++ p.names.map .name

/-- Whether two paths have the same steps. -/
def same (a b : SourcePath) : Bool := a.steps == b.steps

/-- The order of paths by their steps. -/
def before (a b : SourcePath) : Bool := PathStep.listBefore a.steps b.steps

def fileName? (p : SourcePath) : Option FileName := PathStep.lastName? p.steps

def hasExtension (p : SourcePath) (extension : String) : Bool := p.fileName?.any (·.hasExtension extension)

/-- The steps below `base`. -/
def relativeSteps? (p : SourcePath) (base : Path) : Option (List PathStep) :=
  PathStep.after? base.steps p.steps

/-- The steps below `base`, or all steps of a path that is not below it, with slashes between them. -/
def relativeText (p : SourcePath) (base : Path) : String := PathStep.textAfter base.steps p.steps

/-- The text that a path is shown as. -/
def text (p : SourcePath) : String := (p.names.foldl (fun q name => q.append name.shown) p.root).text

/-- The bytes of a name after those of a path. -/
def joinBytes (front name : List UInt8) : List UInt8 :=
  if front = [] || front.getLast? = some 0x2F then front ++ name else front ++ 0x2F :: name

def bytes (p : SourcePath) : List UInt8 :=
  p.names.foldl (fun front name => joinBytes front name.bytes) (Text.bytes p.root.text)

end SourcePath

end DocModel
