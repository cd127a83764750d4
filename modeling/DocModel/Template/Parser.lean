import DocModel.Template.Lexer

/-!
# From tags to nodes

Tags that start and stop blocks must match. Blanks around tags are taken away on the way: those next to a
tilde, and the lines of tags that stand alone.
-/

namespace DocModel

/-- A block that has not been stopped yet. -/
structure OpenBlock where
  /-- The nodes around the block so far, the last one first. -/
  outer : List TemplateNode
  /-- The parts that have ended, the last one first. -/
  ended : List (HelperCall × List TemplateNode) := []
  /-- What governs the present part; nothing in the last part of an `else`. -/
  present : Option HelperCall

/-- What has been read so far. -/
structure TemplateProgress where
  /-- Nodes of the present part, the last one first. -/
  nodes : List TemplateNode := []
  blocks : List OpenBlock := []
  /-- Whether blanks that follow are taken away. -/
  trimNext : Bool := false
  /-- Whether what is left of the line is taken away. -/
  trimLine : Bool := false

namespace TemplateProgress

def isSpace (c : Char) : Bool := CharItem.inRanges c.toNat CharSet.spaceRanges

def dropLineBreak : List Char → List Char
  | '\r' :: '\n' :: rest => rest
  | '\n' :: rest => rest
  | cs => cs

/-- Takes blanks away at the end of the last node, if it is text. -/
def trimLast (p : Char → Bool) : List TemplateNode → List TemplateNode
  | .text s :: rest => .text (String.ofList ((s.toList.reverse.dropWhile p).reverse)) :: rest
  | nodes => nodes

/-- Adds text. Blanks alone vanish after a tilde, and a line break to be taken away stays due. -/
def addText (s : TemplateProgress) (text : List Char) : TemplateProgress :=
  if s.trimNext then
    if text.all TemplateLexer.isGap then s
    else { s with nodes := .text (String.ofList (text.dropWhile isSpace)) :: s.nodes, trimLine := false }
  else
    let kept := if s.trimLine then dropLineBreak (text.dropWhile TemplateLexer.isBlank) else text
    { s with nodes := .text (String.ofList kept) :: s.nodes, trimLine := false }

/-- What a tag does to the blanks around it; `line` says whether it can take its line with it. -/
def trimAround (s : TemplateProgress) (t : TemplateTag) (line : Bool) : TemplateProgress :=
  let nodes := if t.trimBefore then trimLast isSpace s.nodes else s.nodes
  let trimNext := match t.kind with
    | .comment => s.trimNext
    | _ => t.trimAfter
  if line then
    { s with
      nodes := if t.alone then trimLast TemplateLexer.isBlank nodes else nodes
      trimNext, trimLine := t.alone }
  else { s with nodes, trimNext }

def add (s : TemplateProgress) (node : TemplateNode) : TemplateProgress :=
  { s with nodes := node :: s.nodes }

/-- The block that its parts make: each part stands in place of the one before. -/
def assemble : List (HelperCall × List TemplateNode) → List TemplateNode → List TemplateNode
  | [], otherwise => otherwise
  | (call, body) :: rest, otherwise => [.block call body (assemble rest otherwise)]

/-- Ends the present part of the innermost block. -/
def endPart (s : TemplateProgress) (next : Option HelperCall) : Except Unit TemplateProgress :=
  match s.blocks with
  | b :: blocks =>
    match b.present with
    | some call =>
      .ok { s with
        nodes := []
        blocks := { b with ended := (call, s.nodes.reverse) :: b.ended, present := next } :: blocks }
    | none => .error ()
  | [] => .error ()

/-- Stops the innermost block, which the first of its parts has named. -/
def stopBlock (s : TemplateProgress) (name : String) : Except Unit TemplateProgress :=
  match s.blocks with
  | b :: blocks =>
    let (parts, otherwise) := match b.present with
      | some call => (((call, s.nodes.reverse) :: b.ended).reverse, [])
      | none => (b.ended.reverse, s.nodes.reverse)
    if parts.head?.any fun part => part.1.name = name then
      .ok { s with nodes := (assemble parts otherwise).reverse ++ b.outer, blocks }
    else .error ()
  | [] => .error ()

def addTag (s : TemplateProgress) (t : TemplateTag) : Except Unit TemplateProgress :=
  match t.kind with
  | .value escaped path => .ok ((s.trimAround t false).add (.value escaped path))
  | .call escaped call => .ok ((s.trimAround t false).add (.call escaped call))
  | .included key value =>
    .ok ({ s.trimAround t false with trimLine := t.alone }.add (.included key value t.indent))
  | .blockStart call =>
    let s := s.trimAround t true
    .ok { s with nodes := [], blocks := { outer := s.nodes, present := some call } :: s.blocks }
  | .blockChain call => (s.trimAround t true).endPart (some call)
  | .blockElse => (s.trimAround t true).endPart none
  | .blockStop name => (s.trimAround t true).stopBlock name
  | .comment => .ok ((s.trimAround t true).add (.text ""))

def addToken (s : TemplateProgress) : TemplateToken → Except Unit TemplateProgress
  | .text text => .ok (s.addText text)
  | .tag t => s.addTag t

end TemplateProgress

/-- The nodes of a template; an error if its tags are malformed or do not match. -/
def TemplateNode.parse (source : String) : Except Unit (List TemplateNode) := do
  let tokens ← TemplateLexer.ofString source
  let s ← tokens.foldlM TemplateProgress.addToken {}
  if s.blocks.isEmpty then return s.nodes.reverse else throw ()

end DocModel
