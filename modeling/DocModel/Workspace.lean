import DocModel.Error
import DocModel.FileTree

/-!
# Workspaces

The files that a build sees, where relative paths start, and a log of what it has written. A path is followed
piece by piece: every piece but the last one has to be a directory, and `..` leads to the directory that
holds the one reached so far. The names of a source lead on from there.

A `Build` can fail and keeps the workspace as it then is, with all that was written before.
-/

namespace DocModel

/-- What a file is written for. -/
inductive WritePurpose where
  | artifact
  | output
  deriving DecidableEq, Repr

/-- A file that was written, or is to be. -/
structure FileWrite where
  purpose : WritePurpose
  path : Path
  content : String
  deriving DecidableEq

structure Workspace where
  /-- Everything below the root directory. -/
  tree : FileTree
  /-- The location where relative paths start. -/
  here : List FileName
  /-- All writes that succeeded, in their order. -/
  log : List FileWrite := []

/-- The number of bytes of a path that a file system no longer takes. -/
def Path.sizeLimit : Nat := 4096

/-- Why a file system does not take a path at all. -/
def Path.fault? (p : Path) : Option IoFault :=
  if p.text = "" then some .notFound
  else if p.text.toList.contains '\x00' then some .nulInName
  else if sizeLimit ≤ p.text.utf8ByteSize then some .nameTooLong
  else none

namespace SourcePath

/-- Whether a path has more bytes than a file system takes. -/
def isTooLong (p : SourcePath) : Bool := Path.sizeLimit ≤ p.bytes.length

def fault? (p : SourcePath) : Option IoFault :=
  p.root.fault?.or (if p.isTooLong then some .nameTooLong else none)

end SourcePath

namespace Workspace

/-- The pieces of a path between its slashes. -/
def pieces (p : Path) : List FileName := (Text.split '/' p.text).map .text

/-- The location where a path starts. -/
def start (ws : Workspace) (p : Path) : List FileName := if p.isAbsolute then [] else ws.here

/-- The longest name of a file, in bytes. -/
def longestName : Nat := 255

/-- The location that a piece leads to from another one, whatever is there. -/
def target (location : List FileName) (piece : FileName) : List FileName :=
  if piece = "" || piece = "." then location
  else if piece = ".." then location.dropLast
  else location ++ [piece]

def isDirAt (tree : FileTree) (location : List FileName) : Bool := (tree.at? location).any FileTree.isDir

/-- Follows one piece from a directory to something that exists. -/
def follow (tree : FileTree) (location : List FileName) (piece : FileName) :
    Except IoFault (List FileName) :=
  let next := target location piece
  if !isDirAt tree location then .error .notDirectory
  else if (tree.at? next).isSome then .ok next
  else if longestName < piece.size then .error .nameTooLong
  else .error .notFound

/-- Where the pieces of a path lead, one after the other. -/
def trace (ws : Workspace) (p : Path) : Except IoFault (List FileName) :=
  (pieces p).foldlM (follow ws.tree) (ws.start p)

/-- The location of something that exists. -/
def locate (ws : Workspace) (p : SourcePath) : Except IoFault (List FileName) :=
  match p.fault? with
  | some fault => .error fault
  | none => do p.names.foldlM (follow ws.tree) (← ws.trace p.root)

def node? (ws : Workspace) (p : Path) : Option FileTree := (ws.locate p).toOption.bind ws.tree.at?

def isDir (ws : Workspace) (p : Path) : Bool := (ws.node? p).any FileTree.isDir

def isFile (ws : Workspace) (p : Path) : Bool := (ws.node? p).any fun node => !node.isDir

def contains (ws : Workspace) (p : Path) : Bool := (ws.node? p).isSome

/-- The text of a file. -/
def read (ws : Workspace) (p : SourcePath) : Except IoFault String := do
  match ws.tree.at? (← ws.locate p) with
  | some (.file content) => (FileTree.text? (.file content)).elim (.error .notText) .ok
  | some (.dir _) => throw .isDirectory
  | none => throw .notFound

/-! ## Writing -/

/-- Follows pieces and makes the directories that are missing; in the end a directory has to be there. What
was made before a failure stays. -/
def makeDirsAt (tree : FileTree) (location : List FileName) :
    List FileName → Except IoFault Unit × FileTree
  | [] => (if isDirAt tree location then .ok () else .error .alreadyExists, tree)
  | piece :: rest =>
    match follow tree location piece with
    | .ok next => makeDirsAt tree next rest
    | .error .notFound =>
      let next := target location piece
      makeDirsAt (tree.put next (.dir [])) next rest
    | .error fault => (.error fault, tree)

/-- Makes a directory and all above it; nothing is to be done for the empty path. -/
def makeDirs (ws : Workspace) (p : Path) : Except IoFault Unit × Workspace :=
  match p.fault? with
  | some fault => (if p.text = "" then .ok () else .error fault, ws)
  | none =>
    let (made, tree) := makeDirsAt ws.tree (ws.start p) (pieces p)
    (made, { ws with tree })

/-- Where a file of a path would be; its directory has to exist. -/
def fileLocation (ws : Workspace) (p : Path) : Except IoFault (List FileName) := do
  if let some fault := p.fault? then throw fault
  let parent ← (pieces p).dropLast.foldlM (follow ws.tree) (ws.start p)
  let name := ((pieces p).getLast?).getD ""
  match follow ws.tree parent name with
  | .ok location => if isDirAt ws.tree location then throw .isDirectory else return location
  | .error .notFound => return target parent name
  | .error fault => throw fault

/-- Writes a file and the directories above it. -/
def write (w : FileWrite) (ws : Workspace) : Except BuildError Unit × Workspace :=
  let parent := w.path.parent?.getD ⟨""⟩
  match ws.makeDirs parent with
  | (.error fault, ws) => (.error (.io parent fault), ws)
  | (.ok (), ws) =>
    match ws.fileLocation w.path with
    | .error fault => (.error (.io w.path fault), ws)
    | .ok location =>
      (.ok (), { ws with tree := ws.tree.put location (.ofText w.content), log := ws.log ++ [w] })

end Workspace

/-- What works on a workspace and can fail. -/
abbrev Build := ExceptT BuildError (StateM Workspace)

namespace Build

/-- What only reads. -/
def ofRead {α : Type} (read : Workspace → Except BuildError α) : Build α := fun ws => (read ws, ws)

def ofExcept {α : Type} (r : Except BuildError α) : Build α := ofRead fun _ => r

def write (w : FileWrite) : Build Unit := Workspace.write w

/-- Writes files until one cannot be written. -/
def writeAll (writes : List FileWrite) : Build Unit := writes.forM write

end Build

end DocModel
