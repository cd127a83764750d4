import DocModel.Document
import DocModel.Template.Set
import DocModel.Workspace

/-!
# Reading sources

A scan lists the files of an extension below a directory: first the files of a directory by name, then its
subdirectories by name, each with all that is below it. What has a name that starts with a dot is passed
over, apart from the directory that is scanned itself; a name that is no text is never passed over. The order
matters: it is the order in which documents of one root are read and templates override each other. A scan ends
at the first directory that cannot be listed.
-/

namespace DocModel

namespace FileTree

/-- What a scan finds at one entry of a directory. -/
structure Found where
  name : FileName
  isDir : Bool
  paths : Except BuildError (List SourcePath)

namespace Found

/-- Files first, then by name. -/
def before (a b : Found) : Bool := (!a.isDir && b.isDir) || (a.isDir == b.isDir && a.name < b.name)

/-- All paths found, in the order of the entries. -/
def ordered (found : List Found) : Except BuildError (List SourcePath) := do
  return (← (found.mergeSort fun a b => !b.before a).mapM paths).flatten

end Found

/-- Whether the text of a name starts with a dot. -/
def isHidden (name : FileName) : Bool := name.text?.any fun s => s.toList.head? = some '.'

mutual

/-- The files of an extension below a node, whose own path is given. -/
def scan (extension : String) (path : SourcePath) : FileTree → Except BuildError (List SourcePath)
  | file _ => .ok (if path.hasExtension extension then [path] else [])
  | dir entries =>
    if path.isTooLong then .error (.root path (.unlisted path .nameTooLong))
    else Found.ordered (scanEntries extension path entries)

def scanEntries (extension : String) (path : SourcePath) : List (FileName × FileTree) → List Found
  | [] => []
  | (name, child) :: rest =>
    if isHidden name then scanEntries extension path rest
    else
      ⟨name, child.isDir, scan extension (path.append name) child⟩ :: scanEntries extension path rest

end

end FileTree

namespace Workspace

/-- The files of an extension below a root. -/
def scan (ws : Workspace) (root : Path) (extension : String) : Except BuildError (List SourcePath) :=
  match ws.node? root with
  | some (.dir entries) => FileTree.scan extension root (.dir entries)
  | _ => .error (.root root .notDirectory)

def readText (ws : Workspace) (path : SourcePath) : Except BuildError String :=
  (ws.read path).mapError (.io path)

def readDocument (ws : Workspace) (path : SourcePath) : Except BuildError Value := do
  match Value.read (← ws.readText path) with
  | .ok v => return v
  | .error e => throw (.document path (.syntaxError e))

def readRoot (ws : Workspace) (extension : String) (rootIndex : Nat) (root : Path) :
    Except BuildError (List Document) := do
  (← ws.scan root extension).mapM fun path => return ⟨⟨rootIndex, path⟩, ← ws.readDocument path⟩

/-- The documents below some roots, root by root. -/
def readRoots (ws : Workspace) (extension : String) (roots : List Path) :
    Except BuildError (List Document) := do
  return (← roots.zipIdx.mapM fun (root, i) => ws.readRoot extension i root).flatten

/-- Registers the template of a file; its path below the root is its key. -/
def addTemplate (ws : Workspace) (root : Path) (set : TemplateSet) (path : SourcePath) :
    Except BuildError TemplateSet := do
  return set.register (path.relativeText root) (← ws.readText path) (some path)

/-- The templates below some roots; later roots override earlier ones. -/
def readTemplates (ws : Workspace) (roots : List Path) : Except BuildError TemplateSet :=
  roots.foldlM (fun set root => do
    (← ws.scan root TemplateSet.extension).foldlM (ws.addTemplate root) set) []

end Workspace

/-- The extension of class and instance documents. -/
def Document.extension : String := "json"

end DocModel
