import DocModel.CommandLine
import DocModel.Snapshot.Stamp
import Std.Time.DateTime.Timestamp

/-!
# The program

Reads what a command needs into a workspace, runs the command on it, and writes the files of its log.
-/

namespace DocModel

namespace Program

/-- A file or directory with all that is below it; what is hidden or a link is left out below it. -/
partial def readNode (entry : IO.FS.DirEntry) : IO (Option FileTree) := do
  if ← entry.path.isDir then
    let mut entries : List (FileName × FileTree) := []
    for child in ← entry.path.readDir do
      let kind := (← child.path.symlinkMetadata).type
      if !FileTree.isHidden child.fileName && (kind == .dir || kind == .file) then
        if let some node ← readNode child then
          entries := Dict.insert entries (.text child.fileName) node
    return some (.dir entries)
  else if ← entry.path.pathExists then
    return some (.file (← IO.FS.readBinFile entry.path).toList)
  else
    return none

/-- Adds a path of the file system to a workspace, and the directories on the way to it. -/
def readPath (ws : Workspace) (p : Path) : IO Workspace := do
  let here ← IO.currentDir
  let pieces := Workspace.pieces p
  let mut tree := ws.tree
  let mut location := ws.start p
  for (piece, count) in pieces.zipIdx do
    let entry : IO.FS.DirEntry := ⟨here, Text.join "/" ((pieces.take count).map FileName.shown)⟩
    if (tree.at? location).isNone && (← entry.path.isDir) then
      tree := tree.put location (.dir [])
    location := Workspace.target location piece
  if let some node ← readNode ⟨here, p.text⟩ then
    tree := tree.put location node
  return { ws with tree }

/-- The workspace of the working directory with what an invocation reads. -/
def readWorkspace (i : Invocation) : IO Workspace := do
  let here := ((Text.split '/' (← IO.currentDir).toString).filter (· ≠ "")).map FileName.text
  let ws : Workspace := { tree := (FileTree.dir []).put here (.dir []), here }
  let ws ← i.options.config.toList.foldlM readPath ws
  match i.options.configuration ws with
  | .ok config => config.allRoots.foldlM readPath ws
  | .error _ => return ws

/-- Writes a file as a build has decided to. -/
def replay (w : FileWrite) : IO Unit := do
  if let some parent := w.path.parent? then
    if parent.text ≠ "" then IO.FS.createDirAll parent.text
  IO.FS.writeFile w.path.text w.content

def stamp : IO BuildStamp := do
  let now ← Std.Time.Timestamp.now
  return BuildStamp.ofRandom (← IO.getRandomBytes 16).toList now.toNanosecondsSinceUnixEpoch.toInt.toNat

end Program

end DocModel

open DocModel in
/-- Runs the command that the arguments name. -/
def main (args : List String) : IO UInt32 := do
  match Invocation.ofArguments? args with
  | none =>
    IO.eprintln "usage: build | validate | snapshot | plan, with options"
    return CommandAnswer.badArguments.code.toUInt32
  | some i =>
    let (answer, ws) := i.run .standard (← Program.stamp) (← Program.readWorkspace i)
    ws.log.forM Program.replay
    IO.print answer.output
    return answer.code.toUInt32
