import DocModel.Path

/-!
# Where an output goes

`outputPath` turns a filename into a path under the build root. Only filenames whose segments are ordinary
names are accepted. One leading slash means the build root itself; a filename of one segment without it
goes to the directory of the template's category, which is the first segment of its key.
-/

namespace DocModel

/-- Why a filename is refused. -/
inductive LocationFault where
  | empty
  | absolute (filename : String)
  | parentSegment (filename : String)
  | emptySegment (filename : String)
  | escapesRoot (filename : String)
  deriving DecidableEq, Repr

namespace LocationFault

def message : LocationFault → String
  | empty => "filename is empty"
  | absolute f => "absolute path `" ++ f ++ "` not allowed"
  | parentSegment f => "parent segment `..` not allowed in `" ++ f ++ "`"
  | emptySegment f => "empty or `.` segment not allowed in `" ++ f ++ "`"
  | escapesRoot f => "`" ++ f ++ "` resolves outside the build root"

end LocationFault

namespace Output

def isLetter (c : Char) : Bool := ('a' ≤ c && c ≤ 'z') || ('A' ≤ c && c ≤ 'Z')

/-- A drive letter and a colon, alone or before a slash. -/
def hasDrive (filename : String) : Bool :=
  match filename.toList with
  | [drive, ':'] => isLetter drive
  | drive :: ':' :: '/' :: _ => isLetter drive
  | _ => false

/-- The fault of the first segment that is no ordinary name. -/
def segmentFault? (filename : String) : List String → Option LocationFault
  | [] => none
  | segment :: rest =>
    if segment = ".." then some (.parentSegment filename)
    else if segment = "" || segment = "." then some (.emptySegment filename)
    else segmentFault? filename rest

/-- The first segment of a template key of several segments, if it is an ordinary name. -/
def category? (templateKey : String) : Option String :=
  match Text.split '/' templateKey with
  | first :: _ :: _ => if first = "" || first = "." || first = ".." then none else some first
  | _ => none

/-- The segments below the build root. -/
def placedSegments (templateKey : String) (rooted : Bool) (segments : List String) : List String :=
  match rooted, segments with
  | false, [segment] => (category? templateKey).toList ++ [segment]
  | _, segments => segments

/-- The path of an output. -/
def outputPath (templateKey filename : String) (root : Path) : Except LocationFault Path :=
  if filename = "" then .error .empty
  else if filename.toList.contains '\\' || hasDrive filename then .error (.absolute filename)
  else
    let (rooted, relative) := match filename.toList with
      | '/' :: rest => (true, rest)
      | all => (false, all)
    if relative.head? = some '/' then .error (.absolute filename)
    else
      let segments := (Text.splitChars '/' relative).map String.ofList
      match segmentFault? filename segments with
      | some fault => .error fault
      | none =>
        let below : Path := ⟨Text.join "/" (placedSegments templateKey rooted segments)⟩
        let path := root.join below
        if path.startsWith root && below.steps.all PathStep.isName then .ok path
        else .error (.escapesRoot filename)

/-- The filename of an output that names none: the instance's id, with the extension of the template key's
last segment. -/
def defaultFilename (templateKey instanceId : String) : String :=
  let leaf := ((Text.split '/' templateKey).getLast?).getD templateKey
  match Text.splitLast? '.' leaf with
  | some (stem, ext) => if stem ≠ "" && ext ≠ "" then instanceId ++ "." ++ ext else instanceId
  | none => instanceId

end Output

end DocModel
