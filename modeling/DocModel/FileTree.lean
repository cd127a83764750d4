import DocModel.Dict
import DocModel.FileName

/-!
# File trees

The files and directories below one directory, as a value. A *location* is the list of names that leads to a
node; a name need not be a text. `put` places a node and makes the directories on the way to it; `at?_put` says that the node is there
afterwards, and `at?_put_of_unrelated` that what lies elsewhere stays.
-/

namespace DocModel

inductive FileTree where
  | file (content : List UInt8)
  | dir (entries : List (FileName × FileTree))

namespace FileTree

instance : Inhabited FileTree := ⟨dir []⟩

/-- A file with a text. -/
def ofText (text : String) : FileTree := file text.toUTF8.toList

def isDir : FileTree → Bool
  | file _ => false
  | dir _ => true

/-- The text of a file whose bytes are UTF-8. -/
def text? : FileTree → Option String
  | file content => String.fromUTF8? ⟨content.toArray⟩
  | dir _ => none

/-- The entries of a directory. -/
def entries : FileTree → List (FileName × FileTree)
  | file _ => []
  | dir entries => entries

@[simp] theorem entries_dir (es : List (FileName × FileTree)) : (dir es).entries = es := rfl

/-- The node at a location. -/
def at? : FileTree → List FileName → Option FileTree
  | t, [] => some t
  | t, name :: rest =>
    match Dict.get? t.entries name with
    | some child => at? child rest
    | none => none

/-- Places a node at a location; a file on the way becomes a directory. -/
def put : FileTree → List FileName → FileTree → FileTree
  | _, [], new => new
  | t, name :: rest, new =>
    dir (Dict.insert t.entries name (put ((Dict.get? t.entries name).getD (dir [])) rest new))

theorem at?_put (t : FileTree) (location : List FileName) (new : FileTree) :
    (t.put location new).at? location = some new := by
  induction location generalizing t with
  | nil => rfl
  | cons name rest ih => simp [put, at?, Dict.get?_insert, ih]

/-- Neither of two locations leads through the other. -/
def Unrelated (a b : List FileName) : Prop := ¬ a <+: b ∧ ¬ b <+: a

theorem at?_put_of_unrelated (t : FileTree) {location other : List FileName} (new : FileTree)
    (h : Unrelated location other) : (t.put location new).at? other = t.at? other := by
  induction location generalizing t other with
  | nil => exact absurd (List.nil_prefix) h.1
  | cons name rest ih =>
    cases other with
    | nil => exact absurd (List.nil_prefix) h.2
    | cons name' rest' =>
      simp only [put, at?, entries_dir, Dict.get?_insert]
      by_cases hn : name' = name
      · subst hn
        have hr : Unrelated rest rest' := by
          simpa [Unrelated, List.cons_prefix_cons] using h
        cases hc : Dict.get? t.entries name' with
        | some child => simp [ih child hr]
        | none =>
          simp only [if_true, Option.getD_none, ih (dir []) hr]
          cases rest' with
          | nil => exact absurd (List.nil_prefix) hr.2
          | cons _ _ => rfl
      · simp [hn]

mutual

/-- All files, each with its location as a text. -/
def files (before : String) : FileTree → List (String × List UInt8)
  | file content => [(before, content)]
  | dir entries => entryFiles (if before = "" then "" else before ++ "/") entries

def entryFiles (before : String) : List (FileName × FileTree) → List (String × List UInt8)
  | [] => []
  | (name, child) :: rest => files (before ++ name.shown) child ++ entryFiles before rest

end

end FileTree

end DocModel
