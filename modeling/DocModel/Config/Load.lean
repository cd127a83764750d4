import DocModel.Config.Basic
import DocModel.Config.Toml
import DocModel.Config.Yaml
import DocModel.Source

/-!
# Configuration files

A configuration file is JSON, TOML or YAML by its extension. Its settings are read generously: flags also from
numbers and from words, paths also from flags and numbers. Relative paths in it start from its directory.
Settings of other names are passed over, and so is an empty map.
-/

namespace DocModel

namespace Setting

/-- Words for a flag, in any case. -/
def flagWords : List (String × Bool) :=
  [("1", true), ("true", true), ("on", true), ("yes", true),
    ("0", false), ("false", false), ("off", false), ("no", false)]

/-- A flag, a number that is or is not zero, or a word. -/
def flag : Decoder Bool
  | .bool b => .ok b
  | .number (.int n) => .ok (n ≠ 0)
  | .number (.double d) => .ok (!d.isZero)
  | .string s =>
    match flagWords.find? fun entry => entry.1 = s.toLower with
    | some (_, b) => .ok b
    | none => .error (.wrongType (.string s) "a boolean")
  | v => .error (.wrongType v "a boolean")

/-- Integers beyond 64 bits with a sign count as doubles. -/
def numberText : Number → String
  | .int n => if n < Nat.pow 2 63 then toString n else (Double.ofNat n.toNat).toPlainText
  | .double d => d.toPlainText

/-- A path, or the text of a flag or a number as one. -/
def path : Decoder Path
  | .string s => .ok ⟨s⟩
  | .bool b => .ok ⟨if b then "true" else "false"⟩
  | .number n => .ok ⟨numberText n⟩
  | v => .error (.wrongType v "path string")

/-- Settings that are not empty maps. -/
def present (settings : Fields) : Fields := settings.filter fun entry => entry.2 ≠ .map []

end Setting

/-- The form that a configuration file has. -/
inductive ConfigSyntax where
  | json
  | toml
  | yaml
  deriving DecidableEq, Repr

namespace ConfigSyntax

/-- The form of a file by its extension. -/
def ofPath? (file : Path) : Option ConfigSyntax :=
  match file.extension? with
  | some "json" => some json
  | some "toml" => some toml
  | some "yaml" => some yaml
  | some "yml" => some yaml
  | _ => none

/-- The settings in a text. -/
def read? (form : ConfigSyntax) (text : String) : Option Fields :=
  match form with
  | json => (Value.read text).toOption.bind Value.map?
  | toml => Toml.read? text
  | yaml => (Yaml.read? text).bind Value.map?

end ConfigSyntax

namespace BuildConfig

def settingsFormat : RecordFormat BuildConfig := formatOf Setting.flag Setting.path

/-- The configuration that the text of a file gives, or why it gives none. -/
def ofText (file : Path) (text : String) : Except String BuildConfig := do
  let some form := ConfigSyntax.ofPath? file | throw "unknown configuration format"
  let some settings := form.read? text | throw "malformed configuration"
  (settingsFormat.decode (.map (Setting.present settings))).mapError DecodeFault.message

/-- The configuration that a file has written in it. -/
def read (file : Path) (ws : Workspace) : Except String BuildConfig := do
  ofText file (← (ws.read file).mapError IoFault.message)

/-- The configuration of a file, its relative paths placed beside the file. -/
def load (file : Path) (ws : Workspace) : Except BuildError BuildConfig :=
  if !ws.isFile file then .error (.config (.fileMissing file))
  else
    match read file ws with
    | .error reason => .error (.config (.unreadable reason))
    | .ok c => .ok (c.rebase (file.parent?.getD ⟨""⟩))

end BuildConfig

end DocModel
