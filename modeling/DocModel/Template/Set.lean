import DocModel.Dict
import DocModel.Path

/-!
# Template sets

Templates by key. A key is normalized before it is looked up or registered: one leading slash and one
`.hbs` at the end are dropped. Of two templates with one normalized key the later one stays.
-/

namespace DocModel

structure Template where
  key : String
  source : String
  /-- The file of the template; none if it was registered in memory. -/
  path : Option SourcePath := none
  deriving DecidableEq

/-- Templates by normalized key. -/
abbrev TemplateSet := Dict Template

namespace TemplateSet

def extension : String := "hbs"

def normalizeKey (key : String) : String :=
  let key := (Text.dropFront? "/" key).getD key
  (Text.dropBack? ".hbs" key).getD key

/-- The template that a reference means. -/
def find? (set : TemplateSet) (reference : String) : Option Template :=
  Dict.get? set (normalizeKey reference)

/-- The key of the template that a reference means. -/
def keyFor? (set : TemplateSet) (reference : String) : Option String :=
  (set.find? reference).map Template.key

def list (set : TemplateSet) : List Template := Dict.values set

/-- Adds a template under the normal form of a key. -/
def register (set : TemplateSet) (key source : String) (path : Option SourcePath) : TemplateSet :=
  let key := normalizeKey key
  Dict.insert set key { key, source, path }

end TemplateSet

end DocModel
