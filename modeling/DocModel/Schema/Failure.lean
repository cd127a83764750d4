import DocModel.Schema.Basic
import DocModel.Text.Split
import DocModel.Value.Text

/-!
# What a schema finds

A failure says what is wrong, where in the value, and which place of the schema says so. Both places are
lists of steps, and JSON Pointers as text.
-/

namespace DocModel

/-- What is wrong with a value. -/
inductive SchemaFault where
  | wrongType (v : Value) (names : List TypeName)
  | notAllowed (v : Value) (allowed : List Value)
  | notExpected (expected : Value)
  | outOfBound (v : Value) (side : Bound) (limit : Number)
  | notMultiple (v : Value) (divisor : Number)
  | wrongCount (v : Value) (limit : CountLimit)
  | notUnique (v : Value)
  | noMatch (v : Value) (pattern : String)
  | missing (name : String)
  | unexpectedMembers (names : List String)
  | unexpectedItems (items : List Value)
  | noBranch (v : Value) (keyword : String)
  | severalBranches (v : Value)
  | forbiddenBy (v schema : Value)
  | containsNone (v : Value)
  | refused (v : Value)
  deriving DecidableEq

namespace SchemaFault

/-- One name is called by its name and several are listed in their order. -/
def typesText (names : List TypeName) : String :=
  match TypeName.all.filter names.contains with
  | [name] => "type \"" ++ name.text ++ "\""
  | names => "types " ++ Text.join ", " (names.map fun name => "\"" ++ name.text ++ "\"")

def verbFor {α : Type} (items : List α) : String :=
  if items.length = 1 then " was unexpected)" else " were unexpected)"

def message : SchemaFault → String
  | wrongType v names => v.compact ++ " is not of " ++ typesText names
  | notAllowed v allowed => v.compact ++ " is not one of " ++ (Value.list allowed).compact
  | notExpected expected => expected.compact ++ " was expected"
  | outOfBound v side limit =>
    v.compact ++ " is " ++ side.phrase ++ " of " ++ (Value.number limit).compact
  | notMultiple v divisor => v.compact ++ " is not a multiple of " ++ divisor.toDouble.toPlainText
  | wrongCount v ⟨measure, least, limit⟩ =>
    let verb := match measure, least with
      | .length, true => " is shorter than "
      | .length, false => " is longer than "
      | _, true => " has less than "
      | _, false => " has more than "
    v.compact ++ verb ++ toString limit ++ " " ++ measure.noun (limit = 1)
  | notUnique v => v.compact ++ " has non-unique elements"
  | noMatch v pattern => v.compact ++ " does not match \"" ++ pattern ++ "\""
  | missing name => (Value.string name).compact ++ " is a required property"
  | unexpectedMembers names =>
    "Additional properties are not allowed ("
      ++ Text.join ", " (names.map fun name => "'" ++ name ++ "'") ++ verbFor names
  | unexpectedItems items =>
    "Additional items are not allowed (" ++ Text.join ", " (items.map Value.compact) ++ verbFor items
  | noBranch v keyword =>
    v.compact ++ " is not valid under any of the schemas listed in the '" ++ keyword ++ "' keyword"
  | severalBranches v =>
    v.compact ++ " is valid under more than one of the schemas listed in the 'oneOf' keyword"
  | forbiddenBy v schema => schema.compact ++ " is not allowed for " ++ v.compact
  | containsNone v => "None of " ++ v.compact ++ " are valid under the given schema"
  | refused v => "False schema does not allow " ++ v.compact

end SchemaFault

namespace Pointer

/-- A step of a pointer, `~` and `/` in it escaped. -/
def escape (step : String) : String :=
  String.ofList (step.toList.flatMap fun c =>
    if c = '~' then ['~', '0'] else if c = '/' then ['~', '1'] else [c])

/-- The step that an escaped one stands for. -/
def unescape : List Char → List Char
  | '~' :: '1' :: rest => '/' :: unescape rest
  | '~' :: '0' :: rest => '~' :: unescape rest
  | c :: rest => c :: unescape rest
  | [] => []

/-- A slash before every step. -/
def text (steps : List String) : String := String.join (steps.map fun step => "/" ++ escape step)

end Pointer

structure SchemaFailure where
  fault : SchemaFault
  /-- Where in the value. -/
  place : List String := []
  /-- Where in the schema. -/
  location : List String := []
  deriving DecidableEq

namespace SchemaFailure

/-- The failure as seen from further out. -/
def under (location place : List String) (f : SchemaFailure) : SchemaFailure :=
  { f with place := place ++ f.place, location := location ++ f.location }

end SchemaFailure

/-- Says what is wrong with each value. -/
abbrev SchemaCheck := Value → List SchemaFailure

/-- Compiles a schema to the check that it stands for, or says why it does not compile. -/
abbrev SchemaEngine := Value → Except String SchemaCheck

end DocModel
