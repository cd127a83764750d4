import DocModel.Value.Numeric

/-!
# Schemas

A schema accepts everything, nothing, or what all its keywords accept. Each keyword holds what it needs to
judge a value: those that work together, such as the properties and the additional properties of an object,
are one keyword here. Keywords stay in the order of their names, which is the order of what they find.
-/

namespace DocModel

/-- The types that a schema can name, in the order of their names. -/
inductive TypeName where
  | array | boolean | integer | null | number | object | string
  deriving DecidableEq, Repr

namespace TypeName

def all : List TypeName := [array, boolean, integer, null, number, object, string]

def text : TypeName → String
  | array => "array"
  | boolean => "boolean"
  | integer => "integer"
  | null => "null"
  | number => "number"
  | object => "object"
  | string => "string"

def ofText? (s : String) : Option TypeName := all.find? fun name => name.text = s

/-- Whether a value is of a type; a double without a fraction is an integer too. -/
def accepts : TypeName → Value → Bool
  | array, .list _ => true
  | boolean, .bool _ => true
  | integer, .number n => n.isIntegral
  | null, .null => true
  | number, .number _ => true
  | object, .map _ => true
  | string, .string _ => true
  | _, _ => false

end TypeName

/-- The side on which a number is bounded. -/
inductive Bound where
  | minimum | maximum | exclusiveMinimum | exclusiveMaximum
  deriving DecidableEq, Repr

namespace Bound

def keyword : Bound → String
  | minimum => "minimum"
  | maximum => "maximum"
  | exclusiveMinimum => "exclusiveMinimum"
  | exclusiveMaximum => "exclusiveMaximum"

def holds (limit n : Number) : Bound → Bool
  | minimum => !n.below limit
  | maximum => !limit.below n
  | exclusiveMinimum => limit.below n
  | exclusiveMaximum => n.below limit

/-- How a number outside the bound stands to it. -/
def phrase : Bound → String
  | minimum => "less than the minimum"
  | maximum => "greater than the maximum"
  | exclusiveMinimum => "less than or equal to the minimum"
  | exclusiveMaximum => "greater than or equal to the maximum"

end Bound

/-- What is counted of a value. -/
inductive Measure where
  | length | items | properties
  deriving DecidableEq, Repr

namespace Measure

/-- The count, if the value is of the kind that has one; a text is counted in code points. -/
def of? : Measure → Value → Option Nat
  | length, .string s => some s.length
  | items, .list xs => some xs.length
  | properties, .map entries => some entries.length
  | _, _ => none

/-- What is counted, one of it or several. -/
def noun (one : Bool) : Measure → String
  | length => if one then "character" else "characters"
  | items => if one then "item" else "items"
  | properties => if one then "property" else "properties"

end Measure

/-- A least or a greatest count. -/
structure CountLimit where
  measure : Measure
  least : Bool
  limit : Nat
  deriving DecidableEq, Repr

namespace CountLimit

def keyword (c : CountLimit) : String :=
  match c.measure, c.least with
  | .length, true => "minLength"
  | .length, false => "maxLength"
  | .items, true => "minItems"
  | .items, false => "maxItems"
  | .properties, true => "minProperties"
  | .properties, false => "maxProperties"

def holds (c : CountLimit) (n : Nat) : Bool := if c.least then c.limit ≤ n else n ≤ c.limit

end CountLimit

mutual

inductive Schema where
  /-- Accepts everything or nothing. -/
  | fixed (accepts : Bool)
  | all (keywords : List Keyword)

inductive Keyword where
  | types (names : List TypeName)
  | enum (allowed : List Value)
  | const (expected : Value)
  | bound (side : Bound) (limit : Number)
  | multipleOf (divisor : Number)
  | count (limit : CountLimit)
  | pattern (text : String)
  | uniqueItems
  | required (names : List String)
  /-- Members that another member asks for, under no keyword of their own. -/
  | alsoRequired (names : List String)
  /-- What members ask for, under a keyword of this name. -/
  | dependencies (keyword : String) (schemas : List (String × Schema))
  | properties (schemas : List (String × Schema))
  | patternProperties (schemas : List (String × Schema))
  /-- Properties, patterns, and the schema of all other members. -/
  | otherMembers (properties patterns : List (String × Schema)) (other : Schema)
  /-- Properties and patterns, and no other members. -/
  | closedMembers (properties patterns : List (String × Schema))
  | noMembers
  | propertyNames (schema : Schema)
  /-- The items after the first few. -/
  | items (skipped : Nat) (schema : Schema)
  /-- One schema for each of the first items, under a keyword of this name. -/
  | itemsInOrder (keyword : String) (schemas : List Schema)
  /-- Items after those that have a schema each. -/
  | additionalItems (skipped : Nat) (schema : Schema)
  | noAdditionalItems (skipped : Nat)
  | contains (schema : Schema)
  | anyOf (branches : List Schema)
  | oneOf (branches : List Schema)
  | allOf (branches : List Schema)
  /-- A schema and the document that it was read from. -/
  | not (schema : Schema) (source : Value)
  | conditional (test : Schema) (yes no : Schema)
  | ref (target : String)

end

instance : Inhabited Schema := ⟨.fixed true⟩

/-! ## All keywords of a schema -/

mutual

/-- The keywords of a schema and of the schemas in it. -/
def Schema.nested : Schema → List Keyword
  | .fixed _ => []
  | .all keywords => nestedKeywords keywords

def nestedKeywords : List Keyword → List Keyword
  | [] => []
  | k :: rest => k :: (Keyword.nested k ++ nestedKeywords rest)

def nestedSchemas : List Schema → List Keyword
  | [] => []
  | s :: rest => Schema.nested s ++ nestedSchemas rest

def nestedFields : List (String × Schema) → List Keyword
  | [] => []
  | (_, s) :: rest => Schema.nested s ++ nestedFields rest

/-- The keywords of the schemas in a keyword. -/
def Keyword.nested : Keyword → List Keyword
  | .dependencies _ schemas | .properties schemas | .patternProperties schemas => nestedFields schemas
  | .otherMembers properties patterns other =>
    nestedFields properties ++ nestedFields patterns ++ Schema.nested other
  | .closedMembers properties patterns => nestedFields properties ++ nestedFields patterns
  | .propertyNames s | .items _ s | .additionalItems _ s | .contains s | .not s _ => Schema.nested s
  | .itemsInOrder _ schemas | .anyOf schemas | .oneOf schemas | .allOf schemas => nestedSchemas schemas
  | .conditional test yes no => Schema.nested test ++ Schema.nested yes ++ Schema.nested no
  | _ => []

end

namespace Keyword

/-- The patterns in one keyword. -/
def patterns : Keyword → List String
  | pattern text => [text]
  | patternProperties schemas => schemas.map Prod.fst
  | otherMembers _ patterns _ => patterns.map Prod.fst
  | closedMembers _ patterns => patterns.map Prod.fst
  | _ => []

/-- The place that one keyword refers to. -/
def target? : Keyword → Option String
  | ref target => some target
  | _ => none

end Keyword

namespace Schema

/-- Accepts objects with all of these members, and what is no object. -/
def ofNames (names : List String) : Schema := .all [.alsoRequired names]

/-- All patterns in a schema. -/
def patterns (s : Schema) : List String := s.nested.flatMap Keyword.patterns

/-- All places that a schema refers to. -/
def targets (s : Schema) : List String := s.nested.filterMap Keyword.target?

end Schema

end DocModel
