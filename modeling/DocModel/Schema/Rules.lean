import DocModel.Pattern.Parser
import DocModel.Schema.Failure

/-!
# The rule of each keyword

What each keyword finds wrong with a value, given the checks that the schemas inside it stand for. A rule
says nothing about values of a kind that its keyword does not judge.
-/

namespace DocModel

namespace SchemaCheck

/-- A check at a member or an item. -/
def within (location place : List String) (check : SchemaCheck) (v : Value) : List SchemaFailure :=
  (check v).map (SchemaFailure.under location place)

def accepts (check : SchemaCheck) (v : Value) : Bool := (check v).isEmpty

end SchemaCheck

namespace Rules

/-- One failure at a keyword, unless a condition holds. -/
def require (holds : Bool) (keyword : String) (fault : SchemaFault) : List SchemaFailure :=
  if holds then [] else [{ fault, location := [keyword] }]

/-! ## Values as such -/

def types (names : List TypeName) : SchemaCheck := fun v =>
  require (names.any (·.accepts v)) "type" (.wrongType v names)

def enum (allowed : List Value) : SchemaCheck := fun v =>
  require (allowed.any v.equivalent) "enum" (.notAllowed v allowed)

def const (expected : Value) : SchemaCheck := fun v =>
  require (expected.equivalent v) "const" (.notExpected expected)

def bound (side : Bound) (limit : Number) : SchemaCheck
  | .number n => require (side.holds limit n) side.keyword (.outOfBound (.number n) side limit)
  | _ => []

def multipleOf (divisor : Number) : SchemaCheck
  | .number n => require (n.isMultipleOf divisor) "multipleOf" (.notMultiple (.number n) divisor)
  | _ => []

def count (limit : CountLimit) : SchemaCheck := fun v =>
  match limit.measure.of? v with
  | some n => require (limit.holds n) limit.keyword (.wrongCount v limit)
  | none => []

def pattern (engine : PatternEngine) (text : String) : SchemaCheck
  | .string s => require (((engine text).map (· s)).getD true) "pattern" (.noMatch (.string s) text)
  | _ => []

def uniqueItems : SchemaCheck
  | .list items => require (Value.allDifferent items) "uniqueItems" (.notUnique (.list items))
  | _ => []

/-! ## Members -/

/-- One failure for each name that is missing. -/
def required (location names : List String) : SchemaCheck
  | .map entries =>
    (names.filter fun name => !Dict.contains entries name).map fun name => { fault := .missing name, location }
  | _ => []

/-- What the members that are there ask for. -/
def dependencies (keyword : String) (checks : Dict SchemaCheck) : SchemaCheck
  | .map entries =>
    (checks.filter fun entry => Dict.contains entries entry.1).flatMap fun entry =>
      entry.2.within [keyword, entry.1] [] (.map entries)
  | _ => []

def properties (checks : Dict SchemaCheck) : SchemaCheck
  | .map entries =>
    checks.flatMap fun entry =>
      match Dict.get? entries entry.1 with
      | some member => entry.2.within ["properties", entry.1] [entry.1] member
      | none => []
  | _ => []

/-- Whether a pattern matches a name. -/
def nameMatches (engine : PatternEngine) (pattern name : String) : Bool :=
  ((engine pattern).map (· name)).getD false

def patternProperties (engine : PatternEngine) (checks : Dict SchemaCheck) : SchemaCheck
  | .map entries =>
    checks.flatMap fun entry =>
      (entries.filter fun member => nameMatches engine entry.1 member.1).flatMap fun member =>
        entry.2.within ["patternProperties", entry.1] [member.1] member.2
  | _ => []

/-- What properties and patterns say of a member; nothing if there is neither for it. -/
def describedMember? (engine : PatternEngine) (properties patterns : Dict SchemaCheck)
    (name : String) (member : Value) : Option (List SchemaFailure) :=
  let matching := (patterns.filter fun entry => nameMatches engine entry.1 name).flatMap fun entry =>
    entry.2.within ["patternProperties", entry.1] [name] member
  match Dict.get? properties name with
  | some check => some (check.within ["properties", name] [name] member ++ matching)
  | none =>
    if patterns.any fun entry => nameMatches engine entry.1 name then some matching else none

def otherMembers (engine : PatternEngine) (properties patterns : Dict SchemaCheck)
    (other : SchemaCheck) : SchemaCheck
  | .map entries =>
    entries.flatMap fun member =>
      (describedMember? engine properties patterns member.1 member.2).getD
        (other.within ["additionalProperties"] [member.1] member.2)
  | _ => []

def closedMembers (engine : PatternEngine) (properties patterns : Dict SchemaCheck) : SchemaCheck
  | .map entries =>
    let described := entries.filterMap fun member =>
      describedMember? engine properties patterns member.1 member.2
    let others := entries.filter fun member =>
      (describedMember? engine properties patterns member.1 member.2).isNone
    described.flatten
      ++ require others.isEmpty "additionalProperties" (.unexpectedMembers (Dict.keys others))
  | _ => []

/-- Only the first member is named. -/
def noMembers : SchemaCheck
  | .map ((_, member) :: _) => require false "additionalProperties" (.refused member)
  | _ => []

/-- Failures of names are failures of the object. -/
def propertyNames (check : SchemaCheck) : SchemaCheck
  | .map entries =>
    entries.flatMap fun member =>
      (check (.string member.1)).map fun f =>
        { f with place := [], location := "propertyNames" :: f.location }
  | _ => []

/-- No name is allowed. -/
def noNames : SchemaCheck
  | .map (member :: rest) => require false "propertyNames" (.refused (.map (member :: rest)))
  | _ => []

/-! ## Items -/

def items (keyword : String) (skipped : Nat) (check : SchemaCheck) : SchemaCheck
  | .list all =>
    (all.zipIdx.drop skipped).flatMap fun item => check.within [keyword] [toString item.2] item.1
  | _ => []

def itemsInOrder (keyword : String) (checks : List SchemaCheck) : SchemaCheck
  | .list all =>
    (checks.zip all.zipIdx).flatMap fun (check, item) =>
      check.within [keyword, toString item.2] [toString item.2] item.1
  | _ => []

def noAdditionalItems (skipped : Nat) : SchemaCheck
  | .list all =>
    require (all.length ≤ skipped) "additionalItems" (.unexpectedItems (all.drop skipped))
  | _ => []

def contains (check : SchemaCheck) : SchemaCheck
  | .list all => require (all.any check.accepts) "contains" (.containsNone (.list all))
  | _ => []

/-! ## Composition -/

def anyOf (checks : List SchemaCheck) : SchemaCheck := fun v =>
  require (checks.any (·.accepts v)) "anyOf" (.noBranch v "anyOf")

def oneOf (checks : List SchemaCheck) : SchemaCheck := fun v =>
  match checks.countP (·.accepts v) with
  | 0 => require false "oneOf" (.noBranch v "oneOf")
  | 1 => []
  | _ => require false "oneOf" (.severalBranches v)

def allOf (checks : List SchemaCheck) : SchemaCheck := fun v =>
  checks.zipIdx.flatMap fun (check, i) => check.within ["allOf", toString i] [] v

def not (check : SchemaCheck) (source : Value) : SchemaCheck := fun v =>
  require (!check.accepts v) "not" (.forbiddenBy v source)

def conditional (test yes no : SchemaCheck) : SchemaCheck := fun v =>
  if test.accepts v then yes.within ["then"] [] v else no.within ["else"] [] v

end Rules

end DocModel
