import DocModel.Schema.Basic

/-!
# Reading a schema

A schema is a boolean or a map of keywords. Each known keyword must have a value of the shape that its draft
asks for, also where the keyword has no effect; keywords that a draft does not know are passed over.
`Schema.ofValue?` checks all shapes and puts the keywords together that work together.
-/

namespace DocModel

/-- The drafts of the schema language. -/
inductive SchemaDraft where
  | seven
  | latest
  deriving DecidableEq, Repr

namespace SchemaDraft

def sevenName : String := "http://json-schema.org/draft-07/schema"

def latestName : String := "https://json-schema.org/draft/2020-12/schema"

/-- The draft that a name means; hash signs at its end do not matter. -/
def ofName? (name : String) : Option SchemaDraft :=
  let name := String.ofList ((name.toList.reverse.dropWhile (· = '#')).reverse)
  if name = sevenName then some seven else if name = latestName then some latest else none

/-- The draft that a schema names, the latest one if it names none. -/
def of? (schema : Value) : Option SchemaDraft :=
  match schema.get? "$schema" with
  | some (.string name) => ofName? name
  | some _ => none
  | none => some latest

end SchemaDraft

/-- What the value of a keyword must look like. -/
inductive Shape where
  | schema
  | schemas
  | fields
  | schemaOrSchemas
  /-- Schemas or lists of different names, by keys. -/
  | dependencies
  | plain (fits : Value → Bool)

namespace Shape

def isString (v : Value) : Bool := v.string?.isSome

def isBool : Value → Bool
  | .bool _ => true
  | _ => false

def isNumber : Value → Bool
  | .number _ => true
  | _ => false

def isPositive : Value → Bool
  | .number n => (Number.int 0).below n
  | _ => false

def natural? : Value → Option Nat
  | .number n => n.natural?
  | _ => none

def isNatural (v : Value) : Bool := (natural? v).isSome

def isList (v : Value) : Bool := v.list?.isSome

/-- The strings of a list of different strings. -/
def names? : Value → Option (List String)
  | .list items =>
    match items.mapM Value.string? with
    | some names => if Value.allDifferent items then some names else none
    | none => none
  | _ => none

def isNames (v : Value) : Bool := (names? v).isSome

def nameLists? : Value → Option (List (String × List String))
  | .map entries => entries.mapM fun entry => (names? entry.2).map (entry.1, ·)
  | _ => none

/-- The types in one name or a list of different names. -/
def types? : Value → Option (List TypeName)
  | .string name => (TypeName.ofText? name).map ([·])
  | v =>
    match names? v with
    | some (name :: more) => (name :: more).mapM TypeName.ofText?
    | _ => none

def string : Shape := plain isString

def bool : Shape := plain isBool

def number : Shape := plain isNumber

def natural : Shape := plain isNatural

def list : Shape := plain isList

/-- The shapes that all drafts ask for. -/
def common? : String → Option Shape
  | "$id" | "$schema" | "$ref" | "$comment" | "title" | "description" | "format" | "pattern"
  | "contentEncoding" | "contentMediaType" => some string
  | "readOnly" | "uniqueItems" => some bool
  | "examples" | "enum" => some list
  | "const" | "default" => some (plain fun _ => true)
  | "multipleOf" => some (plain isPositive)
  | "minimum" | "maximum" | "exclusiveMinimum" | "exclusiveMaximum" => some number
  | "minLength" | "maxLength" | "minItems" | "maxItems" | "minProperties" | "maxProperties" =>
    some natural
  | "required" => some (plain isNames)
  | "type" => some (plain fun v => (types? v).isSome)
  | "definitions" | "properties" | "patternProperties" => some fields
  | "additionalProperties" | "propertyNames" | "contains" | "if" | "then" | "else" | "not" => some schema
  | "allOf" | "anyOf" | "oneOf" => some schemas
  | "dependencies" => some dependencies
  | _ => none

/-- The shapes that one draft asks for. -/
def special? : SchemaDraft → String → Option Shape
  | .seven, "items" => some schemaOrSchemas
  | .seven, "additionalItems" => some schema
  | .latest, "items" => some schema
  | .latest, "prefixItems" => some schemas
  | .latest, "$defs" | .latest, "dependentSchemas" => some fields
  | .latest, "dependentRequired" => some (plain fun v => (nameLists? v).isSome)
  | .latest, "unevaluatedItems" | .latest, "unevaluatedProperties" | .latest, "contentSchema" => some schema
  | .latest, "minContains" | .latest, "maxContains" => some natural
  | .latest, "deprecated" | .latest, "writeOnly" => some bool
  | .latest, "$anchor" | .latest, "$dynamicAnchor" | .latest, "$dynamicRef" => some string
  | _, _ => none

def of? (draft : SchemaDraft) (keyword : String) : Option Shape := common? keyword <|> special? draft keyword

end Shape

/-- A keyword's value with the schemas in it read. -/
inductive KeywordPart where
  | one (s : Schema)
  | many (schemas : List Schema)
  | fields (schemas : List (String × Schema))
  | dependencies (schemas : List (String × Schema))
  | plain (v : Value)

/-- A keyword, its value, and what was read from the value. -/
structure KeywordReading where
  name : String
  source : Value
  part : KeywordPart

namespace KeywordReading

def find? (readings : List KeywordReading) (name : String) : Option KeywordPart :=
  (readings.find? fun r => r.name = name).map part

def one? (readings : List KeywordReading) (name : String) : Option Schema :=
  match find? readings name with
  | some (.one s) => some s
  | _ => none

def fields? (readings : List KeywordReading) (name : String) : Option (List (String × Schema)) :=
  match find? readings name with
  | some (.fields schemas) => some schemas
  | _ => none

/-- How many items have a schema of their own. -/
def countInOrder (readings : List KeywordReading) (name : String) : Nat :=
  match find? readings name with
  | some (.many schemas) => schemas.length
  | _ => 0

/-- Whether the keyword of additional properties judges the described ones too. -/
def judgesAllMembers (readings : List KeywordReading) : Bool :=
  match one? readings "additionalProperties" with
  | some (.fixed true) => false
  | some _ => true
  | none => false

/-- The keyword of additional properties. -/
def additionalProperties (readings : List KeywordReading) : Schema → Option Keyword
  | .fixed true => none
  | .fixed false =>
    match fields? readings "properties", fields? readings "patternProperties" with
    | none, none => some .noMembers
    | properties, patterns => some (.closedMembers (properties.getD []) (patterns.getD []))
  | other =>
    some (.otherMembers ((fields? readings "properties").getD [])
      ((fields? readings "patternProperties").getD []) other)

/-- The test of a conditional with its branches. -/
def conditional (readings : List KeywordReading) (test : Schema) : Option Keyword :=
  match one? readings "then", one? readings "else" with
  | none, none => none
  | yes, no => some (.conditional test (yes.getD (.fixed true)) (no.getD (.fixed true)))

/-- What a keyword with a plain value means. -/
def plainKeyword (draft : SchemaDraft) : String → Value → Option Keyword
  | "type", v => (Shape.types? v).map .types
  | "enum", .list allowed => some (.enum allowed)
  | "const", expected => some (.const expected)
  | "minimum", .number n => some (.bound .minimum n)
  | "maximum", .number n => some (.bound .maximum n)
  | "exclusiveMinimum", .number n => some (.bound .exclusiveMinimum n)
  | "exclusiveMaximum", .number n => some (.bound .exclusiveMaximum n)
  | "multipleOf", .number n => some (.multipleOf n)
  | "minLength", v => (Shape.natural? v).map fun n => .count ⟨.length, true, n⟩
  | "maxLength", v => (Shape.natural? v).map fun n => .count ⟨.length, false, n⟩
  | "minItems", v => (Shape.natural? v).map fun n => .count ⟨.items, true, n⟩
  | "maxItems", v => (Shape.natural? v).map fun n => .count ⟨.items, false, n⟩
  | "minProperties", v => (Shape.natural? v).map fun n => .count ⟨.properties, true, n⟩
  | "maxProperties", v => (Shape.natural? v).map fun n => .count ⟨.properties, false, n⟩
  | "pattern", .string text => some (.pattern text)
  | "uniqueItems", .bool true => some .uniqueItems
  | "required", v => (Shape.names? v).map .required
  | "dependentRequired", v =>
    match draft with
    | .latest => (Shape.nameLists? v).map fun lists =>
      .dependencies "dependentRequired" (lists.map fun entry => (entry.1, .ofNames entry.2))
    | .seven => none
  | "$ref", .string target => some (.ref target)
  | _, _ => none

/-- What a keyword means beside the others of its schema. -/
def keyword? (draft : SchemaDraft) (readings : List KeywordReading) (r : KeywordReading) : Option Keyword :=
  match r.name, r.part with
  | name, .plain v => plainKeyword draft name v
  | "properties", .fields schemas =>
    if judgesAllMembers readings then none else some (.properties schemas)
  | "patternProperties", .fields schemas =>
    if judgesAllMembers readings then none else some (.patternProperties schemas)
  | "additionalProperties", .one s => additionalProperties readings s
  | "propertyNames", .one s => some (.propertyNames s)
  | "dependentSchemas", .fields schemas => some (.dependencies "dependentSchemas" schemas)
  | "dependencies", .dependencies schemas => some (.dependencies "dependencies" schemas)
  | "items", .one s => some (.items (countInOrder readings "prefixItems") s)
  | "items", .many schemas => some (.itemsInOrder "items" schemas)
  | "prefixItems", .many schemas => some (.itemsInOrder "prefixItems" schemas)
  | "additionalItems", .one s =>
    match find? readings "items", s with
    | some (.many schemas), .fixed false => some (.noAdditionalItems schemas.length)
    | some (.many schemas), s => some (.additionalItems schemas.length s)
    | _, _ => none
  | "contains", .one s => some (.contains s)
  | "anyOf", .many branches => some (.anyOf branches)
  | "oneOf", .many branches => some (.oneOf branches)
  | "allOf", .many branches => some (.allOf branches)
  | "not", .one s => some (.not s r.source)
  | "if", .one test => conditional readings test
  | _, _ => none

/-- In the draft that asks for it, a reference stands alone. -/
def relevant (draft : SchemaDraft) (readings : List KeywordReading) : List KeywordReading :=
  match draft, readings.filter fun r => r.name = "$ref" with
  | .seven, r :: rest => r :: rest
  | _, _ => readings

def schema (draft : SchemaDraft) (readings : List KeywordReading) : Schema :=
  .all ((relevant draft readings).filterMap (keyword? draft readings))

end KeywordReading

mutual

/-- The schema in a document, if all its keywords have their shapes. -/
def Schema.ofValue? (draft : SchemaDraft) : Value → Option Schema
  | .bool accepts => some (.fixed accepts)
  | .map entries => (readKeywords? draft entries).map (KeywordReading.schema draft)
  | _ => none

def readKeywords? (draft : SchemaDraft) : List (String × Value) → Option (List KeywordReading)
  | [] => some []
  | (name, v) :: rest =>
    let more := readKeywords? draft rest
    match Shape.of? draft name, v with
    | none, _ => more
    | some (.plain fits), v =>
      if fits v then more.map ((⟨name, v, .plain v⟩ : KeywordReading) :: ·) else none
    | some .fields, .map fields =>
      (readFields? draft fields).bind fun schemas => more.map (⟨name, .map fields, .fields schemas⟩ :: ·)
    | some .fields, _ => none
    | some .dependencies, .map members =>
      (readDependencies? draft members).bind fun schemas =>
        more.map (⟨name, .map members, .dependencies schemas⟩ :: ·)
    | some .dependencies, _ => none
    | some .schemas, .list (item :: items) =>
      (readSchemas? draft (item :: items)).bind fun schemas =>
        more.map (⟨name, .list (item :: items), .many schemas⟩ :: ·)
    | some .schemas, _ => none
    | some .schemaOrSchemas, .list (item :: items) =>
      (readSchemas? draft (item :: items)).bind fun schemas =>
        more.map (⟨name, .list (item :: items), .many schemas⟩ :: ·)
    | some .schemaOrSchemas, v | some .schema, v =>
      (Schema.ofValue? draft v).bind fun s => more.map (⟨name, v, .one s⟩ :: ·)

def readSchemas? (draft : SchemaDraft) : List Value → Option (List Schema)
  | [] => some []
  | v :: rest =>
    (Schema.ofValue? draft v).bind fun s => (readSchemas? draft rest).map (s :: ·)

def readFields? (draft : SchemaDraft) : List (String × Value) → Option (List (String × Schema))
  | [] => some []
  | (name, v) :: rest =>
    (Schema.ofValue? draft v).bind fun s => (readFields? draft rest).map ((name, s) :: ·)

def readDependencies? (draft : SchemaDraft) : List (String × Value) → Option (List (String × Schema))
  | [] => some []
  | (name, v) :: rest =>
    (((Shape.names? v).map .ofNames).or (Schema.ofValue? draft v)).bind fun s =>
      (readDependencies? draft rest).map ((name, s) :: ·)

end

theorem readFields?_eq_mapM (draft : SchemaDraft) (fields : List (String × Value)) :
    readFields? draft fields = fields.mapM fun e => (Schema.ofValue? draft e.2).map (e.1, ·) := by
  induction fields with
  | nil => rfl
  | cons e rest ih =>
    rw [readFields?, ih, List.mapM_cons]
    cases Schema.ofValue? draft e.2 with
    | none => rfl
    | some s => exact Option.map_eq_bind

theorem readDependencies?_eq_mapM (draft : SchemaDraft) (members : List (String × Value)) :
    readDependencies? draft members = members.mapM fun e =>
      (((Shape.names? e.2).map Schema.ofNames).or (Schema.ofValue? draft e.2)).map (e.1, ·) := by
  induction members with
  | nil => rfl
  | cons e rest ih =>
    rw [readDependencies?, ih, List.mapM_cons]
    cases ((Shape.names? e.2).map Schema.ofNames).or (Schema.ofValue? draft e.2) with
    | none => rfl
    | some s => exact Option.map_eq_bind

end DocModel
