import DocModel.Schema.Rules

/-!
# What a schema stands for

`Schema.check` turns a schema into the check that it stands for, given what its patterns match and what the
places stand for that it refers to.
-/

namespace DocModel

/-- What a schema needs from outside. -/
structure SchemaContext where
  patterns : PatternEngine
  resolve : String → SchemaCheck

mutual

def Schema.check (ctx : SchemaContext) : Schema → SchemaCheck
  | .fixed true => fun _ => []
  | .fixed false => fun v => [{ fault := .refused v }]
  | .all keywords =>
    let checks := keywordChecks ctx keywords
    fun v => checks.flatMap (· v)

def keywordChecks (ctx : SchemaContext) : List Keyword → List SchemaCheck
  | [] => []
  | k :: rest => Keyword.check ctx k :: keywordChecks ctx rest

def schemaChecks (ctx : SchemaContext) : List Schema → List SchemaCheck
  | [] => []
  | s :: rest => Schema.check ctx s :: schemaChecks ctx rest

def fieldChecks (ctx : SchemaContext) : List (String × Schema) → Dict SchemaCheck
  | [] => []
  | (name, s) :: rest => (name, Schema.check ctx s) :: fieldChecks ctx rest

def Keyword.check (ctx : SchemaContext) : Keyword → SchemaCheck
  | .types names => Rules.types names
  | .enum allowed => Rules.enum allowed
  | .const expected => Rules.const expected
  | .bound side limit => Rules.bound side limit
  | .multipleOf divisor => Rules.multipleOf divisor
  | .count limit => Rules.count limit
  | .pattern text => Rules.pattern ctx.patterns text
  | .uniqueItems => Rules.uniqueItems
  | .required names => Rules.required ["required"] names
  | .alsoRequired names => Rules.required [] names
  | .dependencies keyword schemas => Rules.dependencies keyword (fieldChecks ctx schemas)
  | .properties schemas => Rules.properties (fieldChecks ctx schemas)
  | .patternProperties schemas => Rules.patternProperties ctx.patterns (fieldChecks ctx schemas)
  | .otherMembers properties patterns other =>
    Rules.otherMembers ctx.patterns (fieldChecks ctx properties) (fieldChecks ctx patterns)
      (Schema.check ctx other)
  | .closedMembers properties patterns =>
    Rules.closedMembers ctx.patterns (fieldChecks ctx properties) (fieldChecks ctx patterns)
  | .noMembers => Rules.noMembers
  | .propertyNames (.fixed false) => Rules.noNames
  | .propertyNames s => Rules.propertyNames (Schema.check ctx s)
  | .items skipped s => Rules.items "items" skipped (Schema.check ctx s)
  | .itemsInOrder keyword schemas => Rules.itemsInOrder keyword (schemaChecks ctx schemas)
  | .additionalItems skipped s => Rules.items "additionalItems" skipped (Schema.check ctx s)
  | .noAdditionalItems skipped => Rules.noAdditionalItems skipped
  | .contains s => Rules.contains (Schema.check ctx s)
  | .anyOf branches => Rules.anyOf (schemaChecks ctx branches)
  | .oneOf branches => Rules.oneOf (schemaChecks ctx branches)
  | .allOf branches => Rules.allOf (schemaChecks ctx branches)
  | .not s source => Rules.not (Schema.check ctx s) source
  | .conditional test yes no =>
    Rules.conditional (Schema.check ctx test) (Schema.check ctx yes) (Schema.check ctx no)
  | .ref target => (ctx.resolve target).within ["$ref"] []

end

end DocModel
