import DocModel.Schema.Check
import DocModel.Schema.Reader

/-!
# The standard schema engine

A document is compiled by reading it as a schema, together with all places that it refers to, directly or
through others. Every pattern on the way must be one. Places are JSON Pointers into the document itself.

References can go round in circles; a check follows as many of them in a row as lead to something new, each
place once for each level of the value.
-/

namespace DocModel

namespace Pointer

def hexByte? (high low : Char) : Option UInt8 := do
  let h ← Pattern.Parser.hexDigit? high
  let l ← Pattern.Parser.hexDigit? low
  return UInt8.ofNat (16 * h + l)

/-- The bytes of a text, two hex digits after a percent sign being one byte. -/
def percentBytes : List Char → List UInt8
  | '%' :: high :: low :: rest =>
    match hexByte? high low with
    | some byte => byte :: percentBytes rest
    | none => 37 :: percentBytes (high :: low :: rest)
  | c :: rest => (String.singleton c).toUTF8.toList ++ percentBytes rest
  | [] => []

def percentDecode? (s : String) : Option String := String.fromUTF8? ⟨(percentBytes s.toList).toArray⟩

/-- The steps of a pointer. -/
def steps? (text : String) : Option (List String) :=
  match Text.splitChars '/' text.toList with
  | [] :: steps => some (steps.map fun step => String.ofList (unescape step))
  | _ => none

/-- What one step leads to. -/
def step? (v : Value) (step : String) : Option Value :=
  match v with
  | .map entries => Dict.get? entries step
  | .list items => step.toNat?.bind (items[·]?)
  | _ => none

/-- What a reference to a place in a document leads to. -/
def target? (doc : Value) (reference : String) : Option Value := do
  let fragment ← Text.dropFront? "#" reference
  (← steps? (← percentDecode? fragment)).foldlM step? doc

end Pointer

namespace Value

mutual

/-- The number of levels. -/
def depth : Value → Nat
  | list items => 1 + itemsDepth items
  | map entries => 1 + fieldsDepth entries
  | _ => 1

def itemsDepth : List Value → Nat
  | [] => 0
  | x :: xs => max (depth x) (itemsDepth xs)

def fieldsDepth : List (String × Value) → Nat
  | [] => 0
  | (_, v) :: rest => max (depth v) (fieldsDepth rest)

end

mutual

/-- The references anywhere in a document. -/
def references : Value → List String
  | list items => itemReferences items
  | map entries => fieldReferences entries
  | _ => []

def itemReferences : List Value → List String
  | [] => []
  | x :: xs => references x ++ itemReferences xs

def fieldReferences : List (String × Value) → List String
  | [] => []
  | (name, v) :: rest =>
    (match name == "$ref", v with
      | true, string target => [target]
      | _, v => references v) ++ fieldReferences rest

end

end Value

namespace Schema

/-- Reads the places of a list and those that they refer to. `fresh` lists the references that have not been
followed yet. -/
def gather (draft : SchemaDraft) (doc : Value) (fresh todo : List String) (found : Dict Schema) :
    Option (Dict Schema) :=
  match todo with
  | [] => some found
  | target :: rest =>
    if _h : target ∈ fresh then
      match (Pointer.target? doc target).bind (Schema.ofValue? draft) with
      | some s => gather draft doc (fresh.erase target) (s.targets ++ rest) ((target, s) :: found)
      | none => none
    else gather draft doc fresh rest found
  termination_by (fresh.length, todo.length)
  decreasing_by
    · exact Prod.Lex.left _ _ (by
        rw [List.length_erase_of_mem _h]
        exact Nat.sub_lt (List.length_pos_of_mem _h) Nat.one_pos)
    · exact Prod.Lex.right _ (by simp)

/-- The check of a schema that may follow `fuel` references in a row. -/
def checkWith (patterns : PatternEngine) (places : Dict Schema) : Nat → Schema → SchemaCheck
  | 0 => Schema.check ⟨patterns, fun _ _ => []⟩
  | fuel + 1 => Schema.check ⟨patterns, fun target v =>
      match Dict.get? places target with
      | some s => checkWith patterns places fuel s v
      | none => []⟩

/-- How many references in a row can lead to something new. -/
def patience (places : Dict Schema) (v : Value) : Nat := (v.depth + 1) * (places.length + 1)

def compile (patterns : PatternEngine) (doc : Value) : Option SchemaCheck := do
  let draft ← SchemaDraft.of? doc
  let root ← Schema.ofValue? draft doc
  let places ← gather draft doc doc.references.eraseDups root.targets []
  if (root :: Dict.values places).all fun s => s.patterns.all fun p => (patterns p).isSome then
    return fun v => checkWith patterns places (patience places v) root v
  else none

/-- Without references and patterns, a document is compiled to what is read from it. -/
theorem compile_eq_some {draft : SchemaDraft} {patterns : PatternEngine} {doc : Value} {root : Schema}
    (hdraft : SchemaDraft.of? doc = some draft) (hroot : Schema.ofValue? draft doc = some root)
    (htargets : root.targets = []) (hpatterns : root.patterns = []) :
    compile patterns doc = some fun v => checkWith patterns [] (patience [] v) root v := by
  simp [compile, hdraft, hroot, htargets, hpatterns, gather, Dict.values]

end Schema

namespace SchemaEngine

/-- What the standard engine says of every schema that it does not compile. -/
def refusal : String := "not a schema"

/-- Schemas with patterns in plain notation. -/
def standard : SchemaEngine := fun doc => (Schema.compile .plain doc).elim (.error refusal) .ok

theorem standard_eq_ok_iff {doc : Value} {check : SchemaCheck} :
    standard doc = .ok check ↔ Schema.compile .plain doc = some check := by
  rw [standard]
  cases Schema.compile .plain doc <;> simp

theorem standard_eq_error_iff {doc : Value} {reason : String} :
    standard doc = .error reason ↔ Schema.compile .plain doc = none ∧ reason = refusal := by
  rw [standard]
  cases Schema.compile .plain doc <;> simp [eq_comm]

end SchemaEngine

end DocModel
