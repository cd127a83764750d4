import DocModel.Path
import DocModel.Value.Basic

/-!
# Decoding values

A decoder turns a value into something of a type of its own, or says what does not fit. A *record* is
decoded from a map, whose known fields are read in the order of the map's keys, or from a list of its fields
in the order of the record. Fields that the record does not know are passed over.
-/

namespace DocModel

/-- Why a value does not fit. -/
inductive DecodeFault where
  | wrongType (found : Value) (expected : String)
  | wrongLength (length : Nat) (expected : String)
  | missingField (name : String)
  | unknownVariant (found : String) (choices : List String)
  | notSingleEntry
  deriving DecidableEq

namespace DecodeFault

/-- A character of a quoted text. -/
def quoteChar (c : Char) : List Char :=
  if c = '"' then ['\\', '"']
  else if c = '\\' then ['\\', '\\']
  else if c = '\n' then ['\\', 'n']
  else if c = '\r' then ['\\', 'r']
  else if c = '\t' then ['\\', 't']
  else if c.toNat = 0 then ['\\', '0']
  else if c.toNat < 0x20 || (0x7f ≤ c.toNat && c.toNat < 0xa0) then
    ['\\', 'u', '\x7b'] ++ Nat.toDigits 16 c.toNat ++ ['\x7d']
  else [c]

def quote (s : String) : String := "\"" ++ String.ofList (s.toList.flatMap quoteChar) ++ "\""

/-- What a value is called in a message. -/
def describe : Value → String
  | .null => "null"
  | .bool b => "boolean `" ++ (if b then "true" else "false") ++ "`"
  | .number (.int n) => "integer `" ++ toString n ++ "`"
  | .number (.double d) => "floating point `" ++ d.toText ++ "`"
  | .string s => "string " ++ quote s
  | .list _ => "sequence"
  | .map _ => "map"

def choicesText (choices : List String) : String :=
  Text.join " or " (choices.map fun choice => "`" ++ choice ++ "`")

def message : DecodeFault → String
  | wrongType found expected => "invalid type: " ++ describe found ++ ", expected " ++ expected
  | wrongLength length expected => "invalid length " ++ toString length ++ ", expected " ++ expected
  | missingField name => "missing field `" ++ name ++ "`"
  | unknownVariant found choices =>
    "unknown variant `" ++ found ++ "`, expected " ++ choicesText choices
  | notSingleEntry => "invalid value: map, expected map with a single key"

end DecodeFault

abbrev Decoder (α : Type) := Value → Except DecodeFault α

namespace Decoder

variable {α β : Type}

def bool : Decoder Bool
  | .bool b => .ok b
  | v => .error (.wrongType v "a boolean")

def string : Decoder String
  | .string s => .ok s
  | v => .error (.wrongType v "a string")

def path : Decoder Path
  | .string s => .ok ⟨s⟩
  | v => .error (.wrongType v "path string")

/-- Nothing for null. -/
def optional (decode : Decoder α) : Decoder (Option α)
  | .null => .ok none
  | v => (decode v).map some

def list (decode : Decoder α) : Decoder (List α)
  | .list items => items.mapM decode
  | v => .error (.wrongType v "a sequence")

/-- One of some choices by its name, alone or as the only key of a map with null. -/
def choice (choices : List (String × α)) : Decoder α
  | .string name => pick name
  | .map [(name, v)] => do
    let found ← pick name
    match v with
    | .null => return found
    | v => throw (.wrongType v "unit")
  | .map _ => .error .notSingleEntry
  | v => .error (.wrongType v "string or map")
where
  pick (name : String) : Except DecodeFault α :=
    match choices.find? fun choice => choice.1 = name with
    | some (_, found) => .ok found
    | none => .error (.unknownVariant name (choices.map Prod.fst))

end Decoder

/-- A field of a record: its name, how its value goes into the record, and whether it can be absent. -/
structure RecordField (α : Type) where
  name : String
  read : α → Value → Except DecodeFault α
  required : Bool := false

namespace RecordField

variable {α β : Type}

/-- A field that a decoder reads. -/
def of (name : String) (decode : Decoder β) (set : α → β → α) : RecordField α where
  name := name
  read record v := (decode v).map (set record)

/-- The same field, which must be there. -/
def mandatory (field : RecordField α) : RecordField α := { field with required := true }

end RecordField

/-- How a record is decoded; `start` has the values of absent fields. -/
structure RecordFormat (α : Type) where
  name : String
  start : α
  fields : List (RecordField α)

namespace RecordFormat

variable {α : Type}

/-- What is expected in place of something else. -/
def expected (format : RecordFormat α) : String := "struct " ++ format.name

def expectedFields (format : RecordFormat α) : String :=
  format.expected ++ " with " ++ toString format.fields.length
    ++ if format.fields.length = 1 then " element" else " elements"

def readEntry (format : RecordFormat α) (record : α) (entry : String × Value) :
    Except DecodeFault α :=
  match format.fields.find? fun field => field.name = entry.1 with
  | some field => field.read record entry.2
  | none => .ok record

/-- The first field that is required and absent. -/
def absent? (format : RecordFormat α) (entries : Fields) : Option (RecordField α) :=
  format.fields.find? fun field => field.required && !Dict.contains entries field.name

/-- Reads fields from items, `index` of which came before. -/
def readItems (format : RecordFormat α) (record : α) (index : Nat) :
    List (RecordField α) → List Value → Except DecodeFault α
  | [], [] => .ok record
  | [], items => .error (.wrongLength (index + items.length) "fewer elements in array")
  | field :: fields, [] =>
    if field.required then .error (.wrongLength index format.expectedFields)
    else readItems format record (index + 1) fields []
  | field :: fields, item :: items => do
    readItems format (← field.read record item) (index + 1) fields items

def decode (format : RecordFormat α) : Decoder α
  | .map entries => do
    let record ← entries.foldlM format.readEntry format.start
    match format.absent? entries with
    | some field => throw (.missingField field.name)
    | none => return record
  | .list items => format.readItems format.start 0 format.fields items
  | v => .error (.wrongType v format.expected)

end RecordFormat

end DocModel
