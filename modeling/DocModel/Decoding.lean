import DocModel.Validation
import DocModel.Value.Decoder

/-!
# Reports and options as values

How issues, reports and validation options are read back from values.
-/

namespace DocModel

namespace Level

def decode : Decoder Level := Decoder.choice [(warn.text, warn), (error.text, error)]

end Level

namespace Issue

def format : RecordFormat Issue where
  name := "ValidationIssue"
  start := { level := .warn, message := "", code := "" }
  fields :=
    [(RecordField.of "level" Level.decode fun r v => { r with level := v }).mandatory,
      (RecordField.of "message" Decoder.string fun r v => { r with message := v }).mandatory,
      (RecordField.of "code" Decoder.string fun r v => { r with code := v }).mandatory,
      .of "class" (Decoder.optional Decoder.string) fun r v => { r with className := v },
      .of "instance" (Decoder.optional Decoder.string) fun r v => { r with instanceId := v },
      .of "instances" (Decoder.list Decoder.string) fun r v => { r with instances := v },
      .of "keyword" (Decoder.optional Decoder.string) fun r v => { r with keyword := v },
      .of "path" (Decoder.optional Decoder.string) fun r v => { r with path := v },
      .of "file" (Decoder.optional Decoder.string) fun r v => { r with file := v }]

end Issue

namespace Report

def format : RecordFormat Report where
  name := "ValidationReport"
  start := {}
  fields :=
    [(RecordField.of "issues" (Decoder.list Issue.format.decode) fun r v => { r with issues := v }).mandatory]

end Report

namespace ValidationOptions

def format : RecordFormat ValidationOptions where
  name := "ValidationOptions"
  start := {}
  fields :=
    [.of "strict" Decoder.bool fun r v => { r with strict := v },
      .of "reportExtraFields" Decoder.bool fun r v => { r with reportExtraFields := v }]

def toValue (o : ValidationOptions) : Value :=
  .ofFields [("strict", .bool o.strict), ("reportExtraFields", .bool o.reportExtraFields)]

end ValidationOptions

end DocModel
