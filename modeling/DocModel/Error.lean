import DocModel.Issue
import DocModel.Output.Claim
import DocModel.Output.Location
import DocModel.Value.Reader
import DocModel.Value.Text

/-!
# Build errors

Everything that stops a build, by its cause, and the text of each. Unknown classes and parents are no
errors; they are issues of level `warn`.

No error is about a value that cannot be written as JSON: the paths in artifacts are those of a configuration and
what is made of them, which are texts, and issues hold the path of a source as it is shown.
-/

namespace DocModel

/-- What is wrong with a document, apart from its syntax. -/
inductive DocumentFault where
  | syntaxError (e : SyntaxError)
  | classNotObject
  | classWithoutName
  | instanceNotObject
  | badId
  deriving DecidableEq, Repr

namespace DocumentFault

def message : DocumentFault → String
  | syntaxError e => e.message
  | classNotObject => "class document must be an object"
  | classWithoutName => "class document requires a string `class` field"
  | instanceNotObject => "instance document must be an object"
  | badId => "`id` must be a non-empty string"

/-- The line and column of a fault that has a place. -/
def place? : DocumentFault → Option (Nat × Nat)
  | syntaxError e => some (e.line, e.column)
  | _ => none

end DocumentFault

/-- What is wrong with a `build` list. -/
inductive DirectiveFault where
  | notList
  | filenameNotString (template : String)
  | unsupported (entry : Value)
  deriving DecidableEq

namespace DirectiveFault

def message : DirectiveFault → String
  | notList => "`build` must be an array"
  | filenameNotString template => "build filename for `" ++ template ++ "` must be a string"
  | unsupported entry => "unsupported build entry: " ++ entry.compact

end DirectiveFault

/-- What is wrong with a merged model. -/
inductive MergeFault where
  | badClassReference (id : String) (found : Value)
  | badDirectives (id : String) (fault : DirectiveFault)
  | missingInstance (id : String)
  deriving DecidableEq

namespace MergeFault

def message : MergeFault → String
  | badClassReference id found => "instance `" ++ id ++ "` has non-string class " ++ found.compact
  | badDirectives id fault => "instance `" ++ id ++ "`: " ++ fault.message
  | missingInstance id => "planned instance `" ++ id ++ "` is missing"

end MergeFault

/-- Why a template does not compile or render, in the words of the engine. -/
inductive TemplateFault where
  | malformed (reason : String)
  | failed (reason : String)
  /-- A file is emitted without a name; `front` is what the engine puts before the reason. -/
  | emitWithoutFilename (front : String)
  deriving DecidableEq, Repr

namespace TemplateFault

def message : TemplateFault → String
  | malformed reason => reason
  | failed reason => reason
  | emitWithoutFilename front => front ++ "emit requires a filename as its first parameter"

end TemplateFault

/-- What is wrong with a configuration. -/
inductive ConfigFault where
  | fileMissing (path : Path)
  /-- A file without settings, in the words of what reads it. -/
  | unreadable (reason : String)
  | noRoots
  deriving DecidableEq, Repr

namespace ConfigFault

def message : ConfigFault → String
  | fileMissing path => "config file " ++ path.text ++ " not found"
  | unreadable reason => reason
  | noRoots => "at least one class root or instance root is required"

end ConfigFault

/-- Why a file or directory cannot be read or written. -/
inductive IoFault where
  | notFound
  | alreadyExists
  | notDirectory
  | isDirectory
  | nameTooLong
  | nulInName
  | notText
  deriving DecidableEq, Repr

namespace IoFault

def message : IoFault → String
  | notFound => "No such file or directory (os error 2)"
  | alreadyExists => "File exists (os error 17)"
  | notDirectory => "Not a directory (os error 20)"
  | isDirectory => "Is a directory (os error 21)"
  | nameTooLong => "File name too long (os error 36)"
  | nulInName => "file name contained an unexpected NUL byte"
  | notText => "stream did not contain valid UTF-8"

end IoFault

/-- What is wrong with a source directory. -/
inductive RootFault where
  | missing
  | notDirectory
  /-- A directory that the sources are looked for in cannot be listed. -/
  | unlisted (path : SourcePath) (fault : IoFault)
  deriving DecidableEq, Repr

namespace RootFault

def message : RootFault → String
  | missing => "does not exist"
  | notDirectory => "not a directory"
  | unlisted path fault => "IO error for operation on " ++ path.text ++ ": " ++ fault.message

end RootFault

inductive BuildError where
  | root (path : SourcePath) (fault : RootFault)
  | document (path : SourcePath) (fault : DocumentFault)
  | merge (fault : MergeFault)
  | classCycle (path : List String)
  | invalid (report : Report)
  | templateNotFound (reference : String)
  | template (key : String) (fault : TemplateFault)
  | location (template instanceId : String) (fault : LocationFault)
  | collision (collision : Collision)
  | config (fault : ConfigFault)
  | io (path : SourcePath) (fault : IoFault)
  deriving DecidableEq

namespace BuildError

def message : BuildError → String
  | root path fault => "Invalid source directory " ++ path.text ++ ": " ++ fault.message
  | document path fault =>
    match fault.place? with
    | some (line, column) =>
      "Parse error at " ++ path.text ++ ":" ++ toString line ++ ":" ++ toString column ++ ": "
        ++ fault.message
    | none => "Parse error in " ++ path.text ++ ": " ++ fault.message
  | merge fault => "Merge error: " ++ fault.message
  | classCycle path => "Class inheritance cycle: " ++ Text.join " -> " path
  | invalid report => "Validation failed with " ++ toString report.errorCount ++ " error(s)"
  | templateNotFound reference => "Template not found: " ++ reference
  | template key fault => "Template error in " ++ key ++ ": " ++ fault.message
  | location key instanceId fault =>
    "Invalid output path for template " ++ key ++ " (instance " ++ instanceId ++ "): " ++ fault.message
  | collision c => "Output collision: " ++ c.message
  | config fault => "Configuration error: " ++ fault.message
  | io path fault => "I/O error at " ++ path.text ++ ": " ++ fault.message

end BuildError

end DocModel
