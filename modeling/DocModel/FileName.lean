import DocModel.Text.Split
import DocModel.Text.Utf8

/-!
# File names

A file system takes any bytes for a name. A name is a text where its bytes are the UTF-8 form of one; the bytes
of other names are kept as they are. Names come in the order of their bytes.
-/

namespace DocModel

/-- Bytes that are the UTF-8 form of no text. -/
structure RawName where
  bytes : List UInt8
  not_text (s : String) : Text.bytes s ≠ bytes
  deriving DecidableEq, Repr

inductive FileName where
  | text (s : String)
  | raw (name : RawName)
  deriving DecidableEq, Repr

namespace FileName

instance : Coe String FileName := ⟨text⟩

/-- The text that a name is, if it is one. -/
def text? : FileName → Option String
  | text s => some s
  | raw _ => none

def bytes : FileName → List UInt8
  | text s => Text.bytes s
  | raw name => name.bytes

/-- The number of bytes. -/
def size : FileName → Nat
  | text s => s.utf8ByteSize
  | raw name => name.bytes.length

/-- The text that a name is shown as. -/
def shown : FileName → String
  | text s => s
  | raw name => Text.lossy name.bytes

/-- The order of names; the order of texts is that of their bytes. -/
def before : FileName → FileName → Bool
  | text s, text t => s < t
  | a, b => a.bytes < b.bytes

instance : LT FileName := ⟨fun a b => a.before b = true⟩

instance : DecidableLT FileName := fun a b => inferInstanceAs (Decidable (a.before b = true))

/-! ## Extensions -/

/-- What follows the last dot of a text, unless that dot opens the text. -/
def textExtension? (name : String) : Option String :=
  match Text.splitLast? '.' name with
  | some (stem, ext) => if stem = "" then none else some ext
  | none => none

/-- What follows the last dot in bytes. -/
def afterDot? : List UInt8 → Option (List UInt8)
  | [] => none
  | b :: rest => (afterDot? rest).or (if b = 0x2E then some rest else none)

/-- Whether what follows the last dot of a name is this text; a dot that opens the name does not count. -/
def hasExtension (extension : String) : FileName → Bool
  | text s => textExtension? s = some extension
  | raw name => afterDot? name.bytes.tail = some (Text.bytes extension)

end FileName

end DocModel
