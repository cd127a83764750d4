import DocModel.Value.Basic

/-!
# Reading a value from JSON text

`Value.read` accepts one JSON text, with blanks around it, and says of any other text what is wrong and
where: a line, counted from 1, and a column, counted in bytes of UTF-8 from the last line break. Lists and
maps nest at most 127 deep. Of two entries with one key the later one stays.

A number without fraction and exponent is an integer if it lies in `-2 ^ 63 ... 2 ^ 64 - 1`; every other
number is a double, and `-0` is one too. A double is made of a significand below `2 ^ 64`, to which further
digits add nothing, and one multiplication or division by a power of ten.
-/

namespace DocModel

/-- What is wrong with a text. -/
inductive SyntaxFault where
  | eofInValue | eofInList | eofInObject | eofInString
  | expectedColon | expectedListEnd | expectedObjectEnd | expectedIdent | expectedValue
  | invalidEscape | invalidNumber | numberOutOfRange | controlCharacter
  | keyNotString | loneSurrogate | unexpectedHexEnd
  | trailingComma | trailingCharacters | tooDeep
  deriving DecidableEq, Repr

namespace SyntaxFault

def message : SyntaxFault → String
  | eofInValue => "EOF while parsing a value"
  | eofInList => "EOF while parsing a list"
  | eofInObject => "EOF while parsing an object"
  | eofInString => "EOF while parsing a string"
  | expectedColon => "expected `:`"
  | expectedListEnd => "expected `,` or `]`"
  | expectedObjectEnd => "expected `,` or `\x7d`"
  | expectedIdent => "expected ident"
  | expectedValue => "expected value"
  | invalidEscape => "invalid escape"
  | invalidNumber => "invalid number"
  | numberOutOfRange => "number out of range"
  | controlCharacter => "control character (\\u0000-\\u001F) found while parsing a string"
  | keyNotString => "key must be a string"
  | loneSurrogate => "lone leading surrogate in hex escape"
  | unexpectedHexEnd => "unexpected end of hex escape"
  | trailingComma => "trailing comma"
  | trailingCharacters => "trailing characters"
  | tooDeep => "recursion limit exceeded"

end SyntaxFault

/-- A fault and its place. -/
structure SyntaxError where
  fault : SyntaxFault
  line : Nat
  column : Nat
  deriving DecidableEq, Repr

namespace SyntaxError

def message (e : SyntaxError) : String :=
  e.fault.message ++ " at line " ++ toString e.line ++ " column " ++ toString e.column

end SyntaxError

namespace Reader

/-- What is left of a text, and how many bytes of it are gone. -/
structure Cursor where
  rest : List Char
  offset : Nat

/-- A fault, and how many bytes come before its place. -/
structure Failure where
  fault : SyntaxFault
  offset : Nat

/-- A fault at the last byte that was read. -/
def fail {α : Type} (offset : Nat) (fault : SyntaxFault) : Except Failure α := .error ⟨fault, offset⟩

/-- A fault at the next byte, or at the end. -/
def failAhead {α : Type} (cur : Cursor) (fault : SyntaxFault) : Except Failure α :=
  .error ⟨fault, if cur.rest.isEmpty then cur.offset else cur.offset + 1⟩

def byteLength (cs : List Char) : Nat := cs.foldl (fun n c => n + c.utf8Size) 0

def isBlank (c : Char) : Bool := c = ' ' || c = '\n' || c = '\t' || c = '\r'

/-- Blanks are one byte each. -/
def skipBlank (cur : Cursor) : Cursor :=
  ⟨cur.rest.dropWhile isBlank, cur.offset + (cur.rest.takeWhile isBlank).length⟩

def isDigit (c : Char) : Bool := '0' ≤ c && c ≤ '9'

def digitValue (c : Char) : Nat := c.toNat - '0'.toNat

/-- The digits at the cursor. -/
def digits (cur : Cursor) : List Nat × Cursor :=
  let ds := cur.rest.takeWhile isDigit
  (ds.map digitValue, ⟨cur.rest.dropWhile isDigit, cur.offset + ds.length⟩)

/-! ## Numbers -/

/-- Appends digits to a significand as long as it stays below `2 ^ 64`: the significand, the number of
digits it took and the number it left. -/
def absorb (significand : Nat) : List Nat → Nat × Nat × Nat
  | [] => (significand, 0, 0)
  | d :: ds =>
    if significand * 10 + d < Nat.pow 2 64 then
      let (total, taken, left) := absorb (significand * 10 + d) ds
      (total, taken + 1, left)
    else (significand, 0, ds.length + 1)

def powerOfTen (n : Nat) : Double := Double.ofNat (Nat.pow 10 n)

/-- `significand · 10 ^ exponent` by one rounded multiplication or division, two if the exponent lies
below -308; nothing if it is too large for a double. -/
def scaled? (significand : Nat) (exponent : Int) : Option Double :=
  let f := Double.ofNat significand
  if 308 < exponent then
    if f.isZero then some f else none
  else if 0 ≤ exponent then
    let product := f.mul (powerOfTen exponent.toNat)
    if product.isFinite then some product else none
  else if -308 ≤ exponent then some (f.div (powerOfTen (-exponent).toNat))
  else if -616 ≤ exponent then
    some ((f.div (powerOfTen 308)).div (powerOfTen (-(exponent + 308)).toNat))
  else some Double.zero

def signed (negative : Bool) (d : Double) : Double := if negative then d.negate else d

def finishDouble (negative : Bool) (significand : Nat) (exponent : Int) (cur : Cursor) :
    Except Failure (Number × Cursor) :=
  match scaled? significand exponent with
  | some d => .ok (.double (signed negative d), cur)
  | none => fail cur.offset .numberOutOfRange

/-- The value of the digits of an exponent, as long as it stays below `2 ^ 31`; else the number of
digits up to the one that made it too large. -/
def exponentValue (value seen : Nat) : List Nat → Except Nat Nat
  | [] => .ok value
  | d :: ds =>
    if value * 10 + d < Nat.pow 2 31 then exponentValue (value * 10 + d) (seen + 1) ds
    else .error (seen + 1)

/-- After the `e` of an exponent. -/
def exponentPart (negative : Bool) (significand : Nat) (start : Int) (cur : Cursor) :
    Except Failure (Number × Cursor) :=
  let (up, cur) := match cur.rest with
    | '+' :: rest => (true, (⟨rest, cur.offset + 1⟩ : Cursor))
    | '-' :: rest => (false, ⟨rest, cur.offset + 1⟩)
    | _ => (true, cur)
  let (ds, after) := digits cur
  match cur.rest with
  | [] => fail cur.offset .eofInValue
  | _ :: _ =>
    if ds.isEmpty then fail (cur.offset + 1) .invalidNumber
    else match exponentValue 0 0 ds with
      | .ok e => finishDouble negative significand (if up then start + e else start - e) after
      | .error seen =>
        if significand ≠ 0 && up then fail (cur.offset + seen) .numberOutOfRange
        else .ok (.double (signed negative Double.zero), after)

/-- After the point of a fraction. -/
def fractionPart (negative : Bool) (significand : Nat) (start : Int) (cur : Cursor) :
    Except Failure (Number × Cursor) :=
  let (ds, after) := digits cur
  if ds.isEmpty then
    failAhead cur (if cur.rest.isEmpty then .eofInValue else .invalidNumber)
  else
    let (significand, taken, _) := absorb significand ds
    match after.rest with
    | 'e' :: rest => exponentPart negative significand (start - taken) ⟨rest, after.offset + 1⟩
    | 'E' :: rest => exponentPart negative significand (start - taken) ⟨rest, after.offset + 1⟩
    | _ => finishDouble negative significand (start - taken) after

/-- The integer of a significand if it is in range, else the nearest double. -/
def wholeNumber (negative : Bool) (significand : Nat) : Number :=
  if negative then
    if significand ≠ 0 && significand ≤ Nat.pow 2 63 then .int (-(significand : Int))
    else .double (Double.ofNat significand).negate
  else .int significand

/-- After the whole part of a number, `left` of whose digits are not in the significand. -/
def afterWhole (negative : Bool) (significand left : Nat) (cur : Cursor) :
    Except Failure (Number × Cursor) :=
  match cur.rest with
  | '.' :: rest => fractionPart negative significand left ⟨rest, cur.offset + 1⟩
  | 'e' :: rest => exponentPart negative significand left ⟨rest, cur.offset + 1⟩
  | 'E' :: rest => exponentPart negative significand left ⟨rest, cur.offset + 1⟩
  | _ =>
    if left = 0 then .ok (wholeNumber negative significand, cur)
    else finishDouble negative significand left cur

/-- A number after its sign. -/
def number (negative : Bool) (cur : Cursor) : Except Failure (Number × Cursor) :=
  let (ds, after) := digits cur
  match cur.rest, ds with
  | [], _ => fail cur.offset .eofInValue
  | _, [] => fail (cur.offset + 1) .invalidNumber
  | _, 0 :: [] => afterWhole negative 0 0 after
  | _, 0 :: _ :: _ => fail (cur.offset + 2) .invalidNumber
  | _, ds =>
    let (significand, _, left) := absorb 0 ds
    afterWhole negative significand left after

/-! ## Strings -/

def hexValue? (c : Char) : Option Nat :=
  if '0' ≤ c && c ≤ '9' then some (c.toNat - '0'.toNat)
  else if 'a' ≤ c && c ≤ 'f' then some (c.toNat - 'a'.toNat + 10)
  else if 'A' ≤ c && c ≤ 'F' then some (c.toNat - 'A'.toNat + 10)
  else none

def hexWord? (a b c d : Char) : Option Nat := do
  return (((← hexValue? a) * 16 + (← hexValue? b)) * 16 + (← hexValue? c)) * 16 + (← hexValue? d)

/-- The fault of a `\u` that four hex digits do not follow. -/
def hexFault {α : Type} (rest : List Char) (offset : Nat) : Except Failure α :=
  if 4 ≤ byteLength rest then fail (offset + 4) .invalidEscape
  else fail (offset + byteLength rest) .eofInString

def simpleEscape? (c : Char) : Option Char :=
  match c with
  | '"' => some '"'
  | '\\' => some '\\'
  | '/' => some '/'
  | 'b' => some '\x08'
  | 'f' => some '\x0c'
  | 'n' => some '\n'
  | 'r' => some '\r'
  | 't' => some '\t'
  | _ => none

def isLeading (n : Nat) : Bool := 0xD800 ≤ n && n < 0xDC00

def isTrailing (n : Nat) : Bool := 0xDC00 ≤ n && n < 0xE000

/-- The rest of a string after its opening quote; `done` holds what was read, last character first. -/
def stringBody : List Char → Nat → List Char → Except Failure (String × Cursor)
  | [], offset, _ => fail offset .eofInString
  | '"' :: rest, offset, done => .ok (String.ofList done.reverse, ⟨rest, offset + 1⟩)
  | '\\' :: 'u' :: a :: b :: c :: d :: rest, offset, done =>
    match hexWord? a b c d with
    | none => hexFault (a :: b :: c :: d :: rest) (offset + 2)
    | some n =>
      if isTrailing n then fail (offset + 6) .loneSurrogate
      else if isLeading n then
        match rest with
        | '\\' :: 'u' :: a' :: b' :: c' :: d' :: rest' =>
          match hexWord? a' b' c' d' with
          | none => hexFault (a' :: b' :: c' :: d' :: rest') (offset + 8)
          | some m =>
            if isTrailing m then
              let point := (n - 0xD800) * 0x400 + (m - 0xDC00) + 0x10000
              stringBody rest' (offset + 12) (Char.ofNat point :: done)
            else fail (offset + 12) .loneSurrogate
        | '\\' :: 'u' :: short => hexFault short (offset + 8)
        | '\\' :: _ :: _ => fail (offset + 8) .unexpectedHexEnd
        | ['\\'] => fail (offset + 7) .eofInString
        | _ :: _ => fail (offset + 7) .unexpectedHexEnd
        | [] => fail (offset + 6) .eofInString
      else stringBody rest (offset + 6) (Char.ofNat n :: done)
  | '\\' :: 'u' :: short, offset, _ => hexFault short (offset + 2)
  | '\\' :: c :: rest, offset, done =>
    match simpleEscape? c with
    | some e => stringBody rest (offset + 2) (e :: done)
    | none => fail (offset + 2) .invalidEscape
  | ['\\'], offset, _ => fail (offset + 1) .eofInString
  | c :: rest, offset, done =>
    if c.toNat < 0x20 then fail (offset + 1) .controlCharacter
    else stringBody rest (offset + c.utf8Size) (c :: done)

/-! ## Values -/

abbrev ValueReader := Cursor → Except Failure (Value × Cursor)

/-- The rest of a word whose first letter is read. -/
def word (value : Value) : List Char → Cursor → Except Failure (Value × Cursor)
  | [], cur => .ok (value, cur)
  | w :: ws, cur =>
    match cur.rest with
    | [] => fail cur.offset .eofInValue
    | c :: rest =>
      if c = w then word value ws ⟨rest, cur.offset + 1⟩
      else fail (cur.offset + 1) .expectedIdent

/-- The elements of a list up to its end; `fuel` exceeds the number of characters left. -/
def elements (element : ValueReader) :
    Nat → Bool → Cursor → List Value → Except Failure (Value × Cursor)
  | 0, _, cur, _ => failAhead cur .eofInList
  | fuel + 1, first, cur, done =>
    let cur := skipBlank cur
    let next (cur : Cursor) : Except Failure (Value × Cursor) := do
      let (v, cur) ← element cur
      elements element fuel false cur (v :: done)
    match cur.rest with
    | [] => failAhead cur .eofInList
    | ']' :: rest => .ok (.list done.reverse, ⟨rest, cur.offset + 1⟩)
    | c :: rest =>
      if first then next cur
      else if c = ',' then
        let cur := skipBlank ⟨rest, cur.offset + 1⟩
        match cur.rest with
        | [] => failAhead cur .eofInValue
        | ']' :: _ => failAhead cur .trailingComma
        | _ :: _ => next cur
      else failAhead cur .expectedListEnd

/-- One `"key": value` entry. -/
def entry (element : ValueReader) (cur : Cursor) : Except Failure ((String × Value) × Cursor) := do
  let (key, cur) ← stringBody (cur.rest.drop 1) (cur.offset + 1) []
  let cur := skipBlank cur
  match cur.rest with
  | [] => failAhead cur .eofInObject
  | ':' :: rest =>
    let (value, cur) ← element ⟨rest, cur.offset + 1⟩
    return ((key, value), cur)
  | _ :: _ => failAhead cur .expectedColon

/-- The entries of a map up to its end; `fuel` exceeds the number of characters left. -/
def entries (element : ValueReader) :
    Nat → Bool → Cursor → Fields → Except Failure (Value × Cursor)
  | 0, _, cur, _ => failAhead cur .eofInObject
  | fuel + 1, first, cur, done =>
    let cur := skipBlank cur
    let next (cur : Cursor) : Except Failure (Value × Cursor) := do
      let ((key, value), cur) ← entry element cur
      entries element fuel false cur (Dict.insert done key value)
    match cur.rest with
    | [] => failAhead cur .eofInObject
    | '}' :: rest => .ok (.map done, ⟨rest, cur.offset + 1⟩)
    | c :: rest =>
      if first then
        if c = '"' then next cur else failAhead cur .keyNotString
      else if c = ',' then
        let cur := skipBlank ⟨rest, cur.offset + 1⟩
        match cur.rest with
        | [] => failAhead cur .eofInValue
        | '"' :: _ => next cur
        | '}' :: _ => failAhead cur .trailingComma
        | _ :: _ => failAhead cur .keyNotString
      else failAhead cur .expectedObjectEnd

/-- A value that neither is a list nor a map. -/
def scalar (c : Char) (rest : List Char) (cur : Cursor) : Except Failure (Value × Cursor) :=
  let after : Cursor := ⟨rest, cur.offset + 1⟩
  match c with
  | 'n' => word .null ['u', 'l', 'l'] after
  | 't' => word (.bool true) ['r', 'u', 'e'] after
  | 'f' => word (.bool false) ['a', 'l', 's', 'e'] after
  | '-' => do
    let (n, cur) ← number true after
    return (.number n, cur)
  | '"' => do
    let (s, cur) ← stringBody rest (cur.offset + 1) []
    return (.string s, cur)
  | c =>
    if isDigit c then do
      let (n, cur) ← number false cur
      return (.number n, cur)
    else failAhead cur .expectedValue

/-- A value inside which lists and maps may nest `depth` deep. -/
def value : Nat → ValueReader
  | 0, cur =>
    let cur := skipBlank cur
    match cur.rest with
    | [] => failAhead cur .eofInValue
    | c :: rest => if c = '[' || c = '{' then failAhead cur .tooDeep else scalar c rest cur
  | depth + 1, cur =>
    let cur := skipBlank cur
    match cur.rest with
    | [] => failAhead cur .eofInValue
    | '[' :: rest => elements (value depth) (rest.length + 1) true ⟨rest, cur.offset + 1⟩ []
    | '{' :: rest => entries (value depth) (rest.length + 1) true ⟨rest, cur.offset + 1⟩ []
    | c :: rest => scalar c rest cur

/-- The deepest nesting that is read. -/
def maxDepth : Nat := 127

/-- One value and nothing after it. -/
def document (text : String) : Except Failure Value := do
  let (v, cur) ← value maxDepth ⟨text.toList, 0⟩
  let cur := skipBlank cur
  if cur.rest.isEmpty then return v else failAhead cur .trailingCharacters

/-- The line and column after this many bytes of a text. -/
def place (text : String) (offset : Nat) : Nat × Nat :=
  let before := text.toUTF8.toList.take offset
  (1 + before.count 10, (before.reverse.takeWhile (· ≠ 10)).length)

end Reader

/-- Reads a value from JSON text. -/
def Value.read (text : String) : Except SyntaxError Value :=
  match Reader.document text with
  | .ok v => .ok v
  | .error e =>
    let (line, column) := Reader.place text e.offset
    .error ⟨e.fault, line, column⟩

end DocModel
