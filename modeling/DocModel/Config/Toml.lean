import DocModel.Config.Scalar
import DocModel.Text.Split

/-!
# Reading TOML

Plain TOML: comments, tables, lists of tables, dotted keys, strings of one line, numbers, booleans, lists and
inline tables. A key that is set twice is an error. The text is cut into tokens first; line breaks are tokens
because they end entries.
-/

namespace DocModel

inductive TomlToken where
  | newline
  /-- One of `= [ ] { } ,`. -/
  | mark (c : Char)
  /-- A bare key, a number or another word. -/
  | word (cs : List Char)
  | text (s : String)
  deriving DecidableEq

namespace Toml

def isMark (c : Char) : Bool := ['=', '[', ']', '\x7b', '\x7d', ','].contains c

def isWordChar (c : Char) : Bool := c.isAlphanum || ['_', '-', '+', '.', ':'].contains c

/-- The tokens of a text; `fuel` exceeds its length. -/
def tokens? : Nat → List Char → Option (List TomlToken)
  | 0, _ => none
  | _, [] => some []
  | fuel + 1, c :: rest =>
    if c = ' ' || c = '\t' || c = '\r' then tokens? fuel rest
    else if c = '\n' then do return .newline :: (← tokens? fuel rest)
    else if c = '#' then tokens? fuel (rest.dropWhile (· ≠ '\n'))
    else if isMark c then do return .mark c :: (← tokens? fuel rest)
    else if c = '"' then
      match Reader.stringBody rest 0 [] with
      | .ok (s, cur) => do return .text s :: (← tokens? fuel cur.rest)
      | .error _ => none
    else if c = '\'' then
      let body := rest.takeWhile fun d => d ≠ '\'' && d ≠ '\n'
      match rest.drop body.length with
      | '\'' :: rest => do return .text (String.ofList body) :: (← tokens? fuel rest)
      | _ => none
    else if isWordChar c then do
      let word := c :: rest.takeWhile isWordChar
      return .word word :: (← tokens? fuel (rest.dropWhile isWordChar))
    else none

/-- Whether digits have no zero in front of others. -/
def isCanonical (cs : List Char) : Bool :=
  match cs.dropWhile fun c => c = '+' || c = '-' with
  | '0' :: c :: _ => !Reader.isDigit c
  | _ => true

/-- The value of a word: a boolean, a number, or a date, which is kept as a text. -/
def scalar? (word : List Char) : Option Value :=
  if word = "true".toList then some (.bool true)
  else if word = "false".toList then some (.bool false)
  else
    let digits := word.filter (· ≠ '_')
    match PlainNumber.ofChars? digits with
    | some n => if isCanonical digits then some (.number n) else none
    | none =>
      if (word.take 2).all Reader.isDigit && word.any (fun c => c = '-' || c = ':') then
        some (.string (String.ofList word))
      else none

/-- The parts of a key. -/
def keyParts? : TomlToken → Option (List String)
  | .text s => some [s]
  | .word cs =>
    let parts := (Text.splitChars '.' cs).map String.ofList
    if parts.any (· = "") then none else some parts
  | _ => none

/-- Sets a value under a key of several parts, if it is not set yet. -/
def setNew? (fields : Fields) : List String → Value → Option Fields
  | [], _ => none
  | [key], v => if Dict.contains fields key then none else some (Dict.insert fields key v)
  | key :: rest, v =>
    match Dict.get? fields key with
    | none => do return Dict.insert fields key (.map (← setNew? [] rest v))
    | some (.map inner) => do return Dict.insert fields key (.map (← setNew? inner rest v))
    | some _ => none

def skipNewlines (ts : List TomlToken) : List TomlToken := ts.dropWhile (· = .newline)

mutual

/-- A value and the tokens after it. -/
def value? : Nat → List TomlToken → Option (Value × List TomlToken)
  | 0, _ => none
  | _, [] => none
  | _, .text s :: rest => some (.string s, rest)
  | _, .word w :: rest => do return (← scalar? w, rest)
  | fuel + 1, .mark '[' :: rest => items? fuel rest []
  | fuel + 1, .mark '\x7b' :: rest => fields? fuel rest []
  | _, _ => none

/-- The rest of a list. -/
def items? : Nat → List TomlToken → List Value → Option (Value × List TomlToken)
  | 0, _, _ => none
  | fuel + 1, ts, done =>
    match skipNewlines ts with
    | .mark ']' :: rest => some (.list done.reverse, rest)
    | ts => do
      let (v, ts) ← value? fuel ts
      match skipNewlines ts with
      | .mark ',' :: rest => items? fuel rest (v :: done)
      | .mark ']' :: rest => some (.list (v :: done).reverse, rest)
      | _ => none

/-- The rest of an inline table. -/
def fields? : Nat → List TomlToken → Fields → Option (Value × List TomlToken)
  | 0, _, _ => none
  | _, .mark '\x7d' :: rest, done => some (.map done, rest)
  | fuel + 1, key :: .mark '=' :: ts, done => do
    let (v, ts) ← value? fuel ts
    let done ← setNew? done (← keyParts? key) v
    match ts with
    | .mark ',' :: rest => fields? fuel rest done
    | .mark '\x7d' :: rest => some (.map done, rest)
    | _ => none
  | _, _, _ => none

end

/-- A table of a document: where it is, whether it is one of a list, and its fields. -/
structure Section where
  path : List String := []
  listed : Bool := false
  fields : Fields := []

/-- Whether an entry ends here. -/
def atLineEnd : List TomlToken → Bool
  | [] => true
  | t :: _ => t = .newline

/-- The tables of a document, the one before the first header included; `done` has the earlier ones, last
one first. -/
def sections? : Nat → List TomlToken → Section → List Section → Option (List Section)
  | 0, _, _, _ => none
  | _, [], current, done => some (current :: done).reverse
  | fuel + 1, .newline :: rest, current, done => sections? fuel rest current done
  | fuel + 1, .mark '[' :: .mark '[' :: key :: .mark ']' :: .mark ']' :: rest, current, done => do
    let path ← keyParts? key
    if atLineEnd rest then sections? fuel rest { path, listed := true } (current :: done) else none
  | fuel + 1, .mark '[' :: key :: .mark ']' :: rest, current, done => do
    let path ← keyParts? key
    if atLineEnd rest then sections? fuel rest { path } (current :: done) else none
  | fuel + 1, key :: .mark '=' :: rest, current, done => do
    let (v, rest) ← value? fuel rest
    let fields ← setNew? current.fields (← keyParts? key) v
    if atLineEnd rest then sections? fuel rest { current with fields } done else none
  | _, _, _, _ => none

/-- Adds the fields of a table to those that are set already. -/
def mergeNew? (fields new : Fields) : Option Fields :=
  new.foldlM (fun fields entry => setNew? fields [entry.1] entry.2) fields

/-- Puts a table in its place. -/
def addSection? (fields : Fields) (listed : Bool) (table : Fields) : List String → Option Fields
  | [] => mergeNew? fields table
  | [key] =>
    match listed, Dict.get? fields key with
    | false, none => some (Dict.insert fields key (.map table))
    | false, some (.map inner) => do return Dict.insert fields key (.map (← mergeNew? inner table))
    | true, none => some (Dict.insert fields key (.list [.map table]))
    | true, some (.list items) => some (Dict.insert fields key (.list (items ++ [.map table])))
    | _, _ => none
  | key :: rest =>
    match Dict.get? fields key with
    | none => do return Dict.insert fields key (.map (← addSection? [] listed table rest))
    | some (.map inner) => do
      return Dict.insert fields key (.map (← addSection? inner listed table rest))
    | some _ => none

/-- The headers of the tables that are not in lists. -/
def headers (sections : List Section) : List (List String) :=
  (sections.filter fun s => !s.listed).map Section.path

/-- The fields of a document. -/
def read? (text : String) : Option Fields := do
  let ts ← tokens? (text.toList.length + 1) text.toList
  let sections ← sections? (ts.length + 1) ts {} []
  if !decide (headers sections).Nodup then none
  sections.foldlM (fun fields s => addSection? fields s.listed s.fields s.path) []

end Toml

end DocModel
