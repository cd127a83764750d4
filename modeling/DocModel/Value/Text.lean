import DocModel.Value.Basic

/-!
# The text of a value

Two written forms of one value: `compact` without any blank, and `pretty` with two blanks of indentation
a level. Text outside ASCII stands as it is; a quote, a backslash and the control characters below
`U+0020` are escaped.
-/

namespace DocModel

namespace Value

def hexDigit (n : Nat) : Char := (Nat.digitChar n)

/-- What a character of a string is written as. -/
def escapeChar (c : Char) : List Char :=
  if c = '"' then ['\\', '"']
  else if c = '\\' then ['\\', '\\']
  else if c.toNat < 0x20 then
    match c.toNat with
    | 8 => ['\\', 'b']
    | 9 => ['\\', 't']
    | 10 => ['\\', 'n']
    | 12 => ['\\', 'f']
    | 13 => ['\\', 'r']
    | n => ['\\', 'u', '0', '0', hexDigit (n / 16), hexDigit (n % 16)]
  else [c]

/-- A string in quotes. -/
def quoteChars (s : String) : List Char := '"' :: (s.toList.flatMap escapeChar ++ ['"'])

def intChars (n : Int) : List Char := (toString n).toList

def numberChars : Number → List Char
  | .int n => intChars n
  | .double d => d.toText.toList

/-- The form of a value that holds no other value. -/
def scalarChars : Value → List Char
  | null => ['n', 'u', 'l', 'l']
  | bool true => ['t', 'r', 'u', 'e']
  | bool false => ['f', 'a', 'l', 's', 'e']
  | number n => numberChars n
  | string s => quoteChars s
  | list _ => []
  | map _ => []

mutual

/-- The compact form as characters. -/
def compactChars : Value → List Char
  | list items => '[' :: (compactItems items ++ [']'])
  | map entries => '{' :: (compactEntries entries ++ ['}'])
  | null => scalarChars null
  | bool b => scalarChars (bool b)
  | number n => scalarChars (number n)
  | string s => scalarChars (string s)

def compactItems : List Value → List Char
  | [] => []
  | [x] => compactChars x
  | x :: y :: rest => compactChars x ++ ',' :: compactItems (y :: rest)

def compactEntries : List (String × Value) → List Char
  | [] => []
  | [(k, v)] => quoteChars k ++ ':' :: compactChars v
  | (k, v) :: e :: rest => quoteChars k ++ ':' :: (compactChars v ++ ',' :: compactEntries (e :: rest))

end

/-- The text without blanks. -/
def compact (v : Value) : String := String.ofList (compactChars v)

/-- A line break and the indentation of a level. -/
def lineBreak (level : Nat) : List Char := '\n' :: List.replicate (2 * level) ' '

mutual

/-- The indented form, inside `level` lists and maps. -/
def prettyChars (level : Nat) : Value → List Char
  | list [] => ['[', ']']
  | list (x :: xs) =>
    '[' :: (lineBreak (level + 1) ++ prettyItems (level + 1) (x :: xs) ++ lineBreak level ++ [']'])
  | map [] => ['{', '}']
  | map (e :: es) =>
    '{' :: (lineBreak (level + 1) ++ prettyEntries (level + 1) (e :: es) ++ lineBreak level ++ ['}'])
  | null => scalarChars null
  | bool b => scalarChars (bool b)
  | number n => scalarChars (number n)
  | string s => scalarChars (string s)

def prettyItems (level : Nat) : List Value → List Char
  | [] => []
  | [x] => prettyChars level x
  | x :: y :: rest => prettyChars level x ++ ',' :: (lineBreak level ++ prettyItems level (y :: rest))

def prettyEntries (level : Nat) : List (String × Value) → List Char
  | [] => []
  | [(k, v)] => quoteChars k ++ ':' :: ' ' :: prettyChars level v
  | (k, v) :: e :: rest =>
    quoteChars k ++ ':' :: ' ' ::
      (prettyChars level v ++ ',' :: (lineBreak level ++ prettyEntries level (e :: rest)))

end

/-- The text with one entry a line. -/
def pretty (v : Value) : String := String.ofList (prettyChars 0 v)

end Value

end DocModel
