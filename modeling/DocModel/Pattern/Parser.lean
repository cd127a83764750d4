import DocModel.Pattern.CharSets

/-!
# Reading patterns

Patterns in their usual notation. A `Dialect` says which characters `\d`, `\s` and `\w` mean and whether
looking ahead and behind is allowed. What is not understood is no pattern.
-/

namespace DocModel

namespace Pattern

/-- What differs between notations. -/
structure Dialect where
  digits : List (Nat × Nat)
  spaces : List (Nat × Nat)
  words : List (Nat × Nat)
  looksAround : Bool

namespace Dialect

/-- Classes are those of Unicode, and nothing looks around. -/
def unicode : Dialect := ⟨CharSet.decimalRanges, CharSet.spaceRanges, CharSet.wordRanges, false⟩

/-- Classes are those of plain text, and patterns may look around. -/
def plain : Dialect := ⟨CharSet.plainDigitRanges, CharSet.plainSpaceRanges, CharSet.plainWordRanges, true⟩

end Dialect

namespace Parser

/-- Every character but a line break. -/
def anyButBreak : CharSet := { negated := true, items := [.range 10 10] }

def single (c : Char) : CharSet := { items := [.range c.toNat c.toNat] }

def hexDigit? (c : Char) : Option Nat :=
  if '0' ≤ c && c ≤ '9' then some (c.toNat - '0'.toNat)
  else if 'a' ≤ c && c ≤ 'f' then some (c.toNat - 'a'.toNat + 10)
  else if 'A' ≤ c && c ≤ 'F' then some (c.toNat - 'A'.toNat + 10)
  else none

def hexNumber? (cs : List Char) : Option Nat :=
  if cs.isEmpty then none
  else cs.foldlM (fun n c => (hexDigit? c).map (n * 16 + ·)) 0

/-- The character of a code point that is one. -/
def charOf? (n : Nat) : Option Char :=
  if n < 0xD800 || (0xDFFF < n && n < 0x110000) then some (Char.ofNat n) else none

/-- A code point in hex: `size` digits, or any number of them in braces. -/
def codePoint (size : Nat) : List Char → Option (Char × List Char)
  | '{' :: rest => do
    let digits := rest.takeWhile (· ≠ '}')
    match rest.dropWhile (· ≠ '}') with
    | _ :: rest => return (← charOf? (← hexNumber? digits), rest)
    | [] => none
  | rest => do
    if rest.length < size then none
    else return (← charOf? (← hexNumber? (rest.take size)), rest.drop size)

/-- Characters that stand for themselves after a backslash. -/
def isPunctuation (c : Char) : Bool :=
  0x21 ≤ c.toNat && c.toNat < 0x7f && !c.isAlphanum && c ≠ '<' && c ≠ '>'

/-- The set that the letter of a class escape names. -/
def classEscape? (d : Dialect) : Char → Option CharItem
  | 'd' => some (.oneOf d.digits)
  | 'D' => some (.noneOf d.digits)
  | 's' => some (.oneOf d.spaces)
  | 'S' => some (.noneOf d.spaces)
  | 'w' => some (.oneOf d.words)
  | 'W' => some (.noneOf d.words)
  | _ => none

/-- The character that an escape stands for, after the backslash. -/
def charEscape : List Char → Option (Char × List Char)
  | 'n' :: rest => some ('\n', rest)
  | 't' :: rest => some ('\t', rest)
  | 'r' :: rest => some ('\r', rest)
  | 'f' :: rest => some ('\x0c', rest)
  | 'v' :: rest => some ('\x0b', rest)
  | 'a' :: rest => some ('\x07', rest)
  | 'x' :: rest => codePoint 2 rest
  | 'u' :: rest => codePoint 4 rest
  | 'U' :: rest => codePoint 8 rest
  | c :: rest => if isPunctuation c || c = ' ' then some (c, rest) else none
  | [] => none

/-- One character or class of a bracket. -/
inductive Member where
  | char (c : Char)
  | item (i : CharItem)

def Member.toItem : Member → CharItem
  | char c => .range c.toNat c.toNat
  | item i => i

def member (d : Dialect) : List Char → Option (Member × List Char)
  | '\\' :: c :: rest =>
    match classEscape? d c with
    | some i => some (.item i, rest)
    | none => (charEscape (c :: rest)).map fun (c, rest) => (.char c, rest)
  | '[' :: _ => none
  | c :: rest => some (.char c, rest)
  | [] => none

/-- The members of a bracket up to its end; `first` is true where a closing bracket stands for itself. -/
def members (d : Dialect) : Nat → Bool → List Char → Option (List CharItem × List Char)
  | 0, _, _ => none
  | fuel + 1, first, cs =>
    match first, cs with
    | false, ']' :: rest => some ([], rest)
    | _, cs => do
      let (m, rest) ← member d cs
      match m, rest with
      | .char low, '-' :: ']' :: _ =>
        let (items, rest) ← members d fuel false rest
        return (.range low.toNat low.toNat :: items, rest)
      | .char low, '-' :: after =>
        match ← member d after with
        | (.char high, rest) =>
          if high < low then none
          else
            let (items, rest) ← members d fuel false rest
            return (.range low.toNat high.toNat :: items, rest)
        | (.item _, _) => none
      | m, rest =>
        let (items, rest) ← members d fuel false rest
        return (m.toItem :: items, rest)

/-- A bracket after its opening. -/
def bracket (d : Dialect) : List Char → Option (CharSet × List Char)
  | '^' :: rest => do
    let (items, rest) ← members d (rest.length + 1) true rest
    return ({ negated := true, items }, rest)
  | rest => do
    let (items, rest) ← members d (rest.length + 1) true rest
    return ({ items }, rest)

def number? (cs : List Char) : Option Nat :=
  if cs.isEmpty || !cs.all Char.isDigit then none
  else some (cs.foldl (fun n c => n * 10 + (c.toNat - '0'.toNat)) 0)

/-- The bounds between the braces of a repetition. -/
def bounds? (cs : List Char) : Option (Nat × Option Nat) :=
  match Text.splitChars ',' cs with
  | [n] => (number? n).map fun n => (n, some n)
  | [low, []] => (number? low).map fun low => (low, none)
  | [low, high] => do
    let low ← if low.isEmpty then some 0 else number? low
    let high ← number? high
    if high < low then none else some (low, some high)
  | _ => none

/-- A mark after a repetition says how eagerly it reads; that changes no answer. -/
def dropLazy : List Char → List Char
  | '?' :: rest => rest
  | rest => rest

/-- The repetitions that follow a pattern. -/
def repetitions : Nat → Pattern → List Char → Option (Pattern × List Char)
  | 0, p, rest => some (p, rest)
  | fuel + 1, p, rest =>
    match rest with
    | '*' :: rest => repetitions fuel (.star p) (dropLazy rest)
    | '+' :: rest => repetitions fuel (.seq p (.star p)) (dropLazy rest)
    | '?' :: rest => repetitions fuel (.alt p .empty) (dropLazy rest)
    | '{' :: rest =>
      match rest.dropWhile (· ≠ '}') with
      | [] => none
      | _ :: after => do
        let (low, high) ← bounds? (rest.takeWhile (· ≠ '}'))
        repetitions fuel (p.repeated low high) (dropLazy after)
    | rest => some (p, rest)

/-- A single character, class or mark. -/
def simple (d : Dialect) : List Char → Option (Pattern × List Char)
  | '.' :: rest => some (.one anyButBreak, rest)
  | '^' :: rest => some (.start, rest)
  | '$' :: rest => some (.stop, rest)
  | '[' :: rest => (bracket d rest).map fun (set, rest) => (.one set, rest)
  | '\\' :: 'b' :: rest => some (.boundary true CharSet.wordSet, rest)
  | '\\' :: 'B' :: rest => some (.boundary false CharSet.wordSet, rest)
  | '\\' :: 'A' :: rest => some (.start, rest)
  | '\\' :: 'z' :: rest => some (.stop, rest)
  | '\\' :: c :: rest =>
    match classEscape? d c with
    | some i => some (.one { items := [i] }, rest)
    | none => (charEscape (c :: rest)).map fun (c, rest) => (.one (single c), rest)
  | ['\\'] => none
  | c :: rest =>
    if c = '*' || c = '+' || c = '?' || c = '{' || c = '(' || c = ')' || c = '|' then none
    else some (.one (single c), rest)
  | [] => none

/-- What an opening parenthesis begins. -/
inductive Opening where
  | group
  | ahead (holds : Bool)
  | behind (holds : Bool)

def Opening.apply : Opening → Pattern → Pattern
  | group, p => p
  | ahead holds, p => .ahead holds p
  | behind holds, p => .behind holds p

def dropName (rest : List Char) : Option (List Char) :=
  match rest.dropWhile fun c => c.isAlphanum || c = '_' with
  | '>' :: after => if after.length + 1 = rest.length then none else some after
  | _ => none

/-- After an opening parenthesis. -/
def opening (d : Dialect) : List Char → Option (Opening × List Char)
  | '?' :: ':' :: rest => some (.group, rest)
  | '?' :: '=' :: rest => if d.looksAround then some (.ahead true, rest) else none
  | '?' :: '!' :: rest => if d.looksAround then some (.ahead false, rest) else none
  | '?' :: '<' :: '=' :: rest => if d.looksAround then some (.behind true, rest) else none
  | '?' :: '<' :: '!' :: rest => if d.looksAround then some (.behind false, rest) else none
  | '?' :: 'P' :: '<' :: rest => (dropName rest).map ((.group, ·))
  | '?' :: '<' :: rest => (dropName rest).map ((.group, ·))
  | '?' :: _ => none
  | rest => some (.group, rest)

mutual

/-- Alternatives up to a closing parenthesis or the end. -/
def alternatives (d : Dialect) : Nat → List Char → Option (Pattern × List Char)
  | 0, _ => none
  | fuel + 1, cs => do
    let (left, rest) ← sequence d fuel cs
    match rest with
    | '|' :: rest =>
      let (right, rest) ← alternatives d fuel rest
      return (.alt left right, rest)
    | rest => return (left, rest)

/-- Patterns in a row up to a bar, a closing parenthesis or the end. -/
def sequence (d : Dialect) : Nat → List Char → Option (Pattern × List Char)
  | 0, _ => none
  | fuel + 1, cs =>
    match cs with
    | [] => some (.empty, [])
    | '|' :: _ => some (.empty, cs)
    | ')' :: _ => some (.empty, cs)
    | '(' :: rest => do
      let (kind, rest) ← opening d rest
      let (body, rest) ← alternatives d fuel rest
      match rest with
      | ')' :: rest =>
        let (p, rest) ← repetitions (rest.length + 1) (kind.apply body) rest
        let (more, rest) ← sequence d fuel rest
        return (.seq p more, rest)
      | _ => none
    | cs => do
      let (p, rest) ← simple d cs
      let (p, rest) ← repetitions (rest.length + 1) p rest
      let (more, rest) ← sequence d fuel rest
      return (.seq p more, rest)

end

end Parser

/-- The pattern that a text means. Every other step of the parser reads a character. -/
def parse? (d : Dialect) (text : String) : Option Pattern :=
  match Parser.alternatives d (2 * text.length + 3) text.toList with
  | some (p, []) => some p
  | _ => none

end Pattern

/-- Says of a pattern which texts it matches, if it is one. -/
abbrev PatternEngine := String → Option (String → Bool)

namespace PatternEngine

def ofDialect (d : Pattern.Dialect) : PatternEngine := fun text =>
  (Pattern.parse? d text).map Pattern.isMatch

def unicode : PatternEngine := ofDialect .unicode

def plain : PatternEngine := ofDialect .plain

end PatternEngine

end DocModel
