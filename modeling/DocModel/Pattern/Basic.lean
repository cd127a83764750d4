import DocModel.Text.Split

/-!
# Patterns

Regular expressions over characters and what they match. `Pattern.ends` lists the places at which a match
that starts at a given place can stop; a text matches if there is one for some place in it.
-/

namespace DocModel

/-- What a character may be: one of a range, or in or out of a set of ranges. -/
inductive CharItem where
  | range (low high : Nat)
  | oneOf (ranges : List (Nat × Nat))
  | noneOf (ranges : List (Nat × Nat))
  deriving Repr

namespace CharItem

def inRanges (n : Nat) (ranges : List (Nat × Nat)) : Bool := ranges.any fun r => r.1 ≤ n && n ≤ r.2

def accepts (n : Nat) : CharItem → Bool
  | range low high => low ≤ n && n ≤ high
  | oneOf ranges => inRanges n ranges
  | noneOf ranges => !inRanges n ranges

end CharItem

/-- A set of characters, or all others. -/
structure CharSet where
  negated : Bool := false
  items : List CharItem
  deriving Repr

def CharSet.contains (s : CharSet) (c : Char) : Bool :=
  s.items.any (CharItem.accepts c.toNat) != s.negated

inductive Pattern where
  | empty
  | one (set : CharSet)
  | seq (first second : Pattern)
  | alt (left right : Pattern)
  | star (body : Pattern)
  | start
  | stop
  /-- Between a character of the set and none of it, or not there. -/
  | boundary (here : Bool) (word : CharSet)
  /-- Whether the body matches from here on, without reading anything. -/
  | ahead (holds : Bool) (body : Pattern)
  /-- Whether the body matches some text that stops here. -/
  | behind (holds : Bool) (body : Pattern)
  deriving Repr

namespace Pattern

/-- A place in a text: the characters before it, nearest first, and those after it. -/
structure Place where
  before : List Char
  after : List Char

namespace Place

def start (text : List Char) : Place := ⟨[], text⟩

/-- This place and all later ones. -/
def onwards (before : List Char) : List Char → List Place
  | [] => [⟨before, []⟩]
  | c :: rest => ⟨before, c :: rest⟩ :: onwards (c :: before) rest

/-- All places of a text. -/
def all (text : List Char) : List Place := onwards [] text

/-- Places of one text are told apart by what follows them. -/
def same (a b : Place) : Bool := a.after.length = b.after.length

/-- Whether just one side of a place has a character of a set. -/
def atBoundary (word : CharSet) (p : Place) : Bool :=
  p.before.head?.any word.contains != p.after.head?.any word.contains

end Place

/-- Adds places that are not there yet. -/
def addPlaces (known new : List Place) : List Place :=
  new.foldl (fun known p => if known.any p.same then known else known ++ [p]) known

/-- All places that steps lead to, the first ones included. Each round but the last finds a new place, so
`fuel` need not exceed the number of places. -/
def closure (step : Place → List Place) : Nat → List Place → List Place
  | 0, known => known
  | fuel + 1, known =>
    let wider := addPlaces known (known.flatMap step)
    if wider.length = known.length then known else closure step fuel wider

/-- The places at which a match from a place can stop. -/
def ends (text : List Char) : Pattern → Place → List Place
  | empty, p => [p]
  | one set, p =>
    match p.after with
    | [] => []
    | c :: rest => if set.contains c then [⟨c :: p.before, rest⟩] else []
  | seq first second, p => addPlaces [] ((ends text first p).flatMap (ends text second))
  | alt left right, p => addPlaces (ends text left p) (ends text right p)
  | star body, p => closure (ends text body) (p.after.length + 1) [p]
  | start, p => if p.before.isEmpty then [p] else []
  | stop, p => if p.after.isEmpty then [p] else []
  | boundary here word, p => if p.atBoundary word == here then [p] else []
  | ahead holds body, p => if (ends text body p).isEmpty != holds then [p] else []
  | behind holds body, p =>
    let found := (Place.all text).any fun q => (ends text body q).any p.same
    if found == holds then [p] else []

/-- Whether a pattern matches somewhere in a text. -/
def isMatch (pattern : Pattern) (text : String) : Bool :=
  (Place.all text.toList).any fun p => !(ends text.toList pattern p).isEmpty

/-- A pattern `n` times in a row. -/
def times (pattern : Pattern) : Nat → Pattern
  | 0 => empty
  | 1 => pattern
  | n + 2 => seq pattern (times pattern (n + 1))

/-- A pattern at most `n` times in a row. -/
def atMost (pattern : Pattern) : Nat → Pattern
  | 0 => empty
  | n + 1 => alt (seq pattern (atMost pattern n)) empty

/-- A pattern a number of times that lies between two bounds. -/
def repeated (pattern : Pattern) (low : Nat) : Option Nat → Pattern
  | none => seq (times pattern low) (star pattern)
  | some high => seq (times pattern low) (atMost pattern (high - low))

end Pattern

end DocModel
