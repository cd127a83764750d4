/-!
# Splitting text

`splitChars` cuts a text at every occurrence of a character; there is always one piece more than there are
occurrences. `joinChars` puts pieces together again.
-/

namespace DocModel

namespace Text

/-- The pieces between the occurrences of a character. -/
def splitChars (sep : Char) : List Char → List (List Char)
  | [] => [[]]
  | c :: cs =>
    if c = sep then [] :: splitChars sep cs
    else match splitChars sep cs with
      | [] => [[c]]
      | piece :: rest => (c :: piece) :: rest

/-- The pieces with a character between each two. -/
def joinChars (sep : Char) : List (List Char) → List Char
  | [] => []
  | [piece] => piece
  | piece :: next :: rest => piece ++ sep :: joinChars sep (next :: rest)

theorem splitChars_ne_nil (sep : Char) (cs : List Char) : splitChars sep cs ≠ [] := by
  cases cs with
  | nil => simp [splitChars]
  | cons c cs =>
    rw [splitChars]
    split
    · simp
    · split <;> simp

/-- The pieces of a text between the occurrences of a character. -/
def split (sep : Char) (s : String) : List String := (splitChars sep s.toList).map String.ofList

/-- Pieces with a separator between each two. -/
def join (sep : String) : List String → String
  | [] => ""
  | [piece] => piece
  | piece :: next :: rest => piece ++ sep ++ join sep (next :: rest)

/-- What follows `front` in a text that starts with it. -/
def dropFront? (front s : String) : Option String :=
  if front.toList.isPrefixOf s.toList then some (String.ofList (s.toList.drop front.toList.length))
  else none

/-- What precedes `back` in a text that ends with it. -/
def dropBack? (back s : String) : Option String :=
  if back.toList.isSuffixOf s.toList then
    some (String.ofList (s.toList.take (s.toList.length - back.toList.length)))
  else none

/-- The text before and after the last occurrence of a character. -/
def splitLast? (sep : Char) (s : String) : Option (String × String) :=
  match (splitChars sep s.toList).reverse with
  | [] => none
  | [_] => none
  | last :: before => some (String.ofList (joinChars sep before.reverse), String.ofList last)

end Text

end DocModel
