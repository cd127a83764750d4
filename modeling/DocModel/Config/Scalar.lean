import DocModel.Value.Reader

/-!
# Plain numbers

Numbers as configuration files write them. An integer is a sign and digits and lies in
`-2 ^ 63 ... 2 ^ 63 - 1`; any other decimal is the nearest double.
-/

namespace DocModel

namespace PlainNumber

/-- A sign and what follows it. -/
def splitSign : List Char → Bool × List Char
  | '-' :: rest => (true, rest)
  | '+' :: rest => (false, rest)
  | cs => (false, cs)

def digitsValue (cs : List Char) : Nat := cs.foldl (fun n c => n * 10 + Reader.digitValue c) 0

/-- The number that digits write, if there are digits and nothing else. -/
def natural? (cs : List Char) : Option Nat :=
  if cs.isEmpty || !cs.all Reader.isDigit then none else some (digitsValue cs)

def integer? (cs : List Char) : Option Int := do
  let (negative, digits) := splitSign cs
  let n ← natural? digits
  let i : Int := if negative then -n else n
  if -(Nat.pow 2 63 : Int) ≤ i && i < Nat.pow 2 63 then some i else none

/-- The double nearest to `significand · 10 ^ exponent`. -/
def scaled (significand : Nat) (exponent : Int) : Double :=
  if significand = 0 then Double.zero
  else if 400 < exponent then Double.infinity
  else if exponent + Double.digitCount significand < -400 then Double.zero
  else Double.ofRatio (significand * Nat.pow 10 exponent.toNat) (Nat.pow 10 (-exponent).toNat)

/-- The exponent that follows a significand, zero if nothing does. -/
def exponent? : List Char → Option Int
  | [] => some 0
  | c :: rest => do
    if c ≠ 'e' && c ≠ 'E' then none
    let (negative, digits) := splitSign rest
    let n ← natural? digits
    return if negative then -n else n

/-- A decimal with digits before or after its point. -/
def decimal? (cs : List Char) : Option Double := do
  let (negative, cs) := splitSign cs
  let whole := cs.takeWhile Reader.isDigit
  let (fraction, rest) := match cs.dropWhile Reader.isDigit with
    | '.' :: rest => (rest.takeWhile Reader.isDigit, rest.dropWhile Reader.isDigit)
    | rest => ([], rest)
  if whole.isEmpty && fraction.isEmpty then none
  let d := scaled (digitsValue (whole ++ fraction)) ((← exponent? rest) - fraction.length)
  return if negative then d.negate else d

/-- The number that a word writes. -/
def ofChars? (cs : List Char) : Option Number :=
  match integer? cs with
  | some i => some (.int i)
  | none => (decimal? cs).map .double

end PlainNumber

end DocModel
