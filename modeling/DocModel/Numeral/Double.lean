/-!
# Doubles and their decimal text

An IEEE binary64 number, kept as its 64 bits. All arithmetic here is exact, on natural numbers:
`ofRatio` rounds a quotient to the nearest double, ties to even, and `shortest` finds the decimal of
fewest digits that rounds back to the number, the nearest of those if there are several.
-/

namespace DocModel

/-- A binary64 number, told from others by its bits. -/
structure Double where
  bits : UInt64
  deriving DecidableEq, Repr

namespace Double

def isNegative (d : Double) : Bool := d.bits ≥ 0x8000000000000000

/-- The biased exponent. -/
def exponentField (d : Double) : Nat := (d.bits.toNat / Nat.pow 2 52) % Nat.pow 2 11

def fractionField (d : Double) : Nat := d.bits.toNat % Nat.pow 2 52

def isFinite (d : Double) : Bool := d.exponentField ≠ 2047

def isZero (d : Double) : Bool := d.exponentField = 0 && d.fractionField = 0

/-- A finite number of full precision, neither zero nor subnormal. -/
def isNormal (d : Double) : Bool := d.exponentField ≠ 0 && d.exponentField ≠ 2047

/-- `m` in `|d| = m · 2 ^ q`. -/
def mantissa (d : Double) : Nat :=
  if d.exponentField = 0 then d.fractionField else Nat.pow 2 52 + d.fractionField

/-- `q` in `|d| = m · 2 ^ q`. -/
def scale (d : Double) : Int :=
  if d.exponentField = 0 then -1074 else (d.exponentField : Int) - 1075

/-- The magnitude of a finite number as a quotient of natural numbers. -/
def magnitude (d : Double) : Nat × Nat :=
  (d.mantissa * Nat.pow 2 d.scale.toNat, Nat.pow 2 (-d.scale).toNat)

def negate (d : Double) : Double := ⟨d.bits ^^^ 0x8000000000000000⟩

def zero : Double := ⟨0⟩

def infinity : Double := ⟨0x7ff0000000000000⟩

/-- The integer nearest to `num / den`; a half goes to the even neighbour. -/
def roundQuotient (num den : Nat) : Nat :=
  let quotient := num / den
  let twice := 2 * (num % den)
  if twice < den then quotient
  else if den < twice then quotient + 1
  else quotient + quotient % 2

/-- The double nearest to `num / den`; a tie goes to the even mantissa, and what is too large becomes
infinite. -/
def ofRatio (num den : Nat) : Double :=
  if num = 0 then zero
  else
    let estimate : Int := (num.log2 : Int) - (den.log2 : Int)
    -- the first scale at which the quotient is below 2 ^ 53
    let fits (q : Int) : Bool := num * Nat.pow 2 (-q).toNat < Nat.pow 2 53 * (den * Nat.pow 2 q.toNat)
    let q₀ : Int := estimate - 53
    let q₁ : Int := if fits q₀ then q₀ else q₀ + 1
    let q : Int := max q₁ (-1074)
    let m := roundQuotient (num * Nat.pow 2 (-q).toNat) (den * Nat.pow 2 q.toNat)
    let bits := if q = -1074 then m else (q + 1074).toNat * Nat.pow 2 52 + m
    if bits ≥ 2047 * Nat.pow 2 52 then infinity else ⟨UInt64.ofNat bits⟩

/-- The double nearest to a natural number. -/
def ofNat (n : Nat) : Double := ofRatio n 1

/-- The rounded product of two finite magnitudes. -/
def mul (a b : Double) : Double :=
  let (an, ad) := a.magnitude
  let (bn, bd) := b.magnitude
  ofRatio (an * bn) (ad * bd)

/-- The rounded quotient of two finite magnitudes, the second one not zero. -/
def div (a b : Double) : Double :=
  let (an, ad) := a.magnitude
  let (bn, bd) := b.magnitude
  ofRatio (an * bd) (ad * bn)

/-- The sign and the magnitude as one quotient. -/
def toRatio (d : Double) : Int × Nat :=
  let (num, den) := d.magnitude
  (if d.isNegative then -(num : Int) else num, den)

/-! ## Decimal text -/

/-- The number of decimal digits, none for zero. -/
def digitCount (n : Nat) : Nat := if n = 0 then 0 else (Nat.toDigits 10 n).length

/-- The exponent of the first digit of `num / den`: `10 ^ e ≤ num / den < 10 ^ (e + 1)`. -/
def leadingExponent (num den : Nat) : Int :=
  if den ≤ num then (digitCount (num / den) : Int) - 1
  else -(digitCount ((den + num - 1) / num - 1) : Int)

/-- Whether `c · 10 ^ t` rounds to the number whose interval of reals, in quarters of its last place,
ends at `low` and `high` times `2 ^ p`; the ends belong to it if `closed`. -/
private def withinInterval (c : Nat) (t p : Int) (low high : Nat) (closed : Bool) : Bool :=
  let decimal := c * Nat.pow 10 t.toNat * Nat.pow 2 (-p).toNat
  let unit := Nat.pow 2 p.toNat * Nat.pow 10 (-t).toNat
  if closed then low * unit ≤ decimal && decimal ≤ high * unit
  else low * unit < decimal && decimal < high * unit

/-- The decimal of at most `17 - fuel` more digits that rounds back, tried from the fewest digits. -/
private def shortestFrom (fuel digits : Nat) (m : Nat) (p : Int) (low high : Nat) (closed : Bool) :
    Nat × Int :=
  let num := 4 * m * Nat.pow 2 p.toNat
  let den := Nat.pow 2 (-p).toNat
  let t : Int := leadingExponent num den - digits + 1
  let scaledNum := num * Nat.pow 10 (-t).toNat
  let scaledDen := den * Nat.pow 10 t.toNat
  let below := scaledNum / scaledDen
  let rest := 2 * (scaledNum % scaledDen)
  let okBelow := withinInterval below t p low high closed
  let okAbove := withinInterval (below + 1) t p low high closed
  let nearer := if rest < scaledDen || (rest = scaledDen && below % 2 = 0) then below else below + 1
  if okBelow && okAbove then (nearer, t)
  else if okBelow then (below, t)
  else if okAbove then (below + 1, t)
  else match fuel with
    | 0 => (nearer, t)
    | fuel + 1 => shortestFrom fuel (digits + 1) m p low high closed

/-- The fewest digits `c`, with their exponent `t`, such that `c · 10 ^ t` rounds to the magnitude of
this number, which is finite and not zero. -/
def shortest (d : Double) : Nat × Int :=
  let m := d.mantissa
  let low := if m = Nat.pow 2 52 && d.exponentField > 1 then 4 * m - 1 else 4 * m - 2
  shortestFrom 16 1 m (d.scale - 2) low (4 * m + 2) (m % 2 = 0)

/-- Drops the zeros at the end of a digit string. -/
private def dropZeros (digits : List Char) : List Char :=
  (digits.reverse.dropWhile (· = '0')).reverse

/-- Digits with a point after the first `whole` of them; zeros fill the places that have no digit, and
there is at least one digit on either side. -/
private def pointed (digits : List Char) (whole : Int) : List Char :=
  if whole ≤ 0 then
    ['0', '.'] ++ List.replicate (-whole).toNat '0' ++ digits
  else
    let n := whole.toNat
    let front := digits.take n ++ List.replicate (n - digits.length) '0'
    let back := digits.drop n
    front ++ ['.'] ++ (if back.isEmpty then ['0'] else back)

/-- The text of a finite number: positional with a fraction from `1e-5` up to `1e16`, else in
scientific notation with a sign before a positive exponent. -/
def toText (d : Double) : String :=
  let sign := if d.isNegative then "-" else ""
  if d.isZero then sign ++ "0.0"
  else
    let (c, t) := d.shortest
    let all := Nat.toDigits 10 c
    let exponent : Int := t + all.length - 1
    let digits := dropZeros all
    if -5 ≤ exponent && exponent < 16 then sign ++ String.ofList (pointed digits (exponent + 1))
    else
      let tail := match digits with
        | [] => []
        | [first] => [first]
        | first :: more => first :: '.' :: more
      sign ++ String.ofList tail ++ (if exponent < 0 then "e-" else "e+") ++ toString exponent.natAbs

/-- The digits of a finite number without an exponent, and without a fraction if it is an integer. -/
def toPlainText (d : Double) : String :=
  let sign := if d.isNegative then "-" else ""
  if d.isZero then sign ++ "0"
  else
    let (c, t) := d.shortest
    let all := Nat.toDigits 10 c
    let whole : Int := t + all.length
    let digits := dropZeros all
    if digits.length ≤ whole then
      sign ++ String.ofList (digits ++ List.replicate (whole.toNat - digits.length) '0')
    else sign ++ String.ofList (pointed digits whole)

end Double

end DocModel
