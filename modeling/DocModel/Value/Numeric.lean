import DocModel.Value.Basic

/-!
# Values as numbers

Comparison of numbers by what they stand for, whichever kind they are of: here `1` and `1.0` are equal. All
of it is exact.
-/

namespace DocModel

namespace Number

/-- The number as a quotient. -/
def ratio : Number → Int × Nat
  | int n => (n, 1)
  | double d => d.toRatio

def below (a b : Number) : Bool := a.ratio.1 * b.ratio.2 < b.ratio.1 * a.ratio.2

def equals (a b : Number) : Bool := a.ratio.1 * b.ratio.2 = b.ratio.1 * a.ratio.2

def isIntegral (n : Number) : Bool := n.ratio.1 % n.ratio.2 = 0

/-- The natural number that this is. -/
def natural? (n : Number) : Option Nat :=
  if n.isIntegral && 0 ≤ n.ratio.1 then some (n.ratio.1 / n.ratio.2).toNat else none

/-- The nearest double. -/
def toDouble : Number → Double
  | int n => if n < 0 then (Double.ofNat n.natAbs).negate else Double.ofNat n.natAbs
  | double d => d

/-- Whether a double is an integer times another one, which is not zero. -/
def divides (divisor n : Double) : Bool :=
  (n.toRatio.1 * divisor.toRatio.2) % (divisor.toRatio.1 * n.toRatio.2) = 0

/-- Whether a number counts as a multiple of another one. Both are taken as doubles. For a divisor with a
fraction the rounded quotient decides: its own fraction must lie below `2 ^ -52`, which that of a negative
quotient does. -/
def isMultipleOf (n divisor : Number) : Bool :=
  let item := n.toDouble
  let step := divisor.toDouble
  if (Number.double step).isIntegral then divides step item
  else
    let quotient := item.div step
    if !quotient.isFinite then divides step item
    else if item.isNegative then true
    else
      let (num, den) := quotient.magnitude
      (num % den) * Nat.pow 2 52 < den

end Number

namespace Value

mutual

/-- Whether two values are the same when numbers are compared by what they stand for. -/
def equivalent : Value → Value → Bool
  | number a, number b => a.equals b
  | null, null => true
  | bool a, bool b => a == b
  | string a, string b => a == b
  | list xs, list ys => equivalentItems xs ys
  | map xs, map ys => equivalentEntries xs ys
  | _, _ => false

def equivalentItems : List Value → List Value → Bool
  | [], [] => true
  | x :: xs, y :: ys => equivalent x y && equivalentItems xs ys
  | _, _ => false

def equivalentEntries : List (String × Value) → List (String × Value) → Bool
  | [], [] => true
  | (k, v) :: xs, (l, w) :: ys => k == l && equivalent v w && equivalentEntries xs ys
  | _, _ => false

end

/-- Whether no two items are equivalent. -/
def allDifferent : List Value → Bool
  | [] => true
  | x :: xs => !xs.any (equivalent x) && allDifferent xs

end Value

end DocModel
