/-!
# Scalars

The library computes with two sorts of numbers: *coefficients* (of expressions, rows, points) and *bounds*
(of variables, rows, sets), which may also be infinite. `Bound B` and `Scalar K B` collect the operations that the
algorithms use, so that one definition serves two instances:

* doubles, where both sorts are `Float` and every operation rounds (`Scalar.Double`);
* exact arithmetic, where coefficients are rational numbers and bounds are rationals with two infinities
  (`Scalar.Exact`).

## Sums

A sum of several coefficients is taken at once by `Scalar.sum`, which is exact up to one final rounding.
It may fail: `Fault` says why.
-/

namespace RobustLP

/-- What can be wrong with a value or a look-up, apart from any context. -/
inductive Fault where
  /-- a value outside the range of admissible values -/
  | badValue
  /-- a value of the wrong type -/
  | badType
  /-- a number too large to be represented -/
  | overflow
  /-- an object lacks what is asked of it -/
  | noAttribute
  /-- a position outside a sequence -/
  | noIndex
  /-- a key that a table does not have -/
  | noKey
  /-- a division by zero -/
  | zeroDivision
  deriving DecidableEq, Repr, Inhabited

/-- Bounds: numbers and two infinities. -/
class Bound (B : Type) where
  negInf : B
  posInf : B
  lt : B → B → Bool
  le : B → B → Bool
  beq : B → B → Bool
  neg : B → B

/-- Coefficients `K` with their bounds `B`. -/
class Scalar (K : Type) (B : outParam Type) extends Add K, Sub K, Mul K, Div K, Neg K where
  zero : K
  one : K
  /-- the coefficient nearest to `m · 10 ^ (-e)` -/
  literal : (m e : Nat) → K
  /-- the coefficient nearest to an integer -/
  ofInt : Int → K
  lt : K → K → Bool
  le : K → K → Bool
  beq : K → K → Bool
  abs : K → K
  /-- the nearest integer, a half going to the even one -/
  round : K → K
  /-- the sum of a list, exact up to one rounding -/
  sum : List K → Except Fault K
  /-- a coefficient as bound -/
  bound : K → B
  /-- a finite bound as coefficient -/
  coef : B → K
  /-- a bound less a coefficient -/
  shift : B → K → B
  /-- a coefficient less a bound -/
  excess : K → B → B

/-- The texts of numbers. -/
class Written (α : Type) where
  /-- integral numbers as integers, others in their shortest text -/
  clamped : α → String
  /-- the shortest text -/
  plain : α → String
  /-- a fixed number of places -/
  fixed : Nat → α → String
  /-- a fixed number of places behind the leading digit, with exponent -/
  scientific : Nat → α → String

namespace Bound

variable {B : Type} [Bound B]

/-- A lower bound that excludes something. -/
def isLower (b : B) : Bool := lt negInf b

/-- An upper bound that excludes something. -/
def isUpper (b : B) : Bool := lt b posInf

/-- The larger of two bounds; the first one unless the second is larger. -/
def max (a b : B) : B := if lt a b then b else a

/-- The smaller of two bounds; the first one unless the second is smaller. -/
def min (a b : B) : B := if lt b a then b else a

end Bound

namespace Scalar

variable {K B : Type} [Scalar K B]

/-- Equal to zero. -/
def isZero (a : K) : Bool := beq a zero

/-- Minus one. -/
def minusOne : K := -(one : K)

/-- The larger of two coefficients; the first one unless the second is larger. -/
def max (a b : K) : K := if lt a b then b else a

end Scalar

end RobustLP
