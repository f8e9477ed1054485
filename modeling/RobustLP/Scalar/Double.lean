import RobustLP.Scalar
import RobustLP.Decimal.ExactSum
import RobustLP.Decimal.Fixed

/-!
# Doubles as scalars

Coefficients and bounds are both doubles. Comparisons with the undefined number are false, and so is its equality
with itself.
-/

namespace RobustLP

open Decimal

/-- The double nearest to an integer, infinite beyond the range. -/
def Decimal.ofIntSaturating (n : Int) : Float :=
  match ofInt? n with
  | some x => x
  | none => if n < 0 then -infinity else infinity

/-- The integral double nearest to a double, a half going to the even neighbour. -/
def Decimal.roundIntegral (x : Float) : Float :=
  match Parts.ofFloat x with
  | .finite negative m e =>
    if 0 ≤ e then x
    else
      let n := roundDiv m (twoTo (-e).toNat)
      let y := (ofRatio? false n 1).getD infinity
      if negative then -y else y
  | _ => x

instance : Bound Float where
  negInf := -infinity
  posInf := infinity
  lt a b := a < b
  le a b := a ≤ b
  beq a b := a == b
  neg b := -b

instance : Scalar Float Float where
  zero := 0
  one := 1
  literal m e := (ofRatio? false m (tenTo e)).getD infinity
  ofInt := ofIntSaturating
  lt a b := a < b
  le a b := a ≤ b
  beq a b := a == b
  abs := Float.abs
  round := roundIntegral
  sum := exactSum
  bound a := a
  coef b := b
  shift b a := b - a
  excess a b := a - b

instance : Written Float where
  clamped := Decimal.clamped
  plain := Decimal.plain
  fixed := Decimal.fixed
  scientific := Decimal.scientific

end RobustLP
