import RobustLP.Decimal.Binary
import RobustLP.Scalar

/-!
# Exact arithmetic

Coefficients are rational numbers, bounds are rational numbers with two infinities. Sums never fail. This instance is
the meaning against which the algorithms are judged; every definition of the library that takes a `Scalar` can be
read at it.
-/

namespace RobustLP

/-- A rational number or an infinity. -/
inductive ExtRat where
  | negInf
  | finite (q : Rat)
  | posInf
  deriving DecidableEq, Repr

namespace ExtRat

/-- Strictly less. -/
def lt : ExtRat → ExtRat → Bool
  | finite p, finite q => p < q
  | negInf, negInf => false
  | negInf, _ => true
  | _, negInf => false
  | posInf, _ => false
  | finite _, posInf => true

/-- Less or equal. -/
def le (a b : ExtRat) : Bool := !lt b a

/-- The opposite. -/
def neg : ExtRat → ExtRat
  | negInf => posInf
  | finite q => finite (-q)
  | posInf => negInf

/-- Less a rational number. -/
def shift : ExtRat → Rat → ExtRat
  | finite p, q => finite (p - q)
  | b, _ => b

/-- The rational number, zero for an infinity. -/
def toRat : ExtRat → Rat
  | finite q => q
  | _ => 0

theorem lt_finite (p q : Rat) : lt (finite p) (finite q) = decide (p < q) := rfl

theorem shift_finite (p q : Rat) : shift (finite p) q = finite (p - q) := rfl

theorem neg_neg (b : ExtRat) : b.neg.neg = b := by
  cases b with
  | negInf => rfl
  | finite q => exact congrArg finite (Rat.neg_neg q)
  | posInf => rfl

end ExtRat

/-- The integer nearest to a rational number, a half going to the even one. -/
def roundEven (q : Rat) : Int :=
  let below := q.floor
  let rest := q - below
  if rest < 1 / 2 then below
  else if 1 / 2 < rest then below + 1
  else if below % 2 = 0 then below else below + 1

instance : Bound ExtRat where
  negInf := .negInf
  posInf := .posInf
  lt := ExtRat.lt
  le := ExtRat.le
  beq a b := a == b
  neg := ExtRat.neg

instance : Scalar Rat ExtRat where
  zero := 0
  one := 1
  literal m e := mkRat m (Decimal.tenTo e)
  ofInt n := n
  lt a b := a < b
  le a b := a ≤ b
  beq a b := a == b
  abs a := if a < 0 then -a else a
  round a := roundEven a
  sum xs := .ok (xs.foldr (· + ·) 0)
  bound := .finite
  coef := ExtRat.toRat
  shift := ExtRat.shift
  excess a b := (ExtRat.shift b a).neg

/-! ## Texts -/

/-- Exact numbers are written as fractions, whatever places are asked for. -/
instance : Written Rat where
  clamped := toString
  plain := toString
  fixed _ := toString
  scientific _ := toString

/-- The text of a bound. -/
def ExtRat.text : ExtRat → String
  | negInf => "-inf"
  | finite q => toString q
  | posInf => "inf"

instance : Written ExtRat where
  clamped := ExtRat.text
  plain := ExtRat.text
  fixed _ := ExtRat.text
  scientific _ := ExtRat.text

/-- An exact sum never fails. -/
theorem Scalar.sum_exact (xs : List Rat) : Scalar.sum xs = .ok (xs.foldr (· + ·) 0) := rfl

end RobustLP
