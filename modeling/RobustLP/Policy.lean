import RobustLP.Expr.Algebra
import RobustLP.Expr.Print

/-!
# Affine policies

A decision that follows an affine policy has a base value and, for each parameter it depends on, a coefficient. The policy
can be evaluated at values of the parameters, and is itself an expression in the parameters; both readings agree up to
rounding.
-/

namespace RobustLP

/-- The affine policy of a variable. -/
structure AffinePolicy (K : Type) where
  decision : Variable
  base : K
  coefficients : List (Parameter × K)
  deriving Repr

namespace AffinePolicy

variable {K B : Type} [Scalar K B]

/-- The decision for given values of the parameters. -/
def evaluate (value : Parameter → Except Fault K) (p : AffinePolicy K) : Except Fault K := do
  let products ← p.coefficients.mapM fun (u, c) => do return c * (← value u)
  return p.base + (← Scalar.sum products)

/-- The policy as expression in the parameters. -/
def toExpr (p : AffinePolicy K) : Except (ExprError K) (Expr K) := do
  return .uncertain (← Affine.ofTerms p.base p.coefficients)

/-- The text of a policy. -/
def text [Written K] (naming : Naming) (p : AffinePolicy K) : String :=
  naming.ofVariable p.decision ++ "(u) = "
    ++ Print.linear (p.coefficients.map fun (u, c) => (naming.ofParameter u, c)) p.base true

end AffinePolicy

end RobustLP
