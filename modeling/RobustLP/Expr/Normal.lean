import RobustLP.Expr
import RobustLP.Gather

/-!
# Normal forms

In a normal form every symbol occurs at most once, in the order of first appearance, and no coefficient is zero; the
constant is rounded once. `Quantity.reduce` goes on to the simplest kind: an expression without symbols becomes a number,
a full form with numbers as coefficients becomes a linear one.

The coefficients of a symbol are brought together by `gather`.
-/

namespace RobustLP

section

variable {S K B : Type} [Symbol S] [Scalar K B]

/-- The sum of several coefficients; a single one is taken as it is. -/
def sumCoefs : List K → Except Fault K
  | [c] => .ok c
  | cs => Scalar.sum cs

/-- Sums the coefficients of each symbol and drops those that are zero. -/
def collapse (terms : List (S × K)) : Except Fault (List (S × K)) := do
  let sums ← (gather Symbol.index terms).mapM fun (s, cs) => do return (s, ← sumCoefs cs)
  return sums.filter fun t => !Scalar.isZero t.2

namespace Affine

/-- The normal form. -/
def normalized (e : Affine S K) : Except Fault (Affine S K) := do
  let terms ← collapse e.terms
  let constant ← e.exactConstant
  return { terms, constant, owner := e.owner }

/-- The form has no symbols once it is normalised. -/
def isConstant (e : Affine S K) : Except Fault Bool := do
  return (← e.normalized).terms.isEmpty

/-- The symbols of the normal form. -/
def symbols (e : Affine S K) : Except Fault (List S) := do
  return (← e.normalized).terms.map (·.1)

end Affine

namespace Full

/-- The sum of several coefficient forms, normalised. -/
def sumForms (owner : Option ModelId) (forms : List (Affine Parameter K)) :
    Except Fault (Affine Parameter K) :=
  Affine.normalized
    { terms := forms.flatMap (·.terms)
      constant := Scalar.zero
      parts := some (forms.flatMap (·.constantParts))
      owner }

/-- The form is the number zero; its terms are those of a normal form. -/
def isZeroForm (e : Affine Parameter K) : Bool := e.terms.isEmpty && Scalar.isZero e.constant

/-- The normal form. -/
def normalized (e : Full K) : Except Fault (Full K) := do
  let sums ← (gather Variable.index e.terms).mapM fun (v, forms) => do return (v, ← sumForms e.owner forms)
  let constant ← e.constant.normalized
  return { terms := sums.filter fun t => !isZeroForm t.2, constant, owner := e.owner }

/-- The variables of the normal form. -/
def decisions (e : Full K) : Except Fault (List Variable) := do
  return (← e.normalized).terms.map (·.1)

/-- The parameters of the normal form, in the order of first appearance. -/
def parameters (e : Full K) : Except Fault (List Parameter) := do
  let n ← e.normalized
  let all := (n.terms.map (·.2) ++ [n.constant]).flatMap (·.terms)
  return (gather Parameter.index all).map (·.1)

end Full

namespace Expr

/-- The normal form of an expression of the same kind. -/
def normalized : Expr K → Except Fault (Expr K)
  | linear e => do return .linear (← e.normalized)
  | uncertain e => do return .uncertain (← e.normalized)
  | full e => do return .full (← e.normalized)

/-- No symbols occur in the normal form (no variables, for a full form). -/
def isConstant : Expr K → Except Fault Bool
  | linear e => e.isConstant
  | uncertain e => e.isConstant
  | full e => do return (← e.normalized).terms.isEmpty

end Expr

/-! ## The simplest kind -/

/-- An affine form, or its constant if no symbols remain. -/
def reduceAffine (wrap : Affine S K → Expr K) (e : Affine S K) : Except Fault (Quantity K) := do
  let n ← e.normalized
  return if n.terms.isEmpty then .number n.constant else .expr (wrap n)

/-- The constants of coefficients that are all numbers. -/
def numericTerms (terms : List (Variable × Affine Parameter K)) : Option (List (Variable × K)) :=
  terms.mapM fun t => if t.2.terms.isEmpty then some (t.1, t.2.constant) else none

/-- The simplest kind of an expression. -/
def Expr.reduce : Expr K → Except Fault (Quantity K)
  | .linear e => reduceAffine .linear e
  | .uncertain e => reduceAffine .uncertain e
  | .full e => do
    let n ← e.normalized
    if n.terms.isEmpty then reduceAffine .uncertain n.constant
    else if n.constant.terms.isEmpty then
      match numericTerms n.terms with
      | some terms =>
        reduceAffine .linear { terms, constant := n.constant.constant, owner := n.owner }
      | none => return .expr (.full n)
    else return .expr (.full n)

/-- The simplest kind of a quantity. -/
def Quantity.reduce : Quantity K → Except Fault (Quantity K)
  | .number x => .ok (.number x)
  | .expr e => e.reduce

end

end RobustLP
