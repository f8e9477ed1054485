import RobustLP.Expr.Algebra
import RobustLP.Expr.Print

/-!
# Constraints

A constraint bounds an expression from both sides: `lower ≤ body ≤ upper`, where a missing bound is infinite. The
body has no numeric constant; comparing two quantities moves the constant of their difference into the bounds. What a
constraint is for follows from the kind of its body: the variables alone, the parameters alone (then it shapes the
uncertainty set), or both.
-/

namespace RobustLP

/-- An expression between two bounds. -/
structure Constraint (K B : Type) where
  body : Expr K
  lower : B
  upper : B
  deriving Repr

/-- The comparisons of quantities. -/
inductive Relation where
  | atMost
  | atLeast
  | equal
  deriving DecidableEq, Repr

/-- The comparison seen from the other side. -/
def Relation.flip : Relation → Relation
  | .atMost => .atLeast
  | .atLeast => .atMost
  | .equal => .equal

theorem Relation.flip_flip (r : Relation) : r.flip.flip = r := by cases r <;> rfl

section

variable {K B : Type} [Bound B] [Scalar K B]

namespace Constraint

/-- Bounds an expression, moving its constant into the bounds. -/
def between (lower : Option B) (e : Expr K) (upper : Option B) : Except Fault (Constraint K B) := do
  let (body, c) ← e.splitConstant
  return { body
           lower := match lower with
             | none => Bound.negInf
             | some b => Scalar.shift b c
           upper := match upper with
             | none => Bound.posInf
             | some b => Scalar.shift b c }

/-- The kind of the body. -/
def kind (c : Constraint K B) : ExprKind := c.body.kind

/-- The model that owns the symbols. -/
def owner (c : Constraint K B) : Option ModelId := c.body.owner

/-- Both bounds agree. -/
def isEquality (c : Constraint K B) : Bool := Bound.beq c.lower c.upper

/-- The text of a constraint. -/
def text [Written K] [Written B] (naming : Naming) (c : Constraint K B) : Except Fault String := do
  return Print.relation (← Print.expr naming true c.body) c.lower c.upper

end Constraint

/-- The bounds a comparison puts on the difference of its sides. -/
def Relation.bounds : Relation → Option B × Option B
  | .atMost => (none, some (Scalar.bound (Scalar.zero : K)))
  | .atLeast => (some (Scalar.bound (Scalar.zero : K)), none)
  | .equal => (some (Scalar.bound (Scalar.zero : K)), some (Scalar.bound (Scalar.zero : K)))

/-- The constraint that an expression compares with a quantity. -/
def Expr.compare (r : Relation) (a : Expr K) (b : Quantity K) : Except (ExprError K) (Constraint K B) := do
  match ← (Quantity.expr a).sub b with
  | .expr e =>
    let bounds := Relation.bounds (K := K) r
    liftFault (Constraint.between bounds.1 e bounds.2)
  | .number _ => throw (.fault .badType)

/-- **The constraint that two quantities compare.** A number on the left changes sides. There is no constraint between two
numbers. -/
def Quantity.compare (r : Relation) : Quantity K → Quantity K → Except (ExprError K) (Option (Constraint K B))
  | .expr a, b => do return some (← a.compare r b)
  | .number x, .expr b => do return some (← b.compare r.flip (.number x))
  | .number _, .number _ => .ok none

end

end RobustLP
