import RobustLP.Expr.Normal

/-!
# Values, sums, products and quotients

An expression has a value for given values of its symbols. A full form is first *specialised*: given values of the
parameters turn it into a form in the variables. Look-ups may fail, and so may sums; the first failure in the order of the terms is
reported.

Operators work on quantities. A product is formed when one factor reduces to a number, or when one is linear in the
variables and the other affine in the parameters; a quotient when the divisor reduces to a number other than zero.
-/

/-! ## Values -/

namespace RobustLP

variable {S K B : Type} [Symbol S] [Scalar K B]

/-- The value of an affine form. -/
def Affine.evaluate (value : S → Except Fault K) (e : Affine S K) : Except Fault K := do
  let products ← e.terms.mapM fun t => do return t.2 * (← value t.1)
  Scalar.sum (products ++ e.constantParts)

/-- The form in the variables for given values of the parameters. -/
def Full.specialize (value : Parameter → Except Fault K) (e : Full K) :
    Except Fault (Affine Variable K) := do
  let terms ← e.terms.mapM fun t => do return (t.1, ← t.2.evaluate value)
  let constant ← e.constant.evaluate value
  return { terms, constant, owner := e.owner }

/-- The value of a full form. -/
def Full.evaluate (parameters : Parameter → Except Fault K) (decisions : Variable → Except Fault K)
    (e : Full K) : Except Fault K := do
  (← e.specialize parameters).evaluate decisions

/-- The value of an expression of any kind. -/
def Expr.evaluate (parameters : Parameter → Except Fault K) (decisions : Variable → Except Fault K) :
    Expr K → Except Fault K
  | .linear e => e.evaluate decisions
  | .uncertain e => e.evaluate parameters
  | .full e => e.evaluate parameters decisions

/-- The value of a quantity. -/
def Quantity.evaluate (parameters : Parameter → Except Fault K) (decisions : Variable → Except Fault K) :
    Quantity K → Except Fault K
  | .number x => .ok x
  | .expr e => e.evaluate parameters decisions

end RobustLP

/-! ## Operators -/

namespace RobustLP.Quantity

variable {K B : Type} [Scalar K B]

/-- The sum. -/
def add : Quantity K → Quantity K → Except (ExprError K) (Quantity K)
  | .number x, .number y => .ok (.number (x + y))
  | .number x, .expr e => .ok (.expr (e.addConstant x))
  | .expr e, .number y => .ok (.expr (e.addConstant y))
  | .expr a, .expr b => do return .expr (← a.add b)

/-- The quantity times a number. -/
def scale (c : K) : Quantity K → Quantity K
  | .number x => .number (x * c)
  | .expr e => .expr (e.scale c)

/-- The opposite. -/
def neg (a : Quantity K) : Quantity K := a.scale Scalar.minusOne

/-- The difference. -/
def sub (a b : Quantity K) : Except (ExprError K) (Quantity K) := a.add b.neg

/-- A form in the parameters times a form in the variables. -/
def cross (u : Affine Parameter K) (l : Affine Variable K) (owner : Option ModelId) : Full K :=
  { terms := l.terms.map fun t => (t.1, u.scale t.2)
    constant := u.scale l.constant
    owner }

/-- The product of two expressions. -/
def mulExpr (a b : Expr K) : Except (ExprError K) (Quantity K) := do
  match ← liftFault a.reduce with
  | .number x => return .expr (b.scale x)
  | .expr ra =>
    match ← liftFault b.reduce with
    | .number y => return .expr (a.scale y)
    | .expr rb =>
      let owner ← joinOwners a.owner b.owner
      match ra, rb with
      | .uncertain u, .linear l => return .expr (.full (cross u l owner))
      | .linear l, .uncertain u => return .expr (.full (cross u l owner))
      | _, _ => throw (.product a b)

/-- The product. -/
def mul : Quantity K → Quantity K → Except (ExprError K) (Quantity K)
  | .number x, .number y => .ok (.number (x * y))
  | .number x, .expr e => .ok (.expr (e.scale x))
  | .expr e, .number y => .ok (.expr (e.scale y))
  | .expr a, .expr b => mulExpr a b

/-- The quotient. A number is divided; an expression is multiplied by the reciprocal. -/
def div (a b : Quantity K) : Except (ExprError K) (Quantity K) := do
  match ← liftFault b.reduce with
  | .expr _ => throw (.divisor a b)
  | .number y =>
    if Scalar.isZero y then throw (.zeroDivisor a)
    else
      match a with
      | .number x => return .number (x / y)
      | .expr e => return .expr (e.scale (Scalar.one / y))

end RobustLP.Quantity
