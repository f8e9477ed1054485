import RobustLP.Constraint
import RobustLP.Expr.Algebra
import RobustLP.Value.Reading

/-!
# Operands

An operand of an operator may be anything: a plain value, a symbol, an expression, a constraint. Plain numbers are
combined as numbers: integers exactly, an integer with a double as doubles. As soon as a symbol or an expression takes
part, numbers become coefficients (truth values do not), and the operators are those of `Quantity`.
-/

namespace RobustLP

/-- Anything an operator is applied to. -/
inductive Operand where
  | plain (v : Value)
  | decision (v : Variable)
  | parameter (u : Parameter)
  | expr (e : Expr Float)
  | constraint (c : Constraint Float Float)
  /-- any other object, by the name of its type -/
  | other (type : String)
  deriving Inhabited

/-- The operators of arithmetic. -/
inductive Operator where
  | add
  | sub
  | mul
  | div
  deriving DecidableEq, Repr

namespace Operand

/-! ## Plain numbers -/

/-- A truth value or an integer. -/
def integer? : Value → Option Int
  | .bool b => some (if b then 1 else 0)
  | .int n => some n
  | _ => none

/-- A number of any type as double. -/
def double? (v : Value) : Option (Except Fault Float) :=
  match v with
  | .float x => some (.ok x)
  | v => (integer? v).map fun n => match Decimal.ofInt? n with
    | some x => .ok x
    | none => .error .overflow

/-- An operator on integers; a quotient is a double. -/
def integerOp (op : Operator) (a b : Int) : Except Fault Value :=
  match op with
  | .add => .ok (.int (a + b))
  | .sub => .ok (.int (a - b))
  | .mul => .ok (.int (a * b))
  | .div =>
    if b = 0 then .error .zeroDivision
    else match Decimal.ofRat? (mkRat (if b < 0 then -a else a) b.natAbs) with
      | some x => .ok (.float x)
      | none => .error .overflow

/-- An operator on doubles. -/
def doubleOp (op : Operator) (x y : Float) : Except Fault Value :=
  match op with
  | .add => .ok (.float (x + y))
  | .sub => .ok (.float (x - y))
  | .mul => .ok (.float (x * y))
  | .div => if y == 0 then .error .zeroDivision else .ok (.float (x / y))

/-- An operator on plain values. -/
def plainOp (op : Operator) (a b : Value) : Except Fault Value :=
  match integer? a, integer? b with
  | some m, some n => integerOp op m n
  | _, _ =>
    match double? a, double? b with
    | some x, some y => do doubleOp op (← x) (← y)
    | _, _ => .error .badType

/-- The order of two numbers; none if one is undefined. -/
def order? (a b : Value) : Option (Option Ordering) :=
  match a, b with
  | .float x, .float y =>
    some (if x < y then some .lt else if x == y then some .eq else if y < x then some .gt else none)
  | a, b =>
    match a.rational?, b.rational? with
    | some p, some q => some (some (if p < q then .lt else if p == q then .eq else .gt))
    | some _, none =>
      match b with
      | .float y => some (if y.isNaN then none else if y < 0 then some .gt else some .lt)
      | _ => none
    | none, some _ =>
      match a with
      | .float x => some (if x.isNaN then none else if x < 0 then some .lt else some .gt)
      | _ => none
    | none, none => none

/-- A comparison of plain values. -/
def plainCompare (r : Relation) (a b : Value) : Except Fault Bool :=
  match r with
  | .equal => .ok (a.same b)
  | .atMost => match order? a b with
    | some o => .ok (o == some .lt || o == some .eq)
    | none => .error .badType
  | .atLeast => match order? a b with
    | some o => .ok (o == some .gt || o == some .eq)
    | none => .error .badType

/-! ## Symbols and expressions -/

/-- The name of the type of an expression. -/
def exprType : ExprKind → String
  | .linear => "LinearExpr"
  | .uncertain => "UncAffExpr"
  | .full => "FullAffExpr"

/-- The name of the type of an operand. -/
def type : Operand → String
  | plain v => v.typeName
  | decision _ => "Variable"
  | parameter _ => "UncertainParam"
  | expr e => exprType e.kind
  | constraint c => match c.kind with
    | .linear => "LinearConstraint"
    | .uncertain => "UncSetConstraint"
    | .full => "UncConstraint"
  | other t => t

/-- A symbol or an expression as expression. -/
def toExpr? : Operand → Option (Expr Float)
  | decision v => some (.ofVariable v)
  | parameter u => some (.ofParameter u)
  | expr e => some e
  | _ => none

/-- An operand as quantity; numbers may be too large for a coefficient. -/
def toQuantity? : Operand → Option (Except Fault (Quantity Float))
  | plain (.float x) => some (.ok (.number x))
  | plain (.int n) => some (match Decimal.ofInt? n with
    | some x => .ok (.number x)
    | none => .error .overflow)
  | plain _ => none
  | o => o.toExpr?.map fun e => .ok (.expr e)

/-- A quantity as operand. -/
def ofQuantity : Quantity Float → Operand
  | .number x => plain (.float x)
  | .expr e => expr e

/-- An operand as quantity, or an error that names its type. -/
def asQuantity (o : Operand) : Except Error (Quantity Float) :=
  match o.toQuantity? with
  | some (.ok q) => .ok q
  | some (.error f) => .error (.fault f)
  | none => .error (.notAnExpression o.type)

/-- The operators on quantities. -/
def quantityOp (op : Operator) (a b : Quantity Float) : Except (ExprError Float) (Quantity Float) :=
  match op with
  | .add => a.add b
  | .sub => a.sub b
  | .mul => a.mul b
  | .div => a.div b

/-- Two operands of which at least one is a symbol or an expression, as quantities. -/
def bothQuantities (a b : Operand) : Except (ExprError Float) (Quantity Float × Quantity Float) :=
  match a.toQuantity?, b.toQuantity? with
  | some x, some y => do return (← liftFault x, ← liftFault y)
  | _, _ => .error (.fault .badType)

/-- An operator applied to two operands. -/
def apply (op : Operator) (a b : Operand) : Except (ExprError Float) Operand := do
  match a, b with
  | plain a, plain b => return plain (← liftFault (plainOp op a b))
  | a, b =>
    let (x, y) ← bothQuantities a b
    return ofQuantity (← quantityOp op x y)

/-- A comparison of two operands: a truth value, or a constraint as soon as a symbol or an expression takes part.
Equality with anything else is false. -/
def compare (r : Relation) (a b : Operand) : Except (ExprError Float) Operand := do
  match a, b with
  | plain a, plain b => return plain (.bool (← liftFault (plainCompare r a b)))
  | a, b =>
    match a.toQuantity?, b.toQuantity? with
    | some x, some y =>
      match ← Quantity.compare (B := Float) r (← liftFault x) (← liftFault y) with
      | some c => return constraint c
      | none => throw (.fault .badType)
    | _, _ => if r = .equal then return plain (.bool false) else throw (.fault .badType)

/-- The opposite of an operand. -/
def negate : Operand → Except (ExprError Float) Operand
  | plain (.float x) => .ok (plain (.float (-x)))
  | plain v => match integer? v with
    | some n => .ok (plain (.int (-n)))
    | none => .error (.fault .badType)
  | o => match o.toExpr? with
    | some e => .ok (expr (e.scale Scalar.minusOne))
    | none => .error (.fault .badType)

/-- An operand with a plus sign. -/
def posit : Operand → Except (ExprError Float) Operand
  | plain (.float x) => .ok (plain (.float x))
  | plain v => match integer? v with
    | some n => .ok (plain (.int n))
    | none => .error (.fault .badType)
  | o => match o.toExpr? with
    | some e => .ok (expr e)
    | none => .error (.fault .badType)

/-- The sum of several operands, starting from zero. -/
def sum (os : List Operand) : Except (ExprError Float) Operand :=
  os.foldlM (apply .add) (plain (.int 0))

/-- A bound of a ranged constraint: none, or a number. -/
def rangeBound : Operand → Except Error (Option (Except Fault Float))
  | plain .none => .ok none
  | plain (.float x) => .ok (some (.ok x))
  | plain (.int n) => .ok (some (match Decimal.ofInt? n with
    | some x => .ok x
    | none => .error .overflow))
  | o => .error (.boundNotNumeric o.type)

/-- An expression between two bounds. -/
def range (lower body upper : Operand) : Except Error Operand := do
  let low ← rangeBound lower
  let high ← rangeBound upper
  match body.toExpr? with
  | none => throw (.bodyNotExpression body.type)
  | some e =>
    let fault {α : Type} (r : Except Fault α) : Except Error α := r.mapError .fault
    let (rest, c) ← fault e.splitConstant
    let low ← fault (low.mapM id)
    let high ← fault (high.mapM id)
    return constraint
      { body := rest
        lower := (low.map (· - c)).getD Bound.negInf
        upper := (high.map (· - c)).getD Bound.posInf }

end Operand

end RobustLP
