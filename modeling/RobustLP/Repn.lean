import RobustLP.Expr.Equal
import RobustLP.Model.Edit

/-!
# Forms over positions

Solving works on forms that refer to columns and parameters by their positions. A `Form` is a sum of coefficients times
positions plus a constant; in a `MixedForm` the coefficient of each column, and the constant, are forms in the
parameters.

## Fixing one side

Fixing the parameters of a mixed form at a point gives a form in the columns (`MixedForm.specialize`), fixing the
columns gives a form in the parameters (`MixedForm.uncertainPart`).
-/

namespace RobustLP

/-- A sum of coefficients times positions, plus a constant. -/
structure Form (K : Type) where
  linear : List (Nat × K) := []
  constant : K
  deriving Repr

/-- A form in the columns with coefficients that are forms in the parameters. -/
structure MixedForm (K : Type) where
  linear : List (Nat × Form K) := []
  constant : Form K
  deriving Repr

/-- The values of positions; looking one up may fail. -/
abbrev Lookup (K : Type) := Nat → Except Fault K

/-- The entries of a list by their positions. -/
def Lookup.ofList {K : Type} (xs : List K) : Lookup K := fun i =>
  match xs[i]? with
  | some x => .ok x
  | none => .error .noIndex

section

variable {K B : Type} [Bound B] [Scalar K B]

/-! ## Forms -/

namespace Form

/-- A number. -/
def ofConstant (c : K) : Form K := { constant := c }

/-- No positions occur. -/
def isConstant (f : Form K) : Bool := f.linear.isEmpty

/-- The value at a point. -/
def evaluate (value : Lookup K) (f : Form K) : Except Fault K := do
  let products ← f.linear.mapM fun t => do return t.2 * (← value t.1)
  return (← Scalar.sum products) + f.constant

/-- The form times a number. -/
def scaled (f : Form K) (c : K) : Form K :=
  { linear := f.linear.map fun t => (t.1, t.2 * c), constant := f.constant * c }

/-- The coefficient of a position. -/
def coef? (f : Form K) (k : Nat) : Option K := (f.linear.find? (·.1 == k)).map (·.2)

/-- Adds to the coefficient of a position. -/
def addTo (k : Nat) (c : K) (f : Form K) : Form K :=
  if f.linear.any (·.1 == k) then
    { f with linear := f.linear.map fun t => if t.1 == k then (k, t.2 + c) else t }
  else { f with linear := f.linear ++ [(k, Scalar.zero + c)] }

/-- The positions and coefficients between braces. -/
def tableText [Written K] (entries : List (Nat × K)) : String :=
  "\x7b" ++ Text.joinWith ", " (entries.map fun t => s!"{t.1}: {Written.plain t.2}") ++ "\x7d"

/-- The text of a form, behind the name of its sort. -/
def text [Written K] (sort : String) (f : Form K) : String :=
  s!"{sort}({tableText f.linear}, {Written.plain f.constant})"

end Form

/-! ## Mixed forms -/

namespace MixedForm

/-- The parameters that occur, in order. -/
def parameters (f : MixedForm K) : List Nat :=
  let all := (f.constant :: f.linear.map (·.2)).flatMap fun c => c.linear.map (·.1)
  (all.mergeSort (· ≤ ·)).eraseDups

/-- No parameters occur. -/
def isDeterministic (f : MixedForm K) : Bool := f.constant.isConstant && f.linear.all fun t => t.2.isConstant

/-- The form in the columns at a point of the parameters; zero coefficients are dropped. -/
def specialize (point : Lookup K) (f : MixedForm K) : Except Fault (Form K) := do
  let coefs ← f.linear.mapM fun t => do return (t.1, ← t.2.evaluate point)
  let constant ← f.constant.evaluate point
  return { linear := coefs.filter fun t => !Scalar.isZero t.2, constant }

/-- The form in the parameters for given columns. -/
def uncertainPart (x : Lookup K) (f : MixedForm K) : Except Fault (Form K) := do
  let columns ← f.linear.mapM fun t => do return (t.2, ← x t.1)
  let terms := (f.constant, Scalar.one) :: columns
  let products := terms.flatMap fun (c, xj) => c.linear.map fun t => (t.1, t.2 * xj)
  let linear ← (gather id products).mapM fun (k, cs) => do return (k, ← Scalar.sum cs)
  let constant ← Scalar.sum (terms.map fun (c, xj) => c.constant * xj)
  return { linear, constant }

/-- The value at a point of the columns and parameters. -/
def evaluate (x point : Lookup K) (f : MixedForm K) : Except Fault K := do (← f.specialize point).evaluate x

/-- The form times a number. -/
def scaled (f : MixedForm K) (c : K) : MixedForm K :=
  { linear := f.linear.map fun t => (t.1, t.2.scaled c), constant := f.constant.scaled c }

/-- The text of a mixed form. -/
def text [Written K] (f : MixedForm K) : String :=
  "MixedRepn(\x7b"
    ++ Text.joinWith ", " (f.linear.map fun t => toString t.1 ++ ": " ++ t.2.text "UncertainRepn")
    ++ "\x7d, " ++ f.constant.text "UncertainRepn" ++ ")"

end MixedForm

/-! ## Forms of expressions -/

/-- The form of a normal form. -/
def Affine.form {S : Type} [Symbol S] (e : Affine S K) : Form K :=
  { linear := e.terms.map fun t => (Symbol.index t.1, t.2), constant := e.constant }

/-- A text that may fail, turned into an error. -/
def describeError (text : Except Fault String) (build : String → Error) : Error :=
  match text with
  | .ok t => build t
  | .error f => .fault f

/-- The form of a quantity in the variables. -/
def Quantity.linearForm [Written K] (naming : Naming) : Quantity K → Except Error (Form K)
  | .number x => .ok (.ofConstant x)
  | .expr e => do
    match ← e.normalized.mapError .fault with
    | .linear n => return n.form
    | .uncertain n =>
      if n.terms.isEmpty then return .ofConstant n.constant
      else throw (.notDeterministic (Print.form naming n true))
    | .full n => throw (describeError (Print.expr naming true (.full n)) .notDeterministic)

/-- The form of a quantity in the parameters. -/
def Quantity.uncertainForm [Written K] (naming : Naming) : Quantity K → Except Error (Form K)
  | .number x => .ok (.ofConstant x)
  | .expr e => do
    match ← e.normalized.mapError .fault with
    | .uncertain n => return n.form
    | .linear n =>
      if n.terms.isEmpty then return .ofConstant n.constant
      else throw (describeError (Print.expr naming true (.linear n)) .containsVariables)
    | .full n => throw (describeError (Print.expr naming true (.full n)) .containsVariables)

/-- The mixed form of an expression. -/
def Expr.mixedForm (e : Expr K) : Except Fault (MixedForm K) := do
  match ← e.normalized with
  | .linear n =>
    return { linear := n.terms.map fun t => (t.1.index, .ofConstant t.2), constant := .ofConstant n.constant }
  | .uncertain n => return { constant := n.form }
  | .full n => return { linear := n.terms.map fun t => (t.1.index, t.2.form), constant := n.constant.form }

/-- The mixed form of a quantity. -/
def Quantity.mixedForm : Quantity K → Except Fault (MixedForm K)
  | .number x => .ok { constant := .ofConstant x }
  | .expr e => e.mixedForm

end

end RobustLP
