import RobustLP.Check.Close
import RobustLP.Expr.Equal
import RobustLP.Script.Models

/-!
# Steps: expressions

Expressions are formed, compared, printed, taken apart and evaluated.
-/

namespace RobustLP.Script

/-! ## Forming -/

/-- Answers an operand and binds it. -/
def answerOperand (d : Data) (o : Operand) : Step Reply := do
  Step.bindTo d (.operand o)
  Render.operand o

/-- Evaluates a formula. -/
def letFormula (d : Data) : Step Reply := do answerOperand d (← formulaIn d "expr")

/-- A formula as number or expression. -/
def asExpression (d : Data) : Step Reply := do answerOperand d (.ofQuantity (← quantityIn d "expr"))

/-- Expressions in parameters that are constant. -/
def fromConstants (d : Data) : Step Reply := do
  let es ← (d.field "values").items.mapM fun v => do
    return Operand.expr (.uncertain (.ofConstant (← Step.lift v.number.readFloat)))
  return .list (← es.mapM Render.operand)

/-- An expression without its constant, and that constant. -/
def splitConstant (d : Data) : Step Reply := do
  match ← formulaIn d "expr" with
  | .expr e =>
    let (body, c) ← Step.fault e.splitConstant
    return .list [← answerOperand d (.expr body), .float c]
  | _ => Step.noAttribute

/-! ## Canonical forms and equality -/

/-- A symbol as canonical forms name it. -/
def symbolKey (k : SymbolKey) : Reply := .list [.text k.sort, .int k.index, .text k.name]

/-- A canonical form without nested coefficients. -/
def canonicalForm : CanonicalForm Float → Reply
  | .constant x => .list [.text "constant", .float x]
  | .affine kind ts c => .list [.text kind, .list (ts.map fun t => .list [symbolKey t.1, .float t.2]), .float c]

/-- A canonical form. -/
def canonical : Canonical Float → Reply
  | .form f => canonicalForm f
  | .full ts c =>
    .list [.text "full", .list (ts.map fun t => .list [symbolKey t.1, canonicalForm t.2]), canonicalForm c]

/-- The canonical form of a formula. -/
def canonicalOf (d : Data) : Step Reply := do
  let q ← quantityIn d "expr"
  return canonical (← Step.fault (Canonical.ofQuantity (← Step.naming) q))

/-- Two formulas have the same terms. -/
def equalFormulas (d : Data) : Step Reply := do
  let a ← formulaIn d "a"
  let b ← formulaIn d "b"
  let a ← Step.lift a.asQuantity
  let b ← Step.lift b.asQuantity
  return .bool (← Step.fault (a.equal b))

/-- An expression has the same terms as a formula. -/
def isEqual (d : Data) : Step Reply := do
  let a ← formulaIn d "a"
  let b ← formulaIn d "b"
  match a with
  | .expr e => return .bool (← Step.fault (Quantity.equal (.expr e) (← Step.lift b.asQuantity)))
  | _ => Step.noAttribute

/-- The text of a number or expression. -/
def quantityText (q : Quantity Float) : Step String := do Step.fault (Print.quantity (← Step.naming) q)

/-- Two canonical forms agree, up to a number of places if that is given. -/
def agreeUpTo (places : Value) (a b : Canonical Float) : Bool :=
  match places with
  | .int n => a.close (Decimal.closeTo n) b
  | _ => a.agrees b

/-- Asserts that two formulas have the same terms. -/
def assertEqual (d : Data) : Step Reply := do
  let a ← formulaIn d "a"
  let b ← formulaIn d "b"
  let naming ← Step.naming
  let a ← Step.lift a.asQuantity
  let formA ← Step.fault (Canonical.ofQuantity naming a)
  let b ← Step.lift b.asQuantity
  let formB ← Step.fault (Canonical.ofQuantity naming b)
  if agreeUpTo (d.field "places").raw formA formB then return done
  let textA ← quantityText a
  let textB ← quantityText b
  Step.fail (.assertion ("Expressions not equal:\n\t" ++ textA ++ "\n\t!=\n\t" ++ textB))

/-! ## Reading -/

/-- A formula in a truth context. -/
def truthOf (d : Data) : Step Reply := do
  match ← formulaIn d "expr" with
  | .plain v => return .bool v.truth
  | .constraint c => Step.fail (.truthOfConstraint (← Step.fault (c.text (← Step.naming))))
  | .decision v => Step.fail (.truthOfExpression ((← Step.naming).ofVariable v))
  | .parameter u => Step.fail (.truthOfExpression ((← Step.naming).ofParameter u))
  | .expr e => Step.fail (.truthOfExpression (← Step.fault (Print.expr (← Step.naming) true e)))
  | .other _ => return .bool true

/-- The text of an expression, with its constant unless told otherwise. -/
def expressionText (d : Data) : Step Reply := do
  let withConstant := ((d.field? "show_constant").map Data.truth).getD true
  match ← formulaIn d "expr" with
  | .expr e => return .text (← Step.fault (Print.expr (← Step.naming) withConstant e))
  | .constraint _ => Step.fail (.fault .badType)
  | _ => Step.noAttribute

/-- An expression is constant. -/
def isConstant (d : Data) : Step Reply := do
  match ← formulaIn d "expr" with
  | .expr e => return .bool (← Step.fault e.isConstant)
  | _ => Step.noAttribute

/-- The symbols of an expression. -/
def symbolsOf (d : Data) : Step Reply := do
  let naming ← Step.naming
  let decisions (vs : List Variable) : String × Reply := ("variables", .texts (vs.map naming.ofVariable))
  let parameters (us : List Parameter) : String × Reply := ("parameters", .texts (us.map naming.ofParameter))
  match ← formulaIn d "expr" with
  | .expr (.linear e) => return .record [decisions (← Step.fault e.symbols)]
  | .expr (.uncertain e) => return .record [parameters (← Step.fault e.symbols)]
  | .expr (.full e) => return .record [decisions (← Step.fault e.decisions), parameters (← Step.fault e.parameters)]
  | _ => return .record []

/-- The value of an expression for given values of its symbols. -/
def valueOf (d : Data) : Step Reply := do
  let e ← formulaIn d "expr"
  let values ← Assignment.read (d.field "values")
  let models := (← get).models
  match e with
  | .expr (.linear e) => return .float (← Step.fault (e.evaluate (values.ofVariable models)))
  | .expr (.uncertain e) => return .float (← Step.fault (e.evaluate values.ofParameter))
  | .expr (.full e) =>
    let ofParameters ← Assignment.read (d.field "params")
    return .float (← Step.fault (e.evaluate ofParameters.ofParameter (values.ofVariable models)))
  | _ => Step.noAttribute

end RobustLP.Script
