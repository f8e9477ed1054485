import RobustLP.Script.Constraints

/-!
# Steps: forms

Forms are made from formulas, or given directly as records of coefficients; of coefficients given twice for one position the
last one counts.
-/

namespace RobustLP.Script

/-! ## Reading -/

/-- Entries by position: a later one replaces an earlier one. -/
def entriesOf {α : Type} (entries : List (Nat × α)) : List (Nat × α) :=
  entries.foldl (fun es e => Expander.setCoef e.1 e.2 es) []

/-- A form. -/
def readForm (d : Data) : Except Error (Form Float) := do
  let linear ← (d.field "linear").items.mapM fun t => do
    match t.items with
    | [k, c] => return (← k.nat, ← c.number.readFloat)
    | _ => throw (.fault .badValue)
  return { linear := entriesOf linear, constant := ← (d.field "constant").number.readFloat }

/-- A mixed form. -/
def readMixed (d : Data) : Except Error (MixedForm Float) := do
  let linear ← (d.field "linear").items.mapM fun t => do
    match t.items with
    | [k, f] => return (← k.nat, ← readForm f)
    | _ => throw (.fault .badValue)
  let constant ← if (d.field "constant").isNull then pure { constant := 0 } else readForm (d.field "constant")
  return { linear := entriesOf linear, constant }

/-- The numbers of a list, read where they are used. -/
def lookupOf (d : Data) : Lookup Float := fun i => do
  let v ← nth (d.items.map Data.number) i
  v.toFloat.mapError ReadingError.fault

/-- The factor of a step. -/
def factorIn (d : Data) : Step Float := do Step.fault (d.field "factor").number.operand

/-! ## Making -/

/-- Answers a form and binds it. -/
def answerForm (d : Data) (sort : FormSort) (f : Form Float) : Step Reply := do
  Step.bindTo d (.form sort f)
  return Render.form f

/-- Answers a mixed form and binds it. -/
def answerMixed (d : Data) (f : MixedForm Float) : Step Reply := do
  Step.bindTo d (.mixed f)
  return Render.mixed f

/-- A text beside a record. -/
def withText (r : Reply) (text : String) : Reply := r.withFields [("str", .text text)]

/-- Makes a form from a formula, if there is one, or as it is given. -/
def formOr {α : Type} (d : Data) (ofFormula : Quantity Float → Step α) (given : Data → Except Error α) : Step α := do
  if d.has "expr" then ofFormula (← quantityIn d "expr") else Step.lift (given (d.field "repn"))

/-- Makes a form. -/
def makeForm (d : Data) : Step Reply := do
  let naming ← Step.naming
  match d.word "kind" with
  | "linear" =>
    let f ← formOr d (fun q => Step.lift (q.linearForm naming)) readForm
    return withText (← answerForm d .columns f) (f.text FormSort.columns.typeName)
  | "uncertain" =>
    let f ← formOr d (fun q => Step.lift (q.uncertainForm naming)) readForm
    return withText (← answerForm d .parameters f) (f.text FormSort.parameters.typeName)
  | _ =>
    let f ← formOr d (fun q => Step.fault q.mixedForm) readMixed
    return withText (← answerMixed d f) f.text

/-! ## Asking -/

/-- Asks a form in parameters. -/
def askForm (d : Data) (f : Form Float) : Step Reply := do
  match d.word "call" with
  | "is_constant" => return .bool f.isConstant
  | "evaluate" => return .float (← Step.fault (f.evaluate (lookupOf (d.field "point"))))
  | "scaled" => answerForm d .parameters (f.scaled (← factorIn d))
  | _ => Step.noAttribute

/-- Asks a mixed form. -/
def askMixed (d : Data) (f : MixedForm Float) : Step Reply := do
  let point := lookupOf (d.field "point")
  let x := lookupOf (d.field "x")
  match d.word "call" with
  | "is_deterministic" => return .bool f.isDeterministic
  | "parameters" => return .nats f.parameters
  | "evaluate" => return .float (← Step.fault (f.evaluate x point))
  | "specialize" =>
    let g ← Step.fault (f.specialize point)
    return .list [Render.terms g.linear, .float g.constant]
  | "uncertain_part" => answerForm d .parameters (← Step.fault (f.uncertainPart x))
  | "scaled" => answerMixed d (f.scaled (← factorIn d))
  | _ => Step.noAttribute

/-- Asks a form. -/
def formCall (d : Data) : Step Reply := do
  match ← Step.ref d "obj" with
  | .form .parameters f => askForm d f
  | .mixed f => askMixed d f
  | _ => Step.noAttribute

end RobustLP.Script
