import RobustLP.Script.Sets

/-!
# Steps: working models and mixed rows

A working model is that of a robust model, a copy, or the expansion of another one. Mixed rows are taken from a working model
or given directly; reformulations are given by their auxiliary columns and rows, and added to a working model.
-/

namespace RobustLP.Script

/-! ## Working models -/

/-- Puts a working model into the session, answers it and binds it. -/
def answerWorking (d : Data) (wm : WorkingModel Float Float) : Step Reply := do
  let i ← Step.putWorking wm
  Step.bindTo d (.working i)
  Render.entity (.working i)

/-- Makes the working model of a model. -/
def makeWorking (d : Data) : Step Reply := do
  let i ← Step.refRobust d
  answerWorking d (← Step.lift (WorkingModel.ofModel (← Step.naming) (← Step.modelAt i)))

/-- Copies a working model. -/
def cloneWorking (d : Data) : Step Reply := do
  answerWorking d (← Step.workingAt (← Step.refWorking d "obj")).2

/-- Policies as given: a column with the parameters it depends on. -/
def policiesIn (d : Data) : Step (List (Nat × List Nat)) := do
  let entries ← (d.field "policies").items.mapM fun e => do
    match e.items with
    | [j, ks] => return (← Step.lift j.nat, ← ks.items.mapM fun k => Step.lift k.nat)
    | _ => Step.noAttribute
  return entriesOf entries

/-- The names of parameters, if they are given. -/
def namesIn (d : Data) (key : String) : Option (List String) :=
  if (d.field key).isNull then none else some ((d.field key).items.map fun v => v.raw.display)

/-- The expander of a model, or one for given policies. -/
def expanderIn (d : Data) : Step Expander := do
  if d.has "policies" then return Expander.make (← policiesIn d) 0 (namesIn d "param_names")
  else return Expander.ofModel (← Step.modelAt (← Step.refRobust d))

/-- Substitutes decision rules. -/
def expandWorking (d : Data) : Step Reply := do
  let (_, wm) ← Step.workingAt (← Step.refWorking d "working")
  answerWorking d (← Step.lift ((← expanderIn d).apply wm))

/-! ## Mixed rows -/

/-- The source of a row as given. -/
def sourceIn (d : Data) : RowSource :=
  match (d.field "source").raw with
  | .int i => .index i
  | .text s => .label s
  | _ => .unknown

/-- The form of a row as given: a record or the identifier of a mixed form. -/
def rowForm (d : Data) : Step (MixedForm Float) := do
  match d with
  | .null => return { constant := { constant := 0 } }
  | .text id => match ← Step.lookup id with
    | .mixed f => return f
    | _ => Step.noAttribute
  | d => Step.lift (readMixed d)

/-- A bound that is infinite if it is missing. -/
def boundOr (default : Float) (d : Data) (key : String) : Step Float :=
  match boundIn d key with
  | none => return default
  | some b => Step.lift b

/-- A row as given. -/
def readRow (d : Data) : Step (MixedRow Float Float) := do
  let form ← rowForm (d.field "repn")
  let lower ← boundOr Bound.negInf d "lower"
  let upper ← boundOr Bound.posInf d "upper"
  return { form, lower, upper, name := (d.field "name").name?, source := sourceIn d }

/-- Takes a row from a working model, or makes one as it is given. -/
def makeRow (d : Data) : Step Reply := do
  let row ← if d.has "working" then do
      let (_, wm) ← Step.workingAt (← Step.refWorking d "working")
      match (d.field "row").raw with
      | .int i => Step.fault (fromEnd wm.rows i)
      | _ => Step.fail (.fault .badType)
    else readRow d
  Step.bindTo d (.row row)
  Render.row row

/-- The row that a field refers to. -/
def refRow (d : Data) : Step (MixedRow Float Float) := do
  match ← Step.ref d "row" with
  | .row r => return r
  | _ => Step.noAttribute

/-- Asks a row. -/
def askRow (d : Data) (r : MixedRow Float Float) : Step Reply := do
  let point := lookupOf (d.field "point")
  let x := lookupOf (d.field "x")
  match d.word "call" with
  | "has_lb" => return .bool (Bound.isLower r.lower)
  | "has_ub" => return .bool (Bound.isUpper r.upper)
  | "parameters" => return .nats r.form.parameters
  | "is_deterministic" => return .bool r.form.isDeterministic
  | "specialize" =>
    let (terms, lower, upper) ← Step.fault (r.specialize point)
    return .list [Render.terms terms, .float lower, .float upper]
  | "activity" => return .float (← Step.fault (r.form.evaluate x point))
  | "violation" => return .float (← Step.fault (r.violation x point))
  | "copy" =>
    Step.bindTo d (.row r)
    Render.row r
  | "to_string" =>
    return .text (← Step.fault (r.text (namesOr "_col" (namesIn d "col_names")) (namesOr "_unc" (namesIn d "param_names"))))
  | _ => Step.noAttribute

/-- Asks what is bound to a row. -/
def rowCall (d : Data) : Step Reply := do
  match ← Step.ref d "obj" with
  | .row r => askRow d r
  | _ => Step.noAttribute

/-! ## Reformulations -/

/-- An auxiliary column. -/
def readAuxVariable (d : Data) : Step (AuxVariable Float) := do
  let lower ← boundOr Bound.negInf d "lower"
  let upper ← boundOr Bound.posInf d "upper"
  return { lower, upper, name := (d.field "name").name? }

/-- The name of an auxiliary column that belongs to no reformulation. -/
def strayName : String := "stray"

/-- The column of an auxiliary row. -/
def readAuxColumn (d : Data) : Step AuxColumn := do
  match d.field? "aux" with
  | some .null => return .stray strayName
  | some i => return .auxiliary (← Step.lift i.nat)
  | none => return .existing (← Step.lift (columnOf d.raw))

/-- An auxiliary row. -/
def readAuxRow (d : Data) : Step (AuxRow Float Float) := do
  let terms ← (d.field "terms").items.mapM fun t => do
    match t.items with
    | [c, k] => return (← readAuxColumn c, ← Step.lift k.number.readFloat)
    | _ => Step.fail (.fault .badValue)
  let lower ← boundOr Bound.negInf d "lower"
  let upper ← boundOr Bound.posInf d "upper"
  return { terms, lower, upper, name := (d.field "name").name? }

/-- A reformulation. -/
def readReformulation (d : Data) : Step (Reformulation Float Float) := do
  let auxiliaries ← (d.field "variables").items.mapM readAuxVariable
  let constraints ← (d.field "constraints").items.mapM readAuxRow
  return { auxiliaries, constraints }

/-- Makes a reformulation. -/
def makeReformulation (d : Data) : Step Reply := do
  let f ← readReformulation d
  Step.bindTo d (.reformulation f)
  return (Render.reformulation f).withFields
    [("repr", .texts (f.auxiliaries.map AuxVariable.text ++ f.constraints.map fun r => r.text f))]

/-- Adds a reformulation to a working model. -/
def injectReformulation (d : Data) : Step Reply := do
  let (place, _) ← Step.workingAt (← Step.refWorking d "working")
  match ← Step.ref d "reformulation" with
  | .reformulation f =>
    let cols ← Step.onProgram place (WorkingModel.injectInto f)
    return .record [("cols", .nats cols), ("lp", ← Render.program (← Step.programAt place))]
  | _ => Step.noAttribute

/-- Adds a row at a point of the parameters to a working model. -/
def addCut (d : Data) : Step Reply := do
  let (place, _) ← Step.workingAt (← Step.refWorking d "working")
  let row ← refRow d
  let i ← Step.onProgram place (WorkingModel.addCutTo row (lookupOf (d.field "point")) (d.field "name").name?)
  return .record [("index", .int i), ("lp", ← Render.program (← Step.programAt place))]

end RobustLP.Script
