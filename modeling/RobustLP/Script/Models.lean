import RobustLP.Model.Print
import RobustLP.Script.Render

/-!
# Steps: models and their symbols

A step that declares binds its identifier before its answer is made. Several symbols declared at once are bound as a list, and
one by one under the identifier with their position.
-/

namespace RobustLP.Script

/-! ## Arguments -/

/-- A number that may be missing, as bound. -/
def boundIn (d : Data) (key : String) : GivenBound Float := (d.field key).optionalFloat

/-- The domain of a symbol, or the type of what is none. -/
def domainIn (d : Data) : Except String Domain :=
  match d.field? "domain" with
  | none => .ok .reals
  | some v => match v.text?.bind Domain.ofName? with
    | some domain => .ok domain
    | none => .error v.raw.typeName

/-- A declaration with bounds under the given names. -/
def declarationIn (d : Data) (lower upper : String) : Model.Declaration Float Float :=
  { lower := boundIn d lower, upper := boundIn d upper, domain := domainIn d, name := (d.field "name").name? }

/-- An oracle as given. -/
def oracleIn (d : Data) : Step Model.GivenOracle := do
  match d.field? "oracle" with
  | none | some .null => return none
  | some (.text id) =>
    match ← Step.lookup id with
    | .oracle i => return some (.ok i)
    | e => return some (.error (← Step.asOperand e).type)
  | some v => match v.field? "raw" with
    | some .null => return none
    | some v => return some (.error v.raw.typeName)
    | none => return some (.error v.raw.typeName)

/-- The answer of a step that has nothing to tell. -/
def done : Reply := .text "ok"

/-! ## Declaring -/

/-- Makes a model; a robust one without oracle gets a dualizing oracle of its own. -/
def makeModel (d : Data) : Step Reply := do
  let robust := d.word "kind" != "det"
  let name := (d.field "name").name?.getD "unknown"
  let given ← if robust then oracleIn d else pure none
  let oracle ← match given with
    | some (.error t) => Step.fail (.defaultOracle t)
    | some (.ok o) => pure o
    | none => if robust then Step.putOracle (.dualizing none) else pure 0
  let i := (← get).models.length
  modify fun s => { s with models := s.models ++ [Model.empty name robust oracle] }
  Step.bindTo d (.model i)
  return .text name

/-- Sets the default oracle of a model. -/
def setDefaultOracle (d : Data) : Step Reply := do
  let i ← Step.refRobust d
  match ← oracleIn d with
  | some o => Step.onModel i (Model.setDefaultOracle o)
  | none => Step.onModel i (Model.setDefaultOracle (.error Value.none.typeName))
  return done

/-- Declares a variable. -/
def declareVariable (d : Data) : Step Reply := do
  let model ← Step.refModel d
  let index ← Step.onModel model (Model.addVariable
    { declarationIn d "lb" "ub" with value := (d.field "value").optionalFloat })
  Step.bindTo d (.operand (.decision { model, index }))
  Render.decision { model, index }

/-- Declares a parameter. -/
def declareParameter (d : Data) : Step Reply := do
  let model ← Step.refRobust d
  let index ← Step.onModel model (Model.addParameter (declarationIn d "lower" "upper"))
  Step.bindTo d (.operand (.parameter { model, index }))
  Render.parameter { model, index }

/-- Binds several operands at once and one by one. -/
def bindMany (d : Data) (os : List Operand) : Step Reply := do
  let id := d.word "id"
  Step.bindAs id (.many (os.map .operand))
  os.zipIdx.forM fun (o, k) => Step.bindAs (id ++ "[" ++ toString k ++ "]") (.operand o)
  return .list (← os.mapM Render.operand)

/-- Declares several variables. -/
def declareVariables (d : Data) : Step Reply := do
  let model ← Step.refModel d
  let n ← Step.lift (d.field "n").nat
  let indices ← Step.onModel model (Model.addVariables n (declarationIn d "lb" "ub"))
  bindMany d (indices.map fun index => .decision { model, index })

/-- Declares several parameters. -/
def declareParameters (d : Data) : Step Reply := do
  let model ← Step.refRobust d
  let n ← Step.lift (d.field "n").nat
  let indices ← Step.onModel model (Model.addParameters n (declarationIn d "lower" "upper"))
  bindMany d (indices.map fun index => .parameter { model, index })

/-! ## Changing -/

/-- Changes what is declared of a variable. -/
def changeVariable (v : Variable) (what : String) (given : Data) : Step Unit :=
  match what with
  | "name" => Step.onModel v.model (Model.renameVariable v.index given.name?)
  | "lb" | "setlb" => Step.onModel v.model (Model.setLower v.index given.optionalFloat)
  | "ub" | "setub" => Step.onModel v.model (Model.setUpper v.index given.optionalFloat)
  | "value" => Step.onModel v.model (Model.setValue v.index given.optionalFloat)
  | _ => Step.noAttribute

/-- Changes what is declared of a parameter. -/
def changeParameter (u : Parameter) (what : String) (given : Data) : Step Unit :=
  match what with
  | "name" => Step.onModel u.model (Model.renameParameter u.index given.name?)
  | "lower" => Step.onModel u.model (Model.setParameterLower u.index given.optionalFloat)
  | "upper" => Step.onModel u.model (Model.setParameterUpper u.index given.optionalFloat)
  | _ => Step.noAttribute

/-- Changes a property of a symbol. -/
def change (d : Data) : Step Reply := do
  let e ← Step.ref d "obj"
  match e with
  | .operand (.decision v) => changeVariable v (d.word "attr") (d.field "value")
  | .operand (.parameter u) => changeParameter u (d.word "attr") (d.field "value")
  | _ => Step.noAttribute
  Render.entity e

/-- Loads values of variables. -/
def loadValues (d : Data) : Step Reply := do
  let i ← Step.refModel d
  Step.onModel i (Model.loadValues ((d.field "values").items.map fun v => v.number.readFloat))
  return .list ((← Step.modelAt i).values.map Render.number)

/-! ## Showing -/

/-- Shows an entity. -/
def showEntity (d : Data) : Step Reply := do Render.entity (← Step.ref d "obj")

/-- Which values lie in a domain. -/
def inDomain (d : Data) : Step Reply := do
  match (d.field "domain").text?.bind Domain.ofName? with
  | some domain =>
    return .list (← (d.field "values").items.mapM fun v => do return .bool (← Step.fault (domain.contains v.number)))
  | none => Step.noAttribute

/-- The lines of a model. -/
def modelLines (d : Data) : Step Reply := do
  let m ← Step.modelAt (← Step.refModel d)
  return .texts ((← Step.fault (m.lines (← Step.naming))) ++ [""])

/-- The tables of a model. -/
def modelTables (d : Data) : Step Reply := do
  let m ← Step.modelAt (← Step.refModel d)
  let naming ← Step.naming
  let constraints ← m.constraints.mapM fun c => Step.fault (c.text naming)
  let basic : List (String × Reply) :=
    [("constraints", .texts constraints), ("num_variables", .int m.decisions.length),
      ("objective", .text (← Step.fault (Print.expr naming true m.objective))),
      ("variables", .texts ((List.range m.decisions.length).map m.variableName))]
  if m.robust then
    return .record (basic ++ [("num_uncertain_params", .int m.parameters.length),
      ("uncertain_params", .texts ((List.range m.parameters.length).map m.parameterName))])
  else return .record basic

/-- The type of an oracle. -/
def oracleType (i : OracleId) : Step String := do return (← Step.asOperand (.oracle i)).type

/-- What a model holds beyond a model without uncertainty. -/
def robustData (d : Data) : Step Reply := do
  let i ← Step.refModel d
  let m ← Step.modelAt i
  if !m.robust then Step.fail (.notRobust "Model")
  let naming ← Step.naming
  let oracles ← m.uncertain.mapM fun (_, o) => match o with
    | some o => do return Reply.text (← oracleType o)
    | none => return .null
  let uncertain ← m.uncertain.mapM fun (c, _) => Step.fault (c.text naming)
  let ofSet ← m.setConstraints.mapM fun c => Step.fault (c.text naming)
  return .record [("num_params", .int m.parameters.length),
    ("params", .texts ((List.range m.parameters.length).map m.parameterName)),
    ("uncertain_constraints", .texts uncertain), ("oracles", .list oracles), ("uncertainty_set", .texts ofSet),
    ("adapt", .list (m.sortedPolicies.map fun (j, ks) => .list [.int j, .text "affine", .nats ks])),
    ("default_oracle", .text (← oracleType m.defaultOracle))]

end RobustLP.Script
