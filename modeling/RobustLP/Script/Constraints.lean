import RobustLP.Script.Expressions

/-!
# Steps: constraints, objectives, policies

Where a step takes several objects, these may stand in nested containers: lists, records, and records that hold a list under
`tuple` or `array`. A text is an identifier, other plain data stand for themselves.
-/

namespace RobustLP.Script

/-! ## Constraints and objectives -/

/-- An operand as candidate for a constraint. -/
def candidateOf (o : Operand) : Step (Model.ConstraintCandidate Float Float) := do
  let naming ← Step.naming
  match o with
  | .constraint c => return .constraint c
  | .plain v => return .other v.typeName (.ok v.display)
  | .decision v => return .other o.type (.ok (naming.ofVariable v))
  | .parameter u => return .other o.type (.ok (naming.ofParameter u))
  | .expr e => return .other o.type (Print.expr naming true e)
  | .other t => return .other t (.ok t)

/-- How many constraints of each sort a model has. -/
def constraintCounts (m : Model Float Float) : Reply :=
  .nats (if m.robust then [m.constraints.length, m.uncertain.length, m.setConstraints.length]
    else [m.constraints.length])

/-- Adds a constraint. -/
def addConstraint (d : Data) : Step Reply := do
  let i ← Step.refModel d
  let e ← formulaIn d "expr"
  let oracle ← oracleIn d
  let c ← candidateOf e
  let naming ← Step.naming
  match ← Step.onModel i (Model.addConstraint naming i c oracle) with
  | some c =>
    Step.bindTo d (.operand (.constraint c))
    return .record [("counts", constraintCounts (← Step.modelAt i)), ("returned", ← Render.constraint c)]
  | none =>
    Step.bindTo d (.operand (.plain .none))
    return .record [("counts", constraintCounts (← Step.modelAt i)), ("returned", .null)]

/-- A sense; minimising if none is given. -/
def senseIn (d : Data) : Option Sense :=
  match d.field? "sense" with
  | none => some .minimize
  | some v => Sense.ofValue? v.raw

/-- Sets an objective. -/
def setObjective (d : Data) : Step Reply := do
  let i ← Step.refModel d
  let e ← formulaIn d "expr"
  let naming ← Step.naming
  Step.onModel i (Model.setObjective naming i e.asQuantity (senseIn d))
  let m ← Step.modelAt i
  return .record [("objective", ← Render.expr m.objective), ("sense", .text m.sense.name)]

/-! ## Containers -/

mutual

/-- The entities that a container refers to. -/
def referred : Data → Step (List Entity)
  | .text id => do return [← Step.lookup id]
  | .list xs => referredAll xs
  | .record [("tuple", .list xs)] => referredAll xs
  | .record [("array", .list xs)] => referredAll xs
  | .record fields => referredFields fields
  | d => return [.operand (.plain d.raw)]

/-- The entities that several containers refer to. -/
def referredAll : List Data → Step (List Entity)
  | [] => return []
  | x :: xs => do
    let es ← referred x
    return es ++ (← referredAll xs)

/-- The entities that fields refer to. -/
def referredFields : List (String × Data) → Step (List Entity)
  | [] => return []
  | (_, x) :: rest => do
    let es ← referred x
    return es ++ (← referredFields rest)

end

mutual

/-- The single entities of an entity: a list is a container, too. -/
def singles : Entity → List Entity
  | .many es => singlesOf es
  | e => [e]

/-- The single entities of several ones. -/
def singlesOf : List Entity → List Entity
  | [] => []
  | e :: es => singles e ++ singlesOf es

end

/-- The single entities of a container. -/
def leaves (d : Data) : Step (List Entity) := do return singlesOf (← referred d)

/-- The leaves of a container. -/
def flatten (d : Data) : Step Reply := do return .list (← Render.entities (← leaves (d.field "value")))

/-! ## Policies -/

/-- An entity as object of a policy. -/
def policyObject (e : Entity) : Step Model.PolicyObject := do
  let naming ← Step.naming
  let o ← Step.asOperand e
  match o with
  | .decision v => return .decision v
  | .parameter u => return .parameter u
  | .plain v => return .other o.type v.display
  | .expr e => return .other o.type (← Step.fault (Print.expr naming true e))
  | .constraint c => return .other o.type (← Step.fault (c.text naming))
  | .other t => return .other t t

/-- The objects of a policy in a container. -/
def policyObjects (d : Data) : Step (List Model.PolicyObject) := do (← leaves d).mapM policyObject

/-- The policies of a model. -/
def policies (m : Model Float Float) : Reply :=
  .list (m.sortedPolicies.map fun (j, ks) => .list [.int j, .text Model.PolicyKind.affine.name, .nats ks])

/-- Declares a policy. -/
def setPolicy (d : Data) : Step Reply := do
  let i ← Step.refRobust d
  let adapted ← policyObjects (d.field "vars")
  let dependsOn ← policyObjects ((d.field? "on").getD (.list []))
  let policy := ((d.field? "policy").map Data.raw).getD (.text Model.PolicyKind.fixed.name)
  let naming ← Step.naming
  Step.onModel i (Model.setPolicy naming i adapted policy dependsOn)
  return policies (← Step.modelAt i)

/-- The policy of a variable. -/
def getPolicy (d : Data) : Step Reply := do
  let i ← Step.refRobust d
  let naming ← Step.naming
  match ← Step.ref d "var" with
  | .operand (.decision v) =>
    Step.onModel i (Model.checkOwner i (some v.model) "Variable" (pure (naming.ofVariable v)))
    let m ← Step.modelAt i
    let (policy, ks) := m.policyOf v.index
    return .list [.text policy.name, .texts (ks.map m.parameterName)]
  | _ => Step.noAttribute

end RobustLP.Script
