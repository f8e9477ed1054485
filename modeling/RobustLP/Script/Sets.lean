import RobustLP.Script.Programs

/-!
# Steps: uncertainty sets, realizations, policies

An uncertainty set is that of a model, or given by its bounds and matrices.
-/

namespace RobustLP.Script

/-! ## Sets -/

/-- A set given by its bounds and matrices. -/
def readSet (d : Data) : Except Error (UncertaintySet Float Float) := do
  let lower ← (d.field "lower").vector
  let upper ← (d.field "upper").vector
  UncertaintySet.checkBounds lower upper
  let n := lower.length
  let integer := if (d.field "integer").isNull then lower.map fun _ => false
    else (d.field "integer").items.map Data.truth
  let names := if (d.field "names").isNull then (List.range n).map fun k => "_unc" ++ toString k
    else (d.field "names").items.map fun v => v.raw.display
  let atMostRows ← (d.field "A_ub").matrix n
  let atMostBounds ← (d.field "b_ub").floats
  let equalRows ← (d.field "A_eq").matrix n
  let equalBounds ← (d.field "b_eq").floats
  return { lower, upper, integer, names, atMostRows, atMostBounds, equalRows, equalBounds }

/-- Makes an uncertainty set. -/
def makeSet (d : Data) : Step Reply := do
  let s ← if d.has "model" then do
      let i ← Step.refRobust d
      Step.lift (UncertaintySet.ofModel (← Step.naming) (← Step.modelAt i))
    else Step.lift (readSet d)
  Step.bindTo d (.set s)
  return Render.set s

/-- The entry at a position, counted from the end if it is negative. -/
def fromEnd {α : Type} (xs : List α) (i : Int) : Except Fault α :=
  let k := if i < 0 then i + xs.length else i
  if k < 0 then .error .noIndex else nth xs k.toNat

/-- The positions that a step names. -/
def indicesIn (d : Data) : Step (List Int) := (d.field "indices").items.mapM fun k => Step.lift k.integer

/-- The first position that is at fault or marked decides. -/
def anyMarked (marks : List Bool) : List Int → Except Fault Bool
  | [] => .ok false
  | k :: ks => do if ← fromEnd marks k then return true else anyMarked marks ks

/-- The point of a step, which must have as many entries as the set has parameters. -/
def pointOf (s : UncertaintySet Float Float) (d : Data) : Except Error (List Float) := do
  let shape ← d.arrayShape
  if shape != [s.numParameters] then throw (.pointSize (shape.foldl (· * ·) 1) s.numParameters)
  d.floats

/-- The tolerance of a step. -/
def toleranceIn (d : Data) : Step Float :=
  match d.field? "tol" with
  | none => return Scalar.literal 1 9
  | some v => Step.fault v.number.operand

/-- A part of a set. -/
def restricted (r : RestrictedSet Float Float) : Reply :=
  .list [.matrix r.atMostRows, .floats r.atMostBounds, .matrix r.equalRows, .floats r.equalBounds, .floats r.lower,
    .floats r.upper]

/-- Asks an uncertainty set. -/
def askSet (d : Data) (s : UncertaintySet Float Float) : Step Reply := do
  match d.word "call" with
  | "point_in_set" =>
    let u ← Step.lift (pointOf s (d.field "point"))
    return .bool (← Step.lift (s.contains (← toleranceIn d) u))
  | "connected_components" => return .list (s.components.map Reply.nats)
  | "component_of" =>
    return .nats (s.componentOf ((← indicesIn d).filterMap fun k => if k < 0 then none else some k.toNat))
  | "restrict" =>
    let places := List.range s.numParameters
    return restricted (s.restrict (← (← indicesIn d).mapM fun k => Step.fault (fromEnd places k)))
  | "has_integer_params" =>
    if (d.field "indices").isNull then return .bool s.hasInteger
    return .bool (← Step.fault (anyMarked s.integer (← indicesIn d)))
  | "parameter_bounds" => return .list ((s.lower.zip s.upper).map fun (l, u) => .floats [l, u])
  | "num_params" => return .int s.numParameters
  | "to_string" => return .texts (s.lines.flatMap Text.lines)
  | _ => Step.noAttribute

/-- Asks what is bound to an uncertainty set. -/
def setCall (d : Data) : Step Reply := do
  match ← Step.ref d "obj" with
  | .set s => askSet d s
  | _ => Step.noAttribute

/-! ## Realizations -/

/-- The position that an item stands for: that of a symbol, or an integer. -/
def itemPosition (d : Data) : Step Int := do
  match d with
  | .text id =>
    match ← Step.lookup id with
    | .operand (.decision v) => return v.index
    | .operand (.parameter u) => return u.index
    | _ => Step.fail (.fault .noIndex)
  | .int n => return n
  | _ => Step.fail (.fault .noIndex)

/-- A realization. -/
def readRealization (d : Data) (defaultViolation : Float) : Except Error (Realization Float Float) := do
  let point ← (d.field "point").floats
  let violation ← match d.field? "violation" with
    | none => pure defaultViolation
    | some v => v.number.readFloat
  return { point, violation, side := ((d.field? "side").map fun v => v.raw.display).getD "upper" }

/-- Makes a realization. -/
def makeRealization (d : Data) : Step Reply := do
  let r ← Step.lift (readRealization d 0)
  Step.bindTo d (.realization r)
  let entry (item : Data) : Step Reply := do return .float (← Step.fault (fromEnd r.point (← itemPosition item)))
  let items ← (d.field "items").items.mapM fun item => Step.inPlace (entry item)
  return (Render.realization r).withFields
    [("repr", .text r.text), ("len", .int r.point.length), ("items", .list items)]

/-! ## Policies -/

/-- What is given for a parameter where it is needed. -/
def neededParameter (values : Assignment) (u : Parameter) : Except Fault Value :=
  match values with
  | .current => .error .badType
  | values => values.givenParameter u

/-- The decision of a policy: all parameters are looked up before their values are read. -/
def decisionAt (p : AffinePolicy Float) (values : Assignment) : Except Fault Float := do
  discard (p.coefficients.mapM fun (u, _) => neededParameter values u)
  p.evaluate fun u => do (← neededParameter values u).toFloat.mapError ReadingError.fault

/-- The assignment that data stand for; none if it cannot be read. -/
def readableAssignment (d : Data) : Step (Option Assignment) :=
  tryCatch (some <$> Assignment.read d) fun e => match e with
    | .error _ => pure none
    | e => throw e

/-- The decisions of a policy for several assignments. -/
def decisions (p : AffinePolicy Float) (d : Data) : Step Reply := do
  return .list (← d.items.mapM fun v => do
    match ← readableAssignment v with
    | some values => return Reply.ofResult .float ((decisionAt p values).mapError .fault)
    | none => return .fault .badValue)

/-- Makes a policy. -/
def makePolicy (d : Data) : Step Reply := do
  match ← Step.ref d "var" with
  | .operand (.decision v) =>
    let given ← symbolTerms (d.field "coefficients")
    let base ← Step.lift (d.field "base").number.readFloat
    let terms ← floatTerms parameter? given
    let coefficients := terms.foldl (fun (t : List (Parameter × Float)) c =>
      if t.any (·.1 == c.1) then t.map fun e => if e.1 == c.1 then c else e else t ++ [c]) []
    let p : AffinePolicy Float := { decision := v, base, coefficients }
    Step.bindTo d (.policy p)
    let parts := Render.policy (← Step.naming) p
    let e ← Step.expr p.toExpr
    let values ← decisions p (d.field "at")
    return parts.withFields [("expr", ← Render.expr e), ("values", values)]
  | _ => Step.noAttribute

end RobustLP.Script
