import RobustLP.Environment
import RobustLP.Oracle.Dual

/-!
# Asking oracles

An oracle is set up against an uncertainty set, asked to reformulate rows, and asked to separate candidates from rows. Each
request is recorded before it is answered.

## Separation

A separating oracle evaluates the row at the candidate, which leaves a form in the parameters, and maximises it over the set
for an upper bound and minimises it for a lower bound. It answers the point with the larger violation, if that exceeds the
tolerance; of two equal violations that of the upper bound.
-/

namespace RobustLP.Run

variable {K B : Type} [Bound B] [Scalar K B] [Written K] [Written B]

/-! ## Setting up -/

/-- The name of the program that stands for an uncertainty set. -/
def setProgramName : String := "uncertainty_set"

/-- The first solver that is given. -/
def firstSolver (candidates : List (Option SolverId)) : Option SolverId := candidates.findSome? id

/-- A point of a set, given the set as program. -/
def nominalOf (s : Option SolverId) (p : LinearProgram K B) : Run K B (List K) := do
  let r ← solve s none p
  if r.termination = .infeasible then throw .emptySet
  match r.termination, r.point with
  | .optimal, some x => return x
  | t, _ => throw (.noNominalPoint (← solverName s) t.name)

/-- The names of the integer parameters of a set. -/
def integerNames (set : UncertaintySet K B) : List String :=
  ((set.names.zip set.integer).filter (·.2)).map (·.1)

/-- Sets up a dualizing oracle: it takes continuous parameters only, and a set with rows must not be empty. -/
def setUpDualizing (o : OracleId) (set : UncertaintySet K B) (options : OracleOptions K) : Run K B Unit := do
  setOracle o (.dualizing (some set))
  if set.hasInteger then throw (.integerDualization (Text.joinWith ", " (integerNames set)))
  if !(set.atMostBounds.isEmpty && set.equalBounds.isEmpty) && set.numParameters != 0 then
    let p ← Edit.lift (set.toProgram (some setProgramName))
    discard (nominalOf (firstSolver [options.separationSolver, options.solver]) p)

/-- Sets up a separating oracle, and finds a nominal point. -/
def setUpSeparating (o : OracleId) (preferred : Bool) (s : Separator K B) (set : UncertaintySet K B)
    (options : OracleOptions K) : Run K B Unit := do
  let p ← Edit.lift (set.toProgram (some setProgramName))
  let solver := firstSolver [s.own, options.separationSolver, options.solver]
  let s := { s with program := some p, solver, tolerance := options.tolerance }
  setOracle o (.separating preferred s)
  let nominal ← if set.numParameters = 0 then pure [] else nominalOf solver p
  setOracle o (.separating preferred { s with nominal := some nominal })

/-- **Sets up an oracle.** -/
def setUp (o : OracleId) (set : UncertaintySet K B) (options : OracleOptions K) : Run K B Unit := do
  ask (.setup o)
  match ← oracleOf o with
  | .dualizing _ => setUpDualizing o set options
  | .separating preferred s => setUpSeparating o preferred s set options
  | .replaying r => match r.setupFailure with
    | some message => throw (.setupFailed message)
    | none => return ()

/-! ## Reformulating -/

/-- The values of a nominal point; without one they are of the wrong type. -/
def nominalLookup : Option (List K) → Lookup K
  | some x => Lookup.ofList x
  | none => fun _ => .error .badType

/-- What the log says about a dualized row. -/
def dualSummary (set : UncertaintySet K B) (row : MixedRow K B) (f : Reformulation K B) : String :=
  let parameters := (set.componentOf row.form.parameters).length
  let name := row.name.getD "None"
  s!"Dualized '{name}' over {parameters} uncertain parameters: {f.auxiliaries.length} auxiliary "
    ++ s!"variables, {f.constraints.length} rows"

/-- **Asks an oracle to reformulate a row.** A separating oracle answers the row at its nominal point. -/
def reformulate (o : OracleId) (row : MixedRow K B) : Run K B (Reformulation K B) := do
  ask (.reformulate o row)
  match ← oracleOf o with
  | .dualizing none => throw (.fault .noAttribute)
  | .dualizing (some set) =>
    let f ← Edit.liftFault (set.dualize row)
    if !(set.componentOf row.form.parameters).isEmpty then detail .dualization (dualSummary set row f)
    return f
  | .separating _ s =>
    let r ← Edit.liftFault (row.auxRow (nominalLookup s.nominal) (some (row.name.getD "None" ++ "_nominal")))
    return { constraints := [r] }
  | .replaying r => return r.reformulation

/-! ## Separating -/

/-- The largest (or smallest) value of a form over the set, and where it is attained. -/
def worstCase (s : Separator K B) (g : Form K) (sense : Sense) : Run K B (Option K × Option (List K)) := do
  if g.isConstant then return (some g.constant, s.nominal)
  match s.program with
  | none => throw (.fault .noAttribute)
  | some p =>
    let p ← Edit.lift (p.withObjective g.linear g.constant sense)
    let r ← solve s.solver s.allowance p
    let name ← solverName s.solver
    match r.termination, r.point with
    | .maxTimeLimit, _ =>
      throw (.separationTimeLimit name ((s.allowance.map (·.text)).getD "None"))
    | .unbounded, _ | .infeasibleOrUnbounded, _ => throw .separationUnbounded
    | .optimal, some x => return (r.objective, some x)
    | t, _ => throw (.separationFailed name t.name)

/-- A realization, if its violation exceeds the tolerance. -/
def violatedAt (s : Separator K B) (side : String) (violation : B) (point : Option (List K)) :
    Run K B (Option (Realization K B)) := do
  match s.tolerance, point with
  | none, _ => throw (.fault .badType)
  | some tol, point =>
    if Bound.lt (Scalar.bound tol) violation then
      match point with
      | some point => return some { point, violation, side }
      | none => throw (.fault .badType)
    else return none

/-- The value of a worst case. -/
def known (value : Option K) : Run K B K := do
  match value with
  | some v => return v
  | none => throw (.fault .badType)

/-- The realization that violates the upper bound most. -/
def separateUpper (s : Separator K B) (g : Form K) (row : MixedRow K B) : Run K B (Option (Realization K B)) := do
  if Bound.isUpper row.upper then
    let (value, point) ← worstCase s g .maximize
    violatedAt s "upper" (Scalar.excess (← known value) row.upper) point
  else return none

/-- The realization that violates the lower bound most. -/
def separateLower (s : Separator K B) (g : Form K) (row : MixedRow K B) : Run K B (Option (Realization K B)) := do
  if Bound.isLower row.lower then
    let (value, point) ← worstCase s g .minimize
    violatedAt s "lower" (Scalar.shift row.lower (← known value)) point
  else return none

/-- The worse of two realizations; the first one unless the second is worse. -/
def worseOf (a b : Option (Realization K B)) : Option (Realization K B) :=
  match a, b with
  | none, b => b
  | a, none => a
  | some a, some b => if Bound.lt a.violation b.violation then some b else some a

/-- Separates by worst cases. -/
def separateBy (s : Separator K B) (row : MixedRow K B) (x : Lookup K) : Run K B (Option (Realization K B)) := do
  let g ← Edit.liftFault (row.form.uncertainPart x)
  let a ← separateUpper s g row
  let b ← separateLower s g row
  return worseOf a b

/-- The next answer for a source, and the answers that are left. -/
def nextSeparation (source : String) (table : List (String × List (ReplayedSeparation K B))) :
    Option (ReplayedSeparation K B) × List (String × List (ReplayedSeparation K B)) :=
  match table.find? (·.1 == source) with
  | some (_, a :: rest) => (some a, table.map fun e => if e.1 == source then (source, rest) else e)
  | _ => (none, table)

/-- Replays an answer. -/
def replaySeparation (o : OracleId) (r : ReplayedOracle K B) (row : MixedRow K B) :
    Run K B (Option (Realization K B)) := do
  if !r.separating then return none
  let (a, separations) := nextSeparation row.source.text r.separations
  setOracle o (.replaying { r with separations })
  match a with
  | none => return none
  | some (.found realization) => return some realization
  | some (.outOfTime message) => throw (.separationStopped message)

/-- The values of the columns; a candidate without point has none. -/
def candidateLookup : Option (List K) → Lookup K
  | some x => Lookup.ofList x
  | none => fun _ => .error .noIndex

/-- **Asks an oracle to separate a candidate from a row.** -/
def separate (o : OracleId) (row : MixedRow K B) (x : Option (List K)) : Run K B (Option (Realization K B)) := do
  ask (.separate o row x)
  match ← oracleOf o with
  | .dualizing _ => return none
  | .separating _ s => separateBy s row (candidateLookup x)
  | .replaying r => replaySeparation o r row

/-- Tells an oracle how much time its separations may take. -/
def allow (o : OracleId) (allowance : Option (TimeAllowance K)) : Run K B Unit := do
  setOracle o ((← oracleOf o).allow allowance)

end RobustLP.Run
