import RobustLP.Working

/-!
# Substituting decision rules

A variable with an affine policy is replaced by `x + Σ yₖ uₖ`, where `x` is its column and `yₖ` an auxiliary column for each
parameter it depends on. For this purpose all rows that mention it, and its bounds, become mixed rows first; an
objective that mentions it, or that is uncertain anyway, becomes a mixed row by way of an epigraph column.

A coefficient of the variable that is itself uncertain would make the row quadratic in the parameters and is refused.
-/

namespace RobustLP

/-- What the substitution needs to know: the policies, the oracle of new rows, the names of parameters. -/
structure Expander where
  policies : List (Nat × List Nat)
  defaultOracle : OracleId
  parameterNames : Option (List String)

namespace Expander

variable {K B : Type} [Bound B] [Scalar K B]

/-- An expander; policies without parameters are left out. -/
def make (policies : List (Nat × List Nat)) (defaultOracle : OracleId) (parameterNames : Option (List String)) :
    Expander :=
  { policies := policies.filter fun e => !e.2.isEmpty, defaultOracle, parameterNames }

/-- The expander of a model. -/
def ofModel (m : Model K B) : Expander :=
  make m.affine m.defaultOracle (some ((List.range m.parameters.length).map m.parameterName))

/-- A variable follows a policy. -/
def isAdaptive (e : Expander) (j : Nat) : Bool := e.policies.any (·.1 == j)

/-- The parameters that a variable depends on. -/
def dependsOn (e : Expander) (j : Nat) : List Nat :=
  match e.policies.find? (·.1 == j) with
  | some (_, ks) => ks
  | none => []

/-- The name of a column. -/
def columnName (wm : WorkingModel K B) (j : Nat) : Except Fault String :=
  match wm.program.columns[j]? with
  | some c => .ok c.name
  | none => .error .noIndex

/-! ## Lifting -/

/-- A row of the program as mixed row. -/
def liftedRow (e : Expander) (wm : WorkingModel K B) (i : Nat) (row : List (Nat × K)) :
    Except Fault (MixedRow K B) := do
  let lower ← Lookup.ofList wm.program.rows.lower i
  let upper ← Lookup.ofList wm.program.rows.upper i
  let name ← Lookup.ofList wm.program.rows.names i
  return { form := { linear := row.map fun t => (t.1, .ofConstant t.2), constant := .ofConstant Scalar.zero }
           lower, upper, name := some name, oracle := some e.defaultOracle, source := .label ("lifted:" ++ name) }

/-- Turns the rows with adaptive variables into mixed rows. -/
def liftRows (e : Expander) : Edit (WorkingModel K B) Unit := do
  let wm ← get
  let lifted := wm.program.rows.coefs.zipIdx.filter fun (row, _) => row.any fun t => e.isAdaptive t.1
  let rows ← lifted.mapM fun (row, i) => Edit.liftFault (e.liftedRow wm i row)
  modify fun wm => { wm with rows := wm.rows ++ rows }
  WorkingModel.editProgram (LinearProgram.removeRows (lifted.map fun (_, i) => (i : Int)))

/-- The bounds of a column as mixed row. -/
def boundsRow (e : Expander) (j : Nat) (c : Column B) : MixedRow K B :=
  { form := { linear := [(j, .ofConstant Scalar.one)], constant := .ofConstant Scalar.zero }
    lower := c.lower, upper := c.upper, name := some (c.name ++ " bounds")
    oracle := some e.defaultOracle, source := .label ("bounds:" ++ c.name) }

/-- Turns the bounds of an adaptive variable into a mixed row. -/
def liftBoundsOf (e : Expander) (j : Nat) : Edit (WorkingModel K B) Unit := do
  match (← get).program.columns[j]? with
  | none => throw (.fault .noIndex)
  | some c =>
    if Bound.isLower c.lower || Bound.isUpper c.upper then
      modify fun wm => { wm with rows := wm.rows ++ [e.boundsRow j c] }
    modify fun wm => { wm with
      program := { wm.program with
        columns := wm.program.columns.set j { c with lower := Bound.negInf, upper := Bound.posInf } } }

/-- Turns the bounds of the adaptive variables into mixed rows. -/
def liftBounds (e : Expander) : Edit (WorkingModel K B) Unit :=
  ((e.policies.map (·.1)).mergeSort (· ≤ ·)).forM e.liftBoundsOf

/-- Replaces the coefficient of a position. -/
def setCoef {α : Type} (j : Nat) (a : α) (entries : List (Nat × α)) : List (Nat × α) :=
  if entries.any (·.1 == j) then entries.map fun t => if t.1 == j then (j, a) else t
  else entries ++ [(j, a)]

/-- The row that keeps an objective on the right side of its epigraph column `t`. -/
def epigraphRow (e : Expander) (t : Nat) (objective : MixedForm K) (sense : Sense) : MixedRow K B :=
  let zero : B := Scalar.bound (Scalar.zero : K)
  { form := { objective with linear := setCoef t (.ofConstant Scalar.minusOne) objective.linear }
    lower := if sense = .minimize then Bound.negInf else zero
    upper := if sense = .minimize then zero else Bound.posInf
    name := some "_epigraph", oracle := some e.defaultOracle, source := .label "objective" }

/-- Hands the objective to the program, by way of an epigraph column if it is uncertain or adaptive. -/
def liftObjective (e : Expander) : Edit (WorkingModel K B) Unit := do
  let objective := (← get).objective
  let sense := (← get).program.objective.sense
  if objective.isDeterministic && !objective.linear.any (fun t => e.isAdaptive t.1) then
    WorkingModel.editProgram (LinearProgram.setObjective
      (LinearProgram.given (objective.linear.map fun t => (t.1, t.2.constant)))
      (.ok objective.constant.constant) (some sense))
  else
    let t ← WorkingModel.editProgram (LinearProgram.addColumn none none false (some "_epigraph"))
    modify fun wm => { wm with
      epigraphColumn := some t
      rows := wm.rows ++ [e.epigraphRow t objective sense] }
    WorkingModel.editProgram
      (LinearProgram.setObjective (LinearProgram.given [(t, Scalar.one)]) (.ok Scalar.zero) (some sense))

/-! ## Substituting -/

/-- The column of a variable and a parameter, added if there is none yet. -/
def auxColumn (e : Expander) (j k : Nat) : Edit (WorkingModel K B) Nat := do
  let wm ← get
  match wm.auxColumns.find? (·.1 == (j, k)) with
  | some (_, col) => return col
  | none =>
    let variableName ← Edit.liftFault (columnName wm j)
    let parameterName ← Edit.liftFault (namesOr "_unc" e.parameterNames k)
    let name := "_adapt[" ++ variableName ++ "," ++ parameterName ++ "]"
    let col ← WorkingModel.editProgram (LinearProgram.addColumn none none false (some name))
    modify fun wm => { wm with auxColumns := wm.auxColumns ++ [((j, k), col)] }
    return col

/-- Adds `c` to the coefficient of parameter `k` in the coefficient of a column. -/
def addProduct (col k : Nat) (c : K) (f : MixedForm K) : MixedForm K :=
  let entry : Form K := match f.linear.find? (·.1 == col) with
    | some (_, g) => g
    | none => .ofConstant Scalar.zero
  { f with linear := setCoef col (entry.addTo k c) f.linear }

/-- Substitutes the rule of one variable in a form. -/
def substituteVariable (e : Expander) (rowName : Option String) (f : MixedForm K) (j : Nat) :
    Edit (WorkingModel K B) (MixedForm K) := do
  match f.linear.find? (·.1 == j) with
  | none => return f
  | some (_, c) =>
    if !c.isConstant then
      let name ← Edit.liftFault (columnName (← get) j)
      throw (.uncertainAdaptiveCoefficient name (rowName.getD "None"))
    (e.dependsOn j).foldlM (fun f k => do return addProduct (← e.auxColumn j k) k c.constant f) f

/-- Substitutes the rules of all adaptive variables in a form. -/
def substitute (e : Expander) (rowName : Option String) (f : MixedForm K) :
    Edit (WorkingModel K B) (MixedForm K) :=
  ((f.linear.map (·.1)).filter e.isAdaptive).foldlM (e.substituteVariable rowName) f

/-- Substitutes in all mixed rows. -/
def substituteRows (e : Expander) : Edit (WorkingModel K B) Unit := do
  let rows ← (← get).rows.mapM fun r => do return { r with form := ← e.substitute r.name r.form }
  modify fun wm => { wm with rows }

/-- **Substitutes all decision rules.** -/
def apply (e : Expander) (wm : WorkingModel K B) : Except Error (WorkingModel K B) :=
  let steps : Edit (WorkingModel K B) Unit := do
    if !e.policies.isEmpty then
      e.liftRows
      e.liftBounds
    e.liftObjective
    e.substituteRows
  match steps.run wm with
  | (.ok _, wm) => .ok wm
  | (.error err, _) => .error err

/-- What the log says about an expansion. -/
def summary (e : Expander) (wm : WorkingModel K B) : String :=
  s!"Adaptive expansion: {e.policies.length} adaptive variables, {wm.auxColumns.length} auxiliary columns, "
    ++ s!"{wm.rows.length} mixed rows"

end Expander

end RobustLP
