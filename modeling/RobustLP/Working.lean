import RobustLP.Program

/-!
# Working models

A solve does not touch the model of the user: it works on a linear program together with *mixed rows*, the constraints
that still involve parameters, each bound to an oracle. Oracles replace a mixed row by auxiliary columns and rows
(`Reformulation`), which are injected into the program, or by cuts, which are mixed rows at one point of the parameters.
-/

namespace RobustLP

/-- Where a mixed row came from. -/
inductive RowSource where
  /-- an uncertain constraint of the model -/
  | index (i : Int)
  /-- a row made while decision rules were substituted -/
  | label (s : String)
  | unknown
  deriving DecidableEq, Repr, Inhabited

/-- The text of a source. -/
def RowSource.text : RowSource → String
  | index i => toString i
  | label s => s
  | unknown => "None"

/-- A constraint that involves columns and parameters. -/
structure MixedRow (K B : Type) where
  form : MixedForm K
  lower : B
  upper : B
  name : Option String := none
  oracle : Option OracleId := none
  source : RowSource := .unknown
  deriving Repr

/-- A program with mixed rows. -/
structure WorkingModel (K B : Type) where
  program : LinearProgram K B
  rows : List (MixedRow K B) := []
  objective : MixedForm K
  /-- the first columns are the variables of the model -/
  userColumns : Nat
  /-- the column for a variable and a parameter of its decision rule -/
  auxColumns : List ((Nat × Nat) × Nat) := []
  /-- the column that bounds an uncertain objective -/
  epigraphColumn : Option Nat := none
  deriving Repr

/-! ## Reformulations -/

/-- An auxiliary column that a reformulation asks for. -/
structure AuxVariable (B : Type) where
  lower : B
  upper : B
  name : Option String
  deriving Repr

/-- A column of an auxiliary row: one of the program, an auxiliary one by its position, or one that does not belong to the
reformulation, by its name. -/
inductive AuxColumn where
  | existing (j : Int)
  | auxiliary (i : Nat)
  | stray (name : String)
  deriving DecidableEq, Repr

/-- An auxiliary row. -/
structure AuxRow (K B : Type) where
  terms : List (AuxColumn × K)
  lower : B
  upper : B
  name : Option String
  deriving Repr

/-- The auxiliary columns and rows that take the place of a mixed row. -/
structure Reformulation (K B : Type) where
  auxiliaries : List (AuxVariable B) := []
  constraints : List (AuxRow K B) := []
  deriving Repr

/-- A point of the parameters at which a row is violated. -/
structure Realization (K B : Type) where
  point : List K
  violation : B
  side : String := "upper"
  deriving Repr

/-! ## Texts -/

/-- A name as it is shown quoted; a missing one by the word for it. -/
def quotedName : Option String → String
  | some n => Text.quoted n
  | none => "None"

/-- The text of an auxiliary column. -/
def AuxVariable.text {B : Type} [Written B] (v : AuxVariable B) : String :=
  "AuxVar(" ++ Text.joinWith ", " [Written.plain v.lower, Written.plain v.upper, quotedName v.name] ++ ")"

/-- The text of a column in an auxiliary row of a reformulation. -/
def AuxColumn.text {K B : Type} [Bound B] [Written B] (f : Reformulation K B) : AuxColumn → String
  | existing j => toString j
  | auxiliary i => match f.auxiliaries[i]? with
    | some v => v.text
    | none => "None"
  | stray name => AuxVariable.text { lower := (Bound.negInf : B), upper := Bound.posInf, name := some name }

/-- The text of an auxiliary row of a reformulation. -/
def AuxRow.text {K B : Type} [Bound B] [Written K] [Written B] (f : Reformulation K B) (r : AuxRow K B) : String :=
  let terms := r.terms.map fun (c, k) => "(" ++ c.text f ++ ", " ++ Written.plain k ++ ")"
  "AuxRow([" ++ Text.joinWith ", " terms ++ "], "
    ++ Text.joinWith ", " [Written.plain r.lower, Written.plain r.upper, quotedName r.name] ++ ")"

/-- The text of a realization. -/
def Realization.text {K B : Type} [Written K] [Written B] (r : Realization K B) : String :=
  "Realization([" ++ Text.joinWith ", " (r.point.map Written.plain) ++ "], violation="
    ++ Written.plain r.violation ++ ", side=" ++ Text.quoted r.side ++ ")"

section

variable {K B : Type} [Bound B] [Scalar K B]

/-! ## Mixed rows -/

namespace MixedRow

/-- The row at a point of the parameters, its constant moved into the bounds. -/
def specialize (point : Lookup K) (r : MixedRow K B) : Except Fault (List (Nat × K) × B × B) := do
  let f ← r.form.specialize point
  return (f.linear, Scalar.shift r.lower f.constant, Scalar.shift r.upper f.constant)

/-- The violation of the row by columns at a point of the parameters. -/
def violation (x point : Lookup K) (r : MixedRow K B) : Except Fault B := do
  let value ← r.form.evaluate x point
  return Bound.max (Bound.max (Scalar.shift r.lower value) (Scalar.excess value r.upper))
    (Scalar.bound (Scalar.zero : K))

variable [Written K] [Written B]

/-- The text of a form in the parameters. -/
def formText (parameterName : Nat → Except Fault String) (f : Form K) : Except Fault String := do
  let terms ← f.linear.mapM fun t => do return (← parameterName t.1, t.2)
  return Print.linear terms f.constant true

/-- The text of a row, for given names of columns and parameters. -/
def text (columnName parameterName : Nat → Except Fault String) (r : MixedRow K B) : Except Fault String := do
  let pieces ← r.form.linear.mapM fun (j, c) => do
    if c.isConstant then return Print.linear [(← columnName j, c.constant)] Scalar.zero true
    else
      let form ← formText parameterName c
      return "(" ++ form ++ ") " ++ (← columnName j)
  let constant := r.form.constant
  let last ← if constant.isConstant && Scalar.isZero constant.constant then pure []
    else do pure [← formText parameterName constant]
  let all := pieces ++ last
  return Print.relation (if all.isEmpty then "0" else Text.joinWith " + " all) r.lower r.upper

end MixedRow

/-- The names of a list, or names made from positions. -/
def namesOr (sort : String) (names : Option (List String)) : Nat → Except Fault String := fun i =>
  match names with
  | none => .ok (sort ++ toString i)
  | some ns => match ns[i]? with
    | some n => .ok n
    | none => .error .noIndex

/-! ## Building -/

namespace WorkingModel

/-- **The working model of a model.** -/
def ofModel [Written K] [Written B] (naming : Naming) (m : Model K B) : Except Error (WorkingModel K B) := do
  let build : Edit (LinearProgram K B) Unit := do
    modify (LinearProgram.addModelColumns m)
    LinearProgram.addModelRows naming m
    LinearProgram.changeObjective fun o => { o with sense := m.sense }
  match build.run (LinearProgram.empty (some m.name)) with
  | (.error e, _) => throw e
  | (.ok _, program) =>
    let rows ← m.uncertain.zipIdx.mapM fun ((c, oracle), i) => do
      let form ← c.body.mixedForm.mapError .fault
      let name ← (c.text naming).mapError .fault
      return ({ form, lower := c.lower, upper := c.upper, name := some name
                oracle := some (oracle.getD m.defaultOracle), source := .index i } : MixedRow K B)
    let objective ← m.objective.mixedForm.mapError .fault
    return { program, rows, objective, userColumns := program.numColumns }

/-! ## Injecting reformulations and cuts -/

/-- Adds the auxiliary columns of a reformulation and answers their positions. -/
def injectVariables (vs : List (AuxVariable B)) : Edit (LinearProgram K B) (List Nat) :=
  vs.mapM fun v => LinearProgram.addColumn (some (.ok v.lower)) (some (.ok v.upper)) false v.name

/-- The column of an auxiliary row in the program. -/
def resolveColumn (cols : List Nat) (rowName : Option String) : AuxColumn → Except Error Int
  | .existing j => .ok j
  | .auxiliary i => match cols[i]? with
    | some j => .ok j
    | none => .error (.strayAuxiliary (rowName.getD "None") "None")
  | .stray name => .error (.strayAuxiliary (rowName.getD "None") name)

/-- Adds an auxiliary row. -/
def injectRow (cols : List Nat) (r : AuxRow K B) : Edit (LinearProgram K B) Unit := do
  let terms ← r.terms.mapM fun t => do
    return ((.ok (← Edit.lift (resolveColumn cols r.name t.1)), .ok t.2) : GivenTerm K)
  discard (LinearProgram.addRow terms (some (.ok r.lower)) (some (.ok r.upper)) r.name)

/-- **Adds a reformulation to a program** and answers the positions of its auxiliary columns. -/
def injectInto (f : Reformulation K B) : Edit (LinearProgram K B) (List Nat) := do
  let cols ← injectVariables f.auxiliaries
  f.constraints.forM (injectRow cols)
  return cols

/-- **Adds a mixed row at a point of the parameters** and answers its position. -/
def addCutTo (row : MixedRow K B) (point : Lookup K) (name : Option String) : Edit (LinearProgram K B) Nat := do
  let (terms, lower, upper) ← Edit.liftFault (row.specialize point)
  LinearProgram.pushRow terms lower upper name

/-- Edits the program of a working model. -/
def editProgram {α : Type} (e : Edit (LinearProgram K B) α) : Edit (WorkingModel K B) α := do
  let wm ← get
  let (r, p) := e.run wm.program
  set { wm with program := p }
  Edit.lift r

end WorkingModel

end

end RobustLP
