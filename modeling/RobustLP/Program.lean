import RobustLP.Repn

/-!
# Linear programs

A program has columns with bounds, rows with bounds, and an objective; columns and rows are referred to by their
positions. A row is a list of coefficients without repetition and without zeros: `collect` sums what is given several
times for one column.

## Order of the steps

Adding a row enters its coefficients before its bounds are read, so that a bound that is no number leaves the tables of
rows at different lengths; `RowTable` therefore keeps them apart.
-/

namespace RobustLP

/-- A column. -/
structure Column (B : Type) where
  lower : B
  upper : B
  integer : Bool
  name : String
  deriving Repr

/-- The tables of the rows. -/
structure RowTable (K B : Type) where
  coefs : List (List (Nat × K)) := []
  lower : List B := []
  upper : List B := []
  names : List String := []
  deriving Repr

/-- The objective. -/
structure Objective (K : Type) where
  terms : List (Nat × K) := []
  constant : K
  sense : Sense := .minimize
  deriving Repr

/-- A linear program. -/
structure LinearProgram (K B : Type) where
  name : Option String := none
  columns : List (Column B) := []
  rows : RowTable K B := {}
  objective : Objective K
  deriving Repr

/-- A coefficient of a column as given. -/
abbrev GivenTerm (K : Type) := Except Error Int × Except Error K

section

variable {K B : Type} [Bound B] [Scalar K B]

/-! ## Collecting coefficients -/

/-- Adds a coefficient to those of a row. -/
def addCoef (row : List (Nat × K)) (t : Nat × K) : List (Nat × K) :=
  if row.any (·.1 == t.1) then row.map fun s => if s.1 == t.1 then (s.1, t.2 + s.2) else s
  else row ++ [t]

/-- Sums the coefficients of each column and drops zeros. -/
def collect (terms : List (Nat × K)) : List (Nat × K) :=
  (terms.foldl addCoef []).filter fun t => !Scalar.isZero t.2

/-- Reads coefficients of the first `n` columns. -/
def readTerms (n : Nat) (terms : List (GivenTerm K)) : Except Error (List (Nat × K)) :=
  terms.mapM fun (column, coef) => do
    let j ← column
    if 0 ≤ j ∧ j < n then return (j.toNat, ← coef)
    else throw (.columnOutOfRange (toString j) (toString n))

namespace LinearProgram

/-- A program without columns and rows. -/
def empty (name : Option String) : LinearProgram K B := { name, objective := { constant := Scalar.zero } }

/-- The number of columns. -/
def numColumns (p : LinearProgram K B) : Nat := p.columns.length

/-- The number of rows. -/
def numRows (p : LinearProgram K B) : Nat := p.rows.coefs.length

/-! ## Editing -/

/-- A program with one more column. -/
def withColumn (p : LinearProgram K B) (lower upper : B) (integer : Bool) (name : Option String) :
    LinearProgram K B :=
  { p with columns := p.columns ++ [{ lower, upper, integer, name := name.getD s!"_col{p.numColumns}" }] }

/-- Adds a column and answers its position. -/
def addColumn (lower upper : GivenBound B) (integer : Bool) (name : Option String) :
    Edit (LinearProgram K B) Nat := do
  let low ← readBound Bound.negInf lower
  let high ← readBound Bound.posInf upper
  let j := (← get).numColumns
  modify fun p => p.withColumn low high integer name
  return j

/-- Changes the rows. -/
def changeRows (f : RowTable K B → RowTable K B) : Edit (LinearProgram K B) Unit :=
  modify fun p => { p with rows := f p.rows }

/-- Adds a row and answers its position. -/
def addRow (terms : List (GivenTerm K)) (lower upper : GivenBound B) (name : Option String) :
    Edit (LinearProgram K B) Nat := do
  let coefs ← Edit.lift (readTerms (← get).numColumns terms)
  changeRows fun r => { r with coefs := r.coefs ++ [collect coefs] }
  let low ← readBound Bound.negInf lower
  changeRows fun r => { r with lower := r.lower ++ [low] }
  let high ← readBound Bound.posInf upper
  changeRows fun r => { r with upper := r.upper ++ [high] }
  let i := (← get).rows.names.length
  changeRows fun r => { r with names := r.names ++ [name.getD s!"_row{i}"] }
  return i

/-- Numbers as given terms. -/
def given (terms : List (Nat × K)) : List (GivenTerm K) := terms.map fun t => (.ok (t.1 : Int), .ok t.2)

/-- Adds a row whose coefficients and bounds are numbers. -/
def pushRow (terms : List (Nat × K)) (lower upper : B) (name : Option String) :
    Edit (LinearProgram K B) Nat := addRow (given terms) (some (.ok lower)) (some (.ok upper)) name

/-- The entries at given positions. -/
def pick {α : Type} (positions : List Nat) (xs : List α) : Edit (LinearProgram K B) (List α) :=
  positions.mapM fun i => match xs[i]? with
    | some x => pure x
    | none => throw (.fault .noIndex)

/-- The positions among the first `n` that are not dropped. -/
def kept (n : Nat) (drop : List Int) : List Nat := (List.range n).filter fun (i : Nat) => !drop.contains (i : Int)

/-- Removes the rows at given positions. -/
def removeRows (drop : List Int) : Edit (LinearProgram K B) Unit := do
  let keep := kept (← get).numRows drop
  let rows := (← get).rows
  let coefs ← pick keep rows.coefs
  changeRows fun r => { r with coefs }
  let lower ← pick keep rows.lower
  changeRows fun r => { r with lower }
  let upper ← pick keep rows.upper
  changeRows fun r => { r with upper }
  let names ← pick keep rows.names
  changeRows fun r => { r with names }

/-- Changes the objective. -/
def changeObjective (f : Objective K → Objective K) : Edit (LinearProgram K B) Unit :=
  modify fun p => { p with objective := f p.objective }

/-- Sets the objective; a sense that is none is refused at the end. -/
def setObjective (terms : List (GivenTerm K)) (constant : Except Error K) (sense : Option Sense) :
    Edit (LinearProgram K B) Unit := do
  let coefs ← Edit.lift (readTerms (← get).numColumns terms)
  changeObjective fun o => { o with terms := collect coefs }
  let c ← Edit.lift constant
  changeObjective fun o => { o with constant := c }
  match sense with
  | some s => changeObjective fun o => { o with sense := s }
  | none => throw (.fault .badValue)

/-- The program with another objective. -/
def withObjective (p : LinearProgram K B) (terms : List (Nat × K)) (constant : K) (sense : Sense) :
    Except Error (LinearProgram K B) :=
  match (setObjective (given terms) (.ok constant) (some sense)).run p with
  | (.ok _, q) => .ok q
  | (.error e, _) => .error e

/-! ## Matrix and vectors -/

/-- Numbers added in order, from zero. -/
def total (xs : List K) : K := xs.foldl (· + ·) Scalar.zero

/-- The coefficient of a column in a row. -/
def coefAt (row : List (Nat × K)) (j : Nat) : K :=
  match row.find? (·.1 == j) with
  | some t => t.2
  | none => Scalar.zero

/-- A row with all its columns. -/
def denseRow (n : Nat) (row : List (Nat × K)) : List K := (List.range n).map (coefAt row)

/-- The matrix of the rows. -/
def matrix (p : LinearProgram K B) : List (List K) := p.rows.coefs.map (denseRow p.numColumns)

/-- The objective with all its columns. -/
def objectiveVector (p : LinearProgram K B) : List K := denseRow p.numColumns p.objective.terms

/-- The value of a row at a point, summed in the order of the columns. -/
def rowActivity (x : List K) (row : List (Nat × K)) : Except Fault K := do
  let products ← (row.mergeSort fun s t => s.1 ≤ t.1).mapM fun t => do
    return t.2 * (← Lookup.ofList x t.1)
  return total products

/-- The values of the rows at a point. -/
def activity (p : LinearProgram K B) (x : List K) : Except Fault (List K) :=
  if x.length = p.numColumns then p.rows.coefs.mapM (rowActivity x) else .error .badValue

/-- The objective at a point. -/
def objectiveValue (p : LinearProgram K B) (x : List K) : Except Fault K :=
  if x.length = p.numColumns then
    .ok (total (List.zipWith (· * ·) p.objectiveVector x) + p.objective.constant)
  else .error .badValue

/-- Two lists entry by entry; a list of one entry serves for all. -/
def pairUp {α β : Type} (xs : List α) (ys : List β) : Except Fault (List (α × β)) :=
  if xs.length = ys.length then .ok (xs.zip ys)
  else match xs, ys with
    | [x], ys => .ok (ys.map (x, ·))
    | xs, [y] => .ok (xs.map (·, y))
    | _, _ => .error .badValue

/-- The larger of two bounds; one that is not equal to itself wins. -/
def greaterOf (a b : B) : B :=
  if !Bound.beq a a then a else if !Bound.beq b b then b else if Bound.lt a b then b else a

/-- The largest of several bounds. -/
def largest : List B → Except Fault B
  | [] => .error .badValue
  | b :: bs => .ok (bs.foldl greaterOf b)

/-- The largest violation of bounds below and above by values. -/
def worstViolation (lower upper : List B) (values : List K) : Except Fault (B × B) := do
  let below ← pairUp lower values
  let above ← pairUp values upper
  return (← largest (below.map fun (l, a) => Scalar.shift l a), ← largest (above.map fun (a, u) => Scalar.excess a u))

/-- The largest violation of any row or column bound at a point. -/
def maxViolation (p : LinearProgram K B) (x : List K) : Except Fault B := do
  let zero : B := Scalar.bound (Scalar.zero : K)
  let ofRows ← if p.numRows = 0 then pure zero else do
    let (below, above) ← worstViolation p.rows.lower p.rows.upper (← p.activity x)
    pure (Bound.max (Bound.max zero below) above)
  if p.numColumns = 0 then return ofRows
  else
    let (below, above) ← worstViolation (p.columns.map (·.lower)) (p.columns.map (·.upper)) x
    return Bound.max (Bound.max ofRows below) above

/-! ## Text -/

variable [Written K] [Written B]

/-- The text of coefficients of columns, and a constant. -/
def formText (p : LinearProgram K B) (terms : List (Nat × K)) (constant : K) : String :=
  let name (j : Nat) : String := match p.columns[j]? with
    | some c => c.name
    | none => ""
  Print.linear (terms.map fun t => (name t.1, t.2)) constant true

/-- The line of a row. -/
def rowLine (p : LinearProgram K B) (i : Nat) (row : List (Nat × K)) : Except Fault String := do
  let name ← match p.rows.names[i]? with
    | some n => .ok n
    | none => .error .noIndex
  let lower ← match p.rows.lower[i]? with
    | some b => .ok b
    | none => .error .noIndex
  let upper ← match p.rows.upper[i]? with
    | some b => .ok b
    | none => .error .noIndex
  return s!" {name}: {Print.relation (p.formText row Scalar.zero) lower upper}"

/-- **The lines of a program.** -/
def lines (p : LinearProgram K B) : Except Fault (List String) := do
  let rows ← p.rows.coefs.zipIdx.mapM fun (row, i) => p.rowLine i row
  let columns := p.columns.map fun c =>
    " " ++ Written.clamped c.lower ++ " <= " ++ c.name ++ " <= " ++ Written.clamped c.upper
      ++ (if c.integer then ", integer" else "")
  return [s!"{p.objective.sense.name} {p.formText p.objective.terms p.objective.constant}", "Subject to"]
    ++ rows ++ columns

end LinearProgram

/-! ## Programs of models -/

/-- Adds the columns of a model. -/
def LinearProgram.addModelColumns (m : Model K B) (p : LinearProgram K B) : LinearProgram K B :=
  m.decisions.zipIdx.foldl (fun p (d, i) =>
    p.withColumn d.lower.value d.upper.value d.domain.isInteger (some (m.variableName i))) p

/-- Adds the deterministic rows of a model. -/
def LinearProgram.addModelRows [Written K] [Written B] (naming : Naming) (m : Model K B) :
    Edit (LinearProgram K B) Unit :=
  m.constraints.forM fun c => do
    let form ← Edit.lift (Quantity.linearForm naming (.expr c.body))
    let text ← Edit.liftFault (c.text naming)
    discard (LinearProgram.pushRow form.linear (Scalar.shift c.lower form.constant)
      (Scalar.shift c.upper form.constant) (some text))

/-- The program of a model whose objective is deterministic. -/
def LinearProgram.ofModel [Written K] [Written B] (naming : Naming) (m : Model K B) :
    Except Error (LinearProgram K B) :=
  let build : Edit (LinearProgram K B) Unit := do
    modify (LinearProgram.addModelColumns m)
    LinearProgram.addModelRows naming m
    let form ← Edit.lift (Quantity.linearForm naming (.expr m.objective))
    LinearProgram.setObjective (LinearProgram.given form.linear) (.ok form.constant) (some m.sense)
  match build.run (LinearProgram.empty (some m.name)) with
  | (.ok _, p) => .ok p
  | (.error e, _) => .error e

end

end RobustLP
