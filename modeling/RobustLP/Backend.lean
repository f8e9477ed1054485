import RobustLP.Error
import RobustLP.Program
import RobustLP.Solver.Results
import RobustLP.Text.Characters
import RobustLP.Value

/-!
# Back ends

A program is solved by handing it over and reading the answer. A program without columns is decided without asking: its rows are
all zero.

## Answers

A back end answers a code, a message and perhaps a point. The code says why it stopped; a limit was one of time if the message
says so, and an error means that the program is infeasible or unbounded if the message says so. The point counts if the back end
found an optimum or ran into a limit.

## Requests

A back end takes programs in matrix form and minimises. A program without integer columns is handed over with its rows split
into equalities and upper bounds (`SplitRows`): a row whose bounds agree is an equality, any other row is an upper bound for each
of its finite bounds, negated for a lower one. A program with integer columns keeps its rows as they are.
-/

namespace RobustLP

/-! ## Answers -/

/-- What a back end answers. -/
structure BackendAnswer (K : Type) where
  code : Option Int
  message : String
  /-- the point, which may turn out to be unreadable -/
  point : Option (Except Error (List K)) := none
  /-- the number of iterations, which may turn out to be none -/
  iterations : Option (Except Error Int) := none

namespace BackendAnswer

variable {K B : Type} [Bound B] [Scalar K B]

/-- A text contains another one, whatever the letter case. -/
def mentions (part text : String) : Bool := ((Text.lower text).splitOn part).length > 1

/-- Why a back end stopped, by its code. -/
def ofCode : Option Int → Termination
  | some 0 => .optimal
  | some 1 => .iterationLimit
  | some 2 => .infeasible
  | some 3 => .unbounded
  | some 4 => .error
  | _ => .unknown

/-- **Why a back end stopped.** -/
def termination (a : BackendAnswer K) : Termination :=
  match ofCode a.code with
  | .iterationLimit => if mentions "time" a.message then .maxTimeLimit else .iterationLimit
  | .error =>
    if mentions "unbounded or infeasible" a.message || mentions "infeasible or unbounded" a.message then
      .infeasibleOrUnbounded
    else .error
  | t => t

/-- The kind of the point with which a back end stopped; none if the point does not count. -/
def statusOf : Termination → Option PointStatus
  | .optimal => some .optimal
  | .maxTimeLimit | .iterationLimit => some .feasible
  | _ => none

/-- **The results of a solve.** -/
def results (solver : String) (p : LinearProgram K B) (a : BackendAnswer K) : Except Error (SolverResults K) := do
  let iterations ← a.iterations.mapM id
  let base : SolverResults K := { termination := a.termination, iterations, solver := some solver }
  match a.point, statusOf a.termination with
  | some point, some status =>
    let x ← point
    return { base with status, point := some x, objective := some (← (p.objectiveValue x).mapError .fault) }
  | _, _ => return base

/-- Zero lies within bounds. -/
def admitsZero (lower upper : B) : Bool :=
  let zero : B := Scalar.bound (Scalar.zero : K)
  Bound.le lower zero && Bound.le zero upper

/-- **The results of a program without columns.** -/
def trivialResults (solver : String) (p : LinearProgram K B) : SolverResults K :=
  if (p.rows.lower.zip p.rows.upper).all fun (l, u) => admitsZero (K := K) l u then
    { termination := .optimal, status := .optimal, objective := some p.objective.constant, point := some []
      solver := some solver }
  else { termination := .infeasible, solver := some solver }

end BackendAnswer

/-! ## Requests -/

/-- Rows as equalities and upper bounds. -/
structure SplitRows (K B : Type) where
  atMost : List (List K × B) := []
  equal : List (List K × B) := []
  deriving Repr

/-- Rows with a lower and an upper bound each. -/
structure RangedRows (K B : Type) where
  matrix : List (List K)
  lower : List B
  upper : List B
  deriving Repr

/-- The rows that a back end is handed, depending on whether there are integer columns. -/
inductive BackendRows (K B : Type) where
  | split (rows : SplitRows K B)
  | ranged (integrality : List Bool) (rows : Option (RangedRows K B))
  deriving Repr

/-- What a back end is handed. -/
structure BackendRequest (K B : Type) where
  /-- the coefficients of what is to be small -/
  cost : List K
  bounds : List (B × B)
  rows : BackendRows K B
  options : List (String × Value)

namespace SplitRows

variable {K B : Type} [Bound B] [Scalar K B]

/-- The opposite of a row. -/
def negated (row : List K) : List K := row.map fun a => -a

/-- The upper bounds that a row stands for. -/
def bounding (row : List K) (lower upper : B) : List (List K × B) :=
  (if Bound.isUpper upper then [(row, upper)] else [])
    ++ if Bound.isLower lower then [(negated row, Bound.neg lower)] else []

/-- Adds a row. -/
def add (s : SplitRows K B) (r : List K × B × B) : SplitRows K B :=
  let (row, lower, upper) := r
  if Bound.beq lower upper then { s with equal := s.equal ++ [(row, upper)] }
  else { s with atMost := s.atMost ++ bounding row lower upper }

/-- **The rows of a program, split.** -/
def ofProgram (p : LinearProgram K B) : SplitRows K B :=
  (p.matrix.zip (p.rows.lower.zip p.rows.upper)).foldl add {}

end SplitRows

namespace BackendRequest

variable {K B : Type} [Bound B] [Scalar K B]

/-- The objective of a program, to be made small. -/
def costOf (p : LinearProgram K B) : List K :=
  p.objectiveVector.map fun c => Scalar.ofInt p.objective.sense.sign * c

/-- A program has integer columns. -/
def isMixed (p : LinearProgram K B) : Bool := p.columns.any (·.integer)

/-- The rows of a program as they are. -/
def rangedRows (p : LinearProgram K B) : Option (RangedRows K B) :=
  if p.numRows = 0 then none else some { matrix := p.matrix, lower := p.rows.lower, upper := p.rows.upper }

/-- **What a program is handed over as.** -/
def ofProgram (p : LinearProgram K B) (options : List (String × Value)) : BackendRequest K B :=
  { cost := costOf p
    bounds := p.columns.map fun c => (c.lower, c.upper)
    rows := if isMixed p then .ranged (p.columns.map (·.integer)) (rangedRows p) else .split (.ofProgram p)
    options }

end BackendRequest

/-! ## Solving -/

variable {K B : Type} [Bound B] [Scalar K B]

/-- What a back end is asked about a program: nothing if there are no columns. -/
def BackendRequest.ofProgram? (p : LinearProgram K B) (options : List (String × Value)) : Option (BackendRequest K B) :=
  if p.numColumns = 0 then none else some (.ofProgram p options)

/-- **Solves a program through a back end,** which answers what it is handed or fails with a text: the results, and the
message of the back end if it was asked. -/
def LinearProgram.solveThrough (backend : BackendRequest K B → Except String (BackendAnswer K)) (solver : String)
    (options : List (String × Value)) (p : LinearProgram K B) : Except Error (SolverResults K × Option String) :=
  match BackendRequest.ofProgram? p options with
  | none => .ok (BackendAnswer.trivialResults solver p, none)
  | some request =>
    match backend request with
    | .error text => .error (.backendFailed (p.name.getD "None") text)
    | .ok a => do return (← a.results solver p, some a.message)

end RobustLP
