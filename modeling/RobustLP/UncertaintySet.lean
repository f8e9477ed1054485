import RobustLP.Forest
import RobustLP.Program

/-!
# Uncertainty sets

An uncertainty set is a polyhedron in the space of the parameters, given by bounds, inequality rows and equality rows;
some parameters may be integers. It is a snapshot of what a model declares (`UncertaintySet.ofModel`), and can be seen
as a test of points (`contains`) and as a linear program (`toProgram`).

## Components

Two parameters belong to the same component when they occur, directly or through others, in a common row. A constraint
that uses some parameters only needs the part of the set that concerns their components (`restrict`).
-/

namespace RobustLP

/-- A polyhedron in the space of the parameters. -/
structure UncertaintySet (K B : Type) where
  lower : List B
  upper : List B
  integer : List Bool
  names : List String
  atMostRows : List (List K) := []
  atMostBounds : List B := []
  equalRows : List (List K) := []
  equalBounds : List B := []
  deriving Repr

/-- The part of a set that concerns some parameters: rows restricted to their columns. -/
structure RestrictedSet (K B : Type) where
  atMostRows : List (List K)
  atMostBounds : List B
  equalRows : List (List K)
  equalBounds : List B
  lower : List B
  upper : List B
  deriving Repr

namespace UncertaintySet

variable {K B : Type} [Bound B] [Scalar K B]

/-- The number of parameters. -/
def numParameters (s : UncertaintySet K B) : Nat := s.lower.length

/-! ## Building -/

/-- The first position at which bounds contradict each other. -/
def firstContradiction (lower upper : List B) : Option (Nat × B × B) :=
  ((lower.zip upper).zipIdx.find? fun (b, _) => Bound.lt b.2 b.1).map fun (b, k) => (k, b.1, b.2)

/-- Refuses bounds of different lengths and contradictory bounds. -/
def checkBounds [Written B] (lower upper : List B) : Except Error Unit := do
  if upper.length ≠ lower.length then throw (.setBoundsLength lower.length upper.length)
  match firstContradiction lower upper with
  | some (k, l, u) => throw (.setBounds (Written.plain l) k (Written.plain u))
  | none => return ()

/-- The coefficients of a form, one for each of `n` parameters. -/
def denseForm (n : Nat) (f : Form K) : List K := LinearProgram.denseRow n f.linear

/-- The rows of a constraint of the set: one equality, or up to two inequalities. -/
def addConstraint (s : UncertaintySet K B) (row : List K) (lower upper : B) : UncertaintySet K B :=
  if Bound.beq lower upper then
    { s with equalRows := s.equalRows ++ [row], equalBounds := s.equalBounds ++ [upper] }
  else
    let s := if Bound.isUpper upper then
      { s with atMostRows := s.atMostRows ++ [row], atMostBounds := s.atMostBounds ++ [upper] } else s
    if Bound.isLower lower then
      { s with
        atMostRows := s.atMostRows ++ [row.map (-·)]
        atMostBounds := s.atMostBounds ++ [Bound.neg lower] }
    else s

/-- **The uncertainty set that a model declares.** -/
def ofModel [Written K] [Written B] (naming : Naming) (m : Model K B) : Except Error (UncertaintySet K B) := do
  let n := m.parameters.length
  let lower := m.parameters.map (·.lower.value)
  let upper := m.parameters.map (·.upper.value)
  let start : UncertaintySet K B :=
    { lower, upper
      integer := m.parameters.map (·.domain.isInteger)
      names := (List.range n).map m.parameterName }
  let s ← m.setConstraints.foldlM (fun s c => do
    let f ← Quantity.uncertainForm naming (.expr c.body)
    return addConstraint s (denseForm n f) (Scalar.shift c.lower f.constant) (Scalar.shift c.upper f.constant))
    start
  checkBounds lower upper
  return s

/-! ## Points -/

/-- The value of a row at a point. -/
def rowValue (row u : List K) : Except Fault K :=
  if row.length = u.length then .ok (LinearProgram.total (List.zipWith (· * ·) row u)) else .error .badValue

/-- A value is at most a bound, up to a tolerance. -/
def atMost (tol : K) (value : K) (b : B) : Bool := !Bound.lt (Scalar.shift b (-tol)) (Scalar.bound value)

/-- A value is at least a bound, up to a tolerance. -/
def atLeast (tol : K) (value : K) (b : B) : Bool := !Bound.lt (Scalar.bound value) (Scalar.shift b tol)

/-- A value equals a bound, up to a tolerance. -/
def near (tol : K) (value : K) (b : B) : Bool :=
  let e := Scalar.excess value b
  !(Bound.lt (Scalar.bound tol) e || Bound.lt e (Scalar.bound (-tol)))

/-- A value is an integer, up to a tolerance. -/
def nearInteger (tol : K) (value : K) : Bool := !Scalar.lt tol (Scalar.abs (value - Scalar.round value))

/-- The values of rows stand in a relation to their bounds. -/
def rowsHold (relation : K → B → Bool) (rows : List (List K)) (bounds : List B) (u : List K) :
    Except Fault Bool := do
  if bounds.isEmpty then return true
  let values ← rows.mapM fun row => rowValue row u
  return (← LinearProgram.pairUp values bounds).all fun (a, b) => relation a b

/-- **A point lies in the set, up to a tolerance.** -/
def contains (s : UncertaintySet K B) (tol : K) (u : List K) : Except Error Bool := do
  if u.length ≠ s.numParameters then throw (.pointSize u.length s.numParameters)
  if !(List.zipWith (atLeast tol) u s.lower).all id then return false
  if !(List.zipWith (atMost tol) u s.upper).all id then return false
  if !(← (rowsHold (atMost tol) s.atMostRows s.atMostBounds u).mapError .fault) then return false
  if !(← (rowsHold (near tol) s.equalRows s.equalBounds u).mapError .fault) then return false
  return (List.zip u s.integer).all fun (x, i) => !i || nearInteger tol x

/-! ## Components -/

/-- The positions of the nonzero entries of a row. -/
def support (row : List K) : List Nat :=
  row.zipIdx.filterMap fun (a, k) => if Scalar.isZero a then none else some k

/-- The parameters, with those that occur in a row joined. -/
def forest (s : UncertaintySet K B) : Forest :=
  (s.atMostRows ++ s.equalRows).foldl (fun f row => f.join (support row)) (Forest.singletons s.numParameters)

/-- The label of each parameter: the root of its group, which is the least parameter of its component. -/
def labels (s : UncertaintySet K B) : List Nat := s.forest.findAll (List.range s.numParameters)

/-- The label of a parameter in a list of labels. -/
def labelOf (labels : List Nat) (k : Nat) : Nat := labels[k]?.getD k

/-- **The components, ordered by their least parameter.** -/
def components (s : UncertaintySet K B) : List (List Nat) :=
  let ls := s.labels
  let members (l : Nat) := (List.range s.numParameters).filter fun k => labelOf ls k == l
  ((List.range s.numParameters).map members).filter fun c => !c.isEmpty

/-- The parameters of the components of some parameters, in order. -/
def componentOf (s : UncertaintySet K B) (wanted : List Nat) : List Nat :=
  ((s.components.filter fun c => c.any wanted.contains).flatten).mergeSort (· ≤ ·)

/-- The entries of a row at some positions. -/
def pickColumns (cols : List Nat) (row : List K) : List K := cols.map fun k => row[k]?.getD Scalar.zero

/-- A row concerns some of the columns and no other one. -/
def liesWithin (cols : List Nat) (row : List K) : Bool :=
  let s := support row
  s.any cols.contains && s.all cols.contains

/-- The rows that lie within some columns, restricted to them, with their bounds. -/
def restrictRows (cols : List Nat) (rows : List (List K)) (bounds : List B) : List (List K) × List B :=
  let kept := (rows.zip bounds).filter fun (row, _) => liesWithin cols row
  (kept.map fun (row, _) => pickColumns cols row, kept.map (·.2))

/-- **The part of the set that concerns some parameters,** which are a union of components. -/
def restrict (s : UncertaintySet K B) (cols : List Nat) : RestrictedSet K B :=
  let (atMostRows, atMostBounds) := restrictRows cols s.atMostRows s.atMostBounds
  let (equalRows, equalBounds) := restrictRows cols s.equalRows s.equalBounds
  { atMostRows, atMostBounds, equalRows, equalBounds
    lower := cols.map fun k => s.lower[k]?.getD Bound.negInf
    upper := cols.map fun k => s.upper[k]?.getD Bound.posInf }

/-- Some parameter is an integer. -/
def hasInteger (s : UncertaintySet K B) : Bool := s.integer.any id

/-! ## As a program -/

/-- A row of the set as coefficients of columns. -/
def sparseRow (row : List K) : List (Nat × K) :=
  row.zipIdx.filterMap fun (a, k) => if Scalar.isZero a then none else some (k, a)

/-- The set as a linear program without objective. -/
def toProgram (s : UncertaintySet K B) (name : Option String) : Except Error (LinearProgram K B) :=
  let columns := (List.range s.numParameters).map fun k =>
    ({ lower := s.lower[k]?.getD Bound.negInf, upper := s.upper[k]?.getD Bound.posInf
       integer := s.integer[k]?.getD false, name := s.names[k]?.getD s!"_col{k}" } : Column B)
  let build : Edit (LinearProgram K B) Unit := do
    (s.atMostRows.zip s.atMostBounds).forM fun (row, b) =>
      discard (LinearProgram.addRow (LinearProgram.given (sparseRow row)) none (some (.ok b)) none)
    (s.equalRows.zip s.equalBounds).forM fun (row, b) =>
      discard (LinearProgram.pushRow (sparseRow row) b b none)
  match build.run { LinearProgram.empty name with columns } with
  | (.ok _, p) => .ok p
  | (.error e, _) => .error e

/-- The lines of a set. -/
def lines [Written B] (s : UncertaintySet K B) : List String :=
  let bounds := (s.lower.zip s.upper).zipIdx.map fun ((l, u), k) =>
    " " ++ Written.plain l ++ " <= " ++ s.names[k]?.getD "" ++ " <= " ++ Written.plain u
  s!"Uncertainty set ({s.numParameters} parameters)" :: bounds
    ++ [s!" {s.atMostBounds.length} inequality rows, {s.equalBounds.length} equality rows"]

end UncertaintySet

end RobustLP
