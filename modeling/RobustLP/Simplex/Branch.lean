import RobustLP.Program
import RobustLP.Simplex.Optimum

/-!
# Branch and bound

A program is minimised without regard to integrality first. If an integer column then has a fractional value, two programs take
its place, in which the column is at most the value rounded down and at least the value rounded up. A program whose optimum is
not better than the best point found so far is dropped.
-/

namespace RobustLP.Simplex

/-! ## The tableau of a program -/

/-- Where a column starts: at its bound next to zero, or at zero. -/
def Interval.start (b : Interval) : Rat :=
  match b.lower, b.upper with
  | .finite l, .finite u => if (if u < 0 then -u else u) < (if l < 0 then -l else l) then u else l
  | .finite l, _ => l
  | _, .finite u => u
  | _, _ => 0

/-- The bounds contradict each other. -/
def Interval.isEmpty (b : Interval) : Bool := b.upper.lt b.lower

/-- The bounds of the columns of a program. -/
def columnBounds (p : LinearProgram Rat ExtRat) : List Interval :=
  p.columns.map fun c => { lower := c.lower, upper := c.upper }

/-- The bounds of the rows of a program. -/
def rowBounds (p : LinearProgram Rat ExtRat) : List Interval :=
  List.zipWith (fun lower upper => { lower, upper }) p.rows.lower p.rows.upper

/-- **The tableau of a program** with given bounds of the columns: the values of its rows are the basic variables. -/
def Tableau.ofProgram (p : LinearProgram Rat ExtRat) (columns : List Interval) : Tableau :=
  let point := columns.map Interval.start
  let value (j : Nat) : Rat := point[j]?.getD 0
  { bounds := columns ++ rowBounds p
    point := point ++ p.rows.coefs.map (Terms.eval value)
    equations := p.rows.coefs.zipIdx.map fun (terms, i) => { basic := p.numColumns + i, terms } }

/-- The form that is to be small. -/
def costs (p : LinearProgram Rat ExtRat) : Terms :=
  match p.objective.sense with
  | .minimize => p.objective.terms
  | .maximize => Terms.scaled (-1) p.objective.terms

/-! ## Integrality -/

/-- How far an integer column may be from an integer. -/
def integrality : Rat := 1 / 1000000

/-- The value is no integer. -/
def isFractional (q : Rat) : Bool :=
  let d := q - roundEven q
  integrality < d || d < -integrality

/-- The integer columns of a program. -/
def integerColumns (p : LinearProgram Rat ExtRat) : List Nat :=
  p.columns.zipIdx.filterMap fun (c, j) => if c.integer then some j else none

/-- The bounds of two programs that together hold all integral points, but not the value of a column. -/
def halves (columns : List Interval) (j : Nat) (q : Rat) : List (List Interval) :=
  let b := columns[j]?.getD { lower := .negInf, upper := .posInf }
  [columns.set j { b with upper := .finite q.floor }, columns.set j { b with lower := .finite (q.floor + 1) }]

/-! ## Searching -/

/-- The limit on the number of programs. -/
def programLimit : Nat := 5000

/-- A point with its cost. -/
structure Incumbent where
  cost : Rat
  point : List Rat
  deriving Repr

/-- The point of smallest cost of programs that differ in the bounds of their columns, or an earlier point. -/
def search (p : LinearProgram Rat ExtRat) : Nat → List (List Interval) → Option Incumbent → Result Incumbent
  | 0, _, _ => .exhausted
  | _ + 1, [], none => .contradictory
  | _ + 1, [], some best => .found best
  | n + 1, columns :: rest, best =>
    if columns.any Interval.isEmpty then search p n rest best
    else match (Tableau.ofProgram p columns).minimize (costs p) with
    | .contradictory => search p n rest best
    | .unbounded => .unbounded
    | .exhausted => .exhausted
    | .found t =>
      let cost := (costs p).eval t.valueOf
      if best.any (·.cost ≤ cost) then search p n rest best
      else match (integerColumns p).find? fun j => isFractional (t.valueOf j) with
        | none => search p n rest (some { cost, point := t.point.take p.numColumns })
        | some j => search p n (halves columns j (t.valueOf j) ++ rest) best

/-- **The optimal point of a program.** -/
def solve (p : LinearProgram Rat ExtRat) : Result (List Rat) :=
  if (rowBounds p).any Interval.isEmpty then .contradictory
  else match search p programLimit [columnBounds p] none with
  | .found best => .found best.point
  | .contradictory => .contradictory
  | .unbounded => .unbounded
  | .exhausted => .exhausted

end RobustLP.Simplex
