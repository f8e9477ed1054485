import RobustLP.Environment
import RobustLP.Policy
import RobustLP.Solve.Outcome
import RobustLP.Solve.Report

/-!
# Results of a robust solve

Cuts are recorded by the source of their row, in the order in which they were added (`CutTable`).
-/

namespace RobustLP

/-- The realizations that were added as cuts, by the source of their row. -/
abbrev CutTable (K B : Type) := List (RowSource × List (Realization K B))

namespace CutTable

variable {K B : Type}

/-- The cuts of a source. -/
def of (source : RowSource) (t : CutTable K B) : List (Realization K B) :=
  match t.find? (·.1 == source) with
  | some (_, rs) => rs
  | none => []

/-- Records a cut. -/
def record (source : RowSource) (r : Realization K B) (t : CutTable K B) : CutTable K B :=
  if t.any (·.1 == source) then t.map fun e => if e.1 == source then (e.1, e.2 ++ [r]) else e
  else t ++ [(source, [r])]

/-- The number of cuts. -/
def size (t : CutTable K B) : Nat := t.foldr (fun e n => e.2.length + n) 0

end CutTable

/-- The results of a robust solve. -/
structure RobustResults (K B : Type) where
  outcome : Outcome
  path : SolvePath
  /-- the number of programs that were solved -/
  iterations : Nat
  time : K
  objective : Option K := none
  /-- the values of the variables of the model -/
  solution : Option (List K) := none
  /-- what the solver said of the solution, or else the last time -/
  solver : SolverResults K
  cuts : CutTable K B := []
  policies : List (Nat × AffinePolicy K) := []
  timing : TimerTree K

namespace RobustResults

variable {K B : Type} [Scalar K B]

/-- The policy of a variable. -/
def policyOf (naming : Naming) (v : Variable) (r : RobustResults K B) : Except Error (AffinePolicy K) :=
  match r.policies.find? (·.1 == v.index) with
  | some (_, p) => .ok p
  | none => .error (.noPolicy (naming.ofVariable v))

/-- The lines of the summary. -/
def lines [Written K] (r : RobustResults K B) : List String :=
  Report.summary [toString r.iterations, Written.fixed 3 r.time,
    (r.objective.map (Written.scientific 4)).getD "None", r.path.name, r.outcome.name]

end RobustResults

end RobustLP
