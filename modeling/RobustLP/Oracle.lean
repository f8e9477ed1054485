import RobustLP.Solver
import RobustLP.UncertaintySet
import RobustLP.Working

/-!
# Oracles

An oracle turns a mixed row into something that a solver can handle. A *dualizing* oracle replaces it once and for all by
auxiliary columns and rows; a *separating* oracle searches for a realization at which a candidate violates it. A third sort
replays answers given beforehand and stands for an oracle about which nothing else is known.

Before it is used an oracle is set up against an uncertainty set; what it then knows is filled in step by step, so that an
oracle whose set-up failed keeps the part that was reached.
-/

namespace RobustLP

/-- What an oracle needs to know of the options of a solve. -/
structure OracleOptions (K : Type) where
  solver : Option SolverId := none
  separationSolver : Option SolverId := none
  /-- violations up to this amount are ignored -/
  tolerance : Option K := none
  deriving Repr

/-- A separating oracle. -/
structure Separator (K B : Type) where
  /-- the solver it was made with -/
  own : Option SolverId := none
  /-- the uncertainty set as program, once it is set up -/
  program : Option (LinearProgram K B) := none
  /-- the solver it uses, once it is set up -/
  solver : Option SolverId := none
  tolerance : Option K
  /-- a point of the uncertainty set, once one has been found -/
  nominal : Option (List K) := none
  /-- the time that one separation may take -/
  allowance : Option (TimeAllowance K) := none

/-- What a replaying oracle answers to one separation. -/
inductive ReplayedSeparation (K B : Type) where
  | found (r : Realization K B)
  | outOfTime (message : String)
  deriving Repr

/-- An oracle that replays answers. -/
structure ReplayedOracle (K B : Type) where
  separating : Bool := false
  /-- setting up fails with this message -/
  setupFailure : Option String := none
  reformulation : Reformulation K B := {}
  /-- the answers to separations, by the source of the row; then none is violated -/
  separations : List (String × List (ReplayedSeparation K B)) := []
  deriving Repr

/-- An oracle. -/
inductive Oracle (K B : Type) where
  /-- reformulates by duality; the set once it is set up -/
  | dualizing (set : Option (UncertaintySet K B))
  /-- separates; `preferred` if it could also reformulate -/
  | separating (preferred : Bool) (s : Separator K B)
  | replaying (r : ReplayedOracle K B)

/-- What an oracle was asked for. -/
inductive OracleCall (K B : Type) where
  | setup (oracle : OracleId)
  | reformulate (oracle : OracleId) (row : MixedRow K B)
  | separate (oracle : OracleId) (row : MixedRow K B) (point : Option (List K))
  deriving Repr

/-- An oracle is driven by separation. -/
def Oracle.usesSeparation {K B : Type} : Oracle K B → Bool
  | dualizing _ => false
  | separating .. => true
  | replaying r => r.separating

/-- Tells an oracle how much time its separations may take. -/
def Oracle.allow {K B : Type} (allowance : Option (TimeAllowance K)) : Oracle K B → Oracle K B
  | separating preferred s => separating preferred { s with allowance }
  | o => o

end RobustLP
