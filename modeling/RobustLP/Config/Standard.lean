import RobustLP.Config
import RobustLP.Solver.Results

/-!
# The dictionaries of options that the library declares

Solvers, branch and bound, the results of solvers, and robust solves. The initial values belong to their domains, so declaring
them cannot fail; an option that did fail would be left out.
-/

namespace RobustLP.Config

/-! ## Declaring -/

/-- A declared option. -/
structure Declared where
  name : String
  initial : Value
  domain : Option OptionDomain

/-- A dictionary with options. -/
def ofDeclared (head : ConfigHead) (options : List Declared) (dicts : List (String × Config)) : Config :=
  let entries := options.filterMap fun o => match make o.initial o.domain with
    | .ok c => some (o.name, c)
    | .error _ => none
  dict { head with declared := (options.map (·.name) ++ dicts.map (·.1)).map key } (entries ++ dicts)

/-- A dictionary that takes any option. -/
def openDict (domain : Option OptionDomain) : Config := dict { isOpen := true, openDomain := domain } []

/-! ## Solvers -/

/-- The options of every solver. -/
def solverOptions : List Declared :=
  [⟨"tee", .bool false, some .bool⟩, ⟨"time_limit", .none, some (.real .nonNegative)⟩]

/-- A dictionary for solvers: what all have, and what some have besides. -/
def forSolver (sort : String) (more : List Declared) : Config :=
  match ofDeclared { sort } solverOptions [("solver_options", openDict none)], ofDeclared {} more [] with
  | dict head entries, dict further more =>
    dict { head with declared := head.declared ++ further.declared } (entries ++ more)
  | c, _ => c

/-- The options of a solver. -/
def solver : Config := forSolver "SolverConfig" []

/-- The gap at which branch and bound stops. -/
def gap : Declared := ⟨"rel_gap", .none, some (.real .nonNegative)⟩

/-- The options of branch and bound. -/
def branchAndBound : Config := forSolver "BranchAndBoundConfig" [gap]

/-- The options of the built-in solver. -/
def highs : Config := forSolver "HighsConfig" [gap, ⟨"presolve", .bool true, some .bool⟩]

/-- A member of an enumeration by its name. -/
def member (e : Enumeration) (name : String) : Value := (e.ofName? name).getD .none

/-- What a solver reports. -/
def solverResults : Config :=
  ofDeclared { sort := "SolverResults" }
    [⟨"termination_condition", member .terminations Termination.unknown.name, some (.enumeration .terminations)⟩,
      ⟨"solution_status", member .pointStatuses PointStatus.noSolution.name, some (.enumeration .pointStatuses)⟩,
      ⟨"incumbent_objective", .none, some (.plain .float)⟩, ⟨"primal", .none, none⟩,
      ⟨"solver_name", .none, some (.plain .str)⟩, ⟨"iteration_count", .none, some (.plain .int)⟩]
    [("timing_info", ofDeclared { isOpen := true } [⟨"wall_time", .none, some (.real .nonNegative)⟩] []),
      ("extra_info", openDict (some (.instanceOf [.any])))]

/-! ## Robust solves -/

/-- The name of the logger of robust solves. -/
def progressLogger : String := "pyrobust.robust"

/-- The options of a robust solve. -/
def robust : Config :=
  ofDeclared {}
    [⟨"solver", .text "highs", some (.solver "solver")⟩,
      ⟨"separation_solver", .none, some (.solver "separation solver")⟩,
      ⟨"max_iter", .int 100, some .limit⟩,
      ⟨"time_limit", .none, some (.real .nonNegative)⟩,
      ⟨"feasibility_tolerance", .float (Scalar.literal 1 6), some (.real .nonNegative)⟩,
      ⟨"separation_workers", .int 1, some (.integer .positive)⟩,
      ⟨"nominal_cuts", .bool true, some .bool⟩,
      ⟨"raise_exception_on_nonoptimal_result", .bool false, some .bool⟩,
      ⟨"load_solution", .bool true, some .bool⟩,
      ⟨"progress_logger", .logger progressLogger, some .logger⟩] []

end RobustLP.Config
