import RobustLP.Script.Solves

/-!
# Running sessions

A script is a list of steps; each one has a name and answers a reply. The steps after one that failed run all the same.
-/

namespace RobustLP.Script

/-- A step on models, their symbols and their constraints. -/
def modelStep (name : String) (d : Data) : Option (Step Reply) :=
  match name with
  | "model" => some (makeModel d)
  | "var" => some (declareVariable d)
  | "vars" => some (declareVariables d)
  | "unc" => some (declareParameter d)
  | "uncs" => some (declareParameters d)
  | "set" => some (change d)
  | "show" => some (showEntity d)
  | "in_domain" => some (inDomain d)
  | "con" => some (addConstraint d)
  | "objective" => some (setObjective d)
  | "adapt" => some (setPolicy d)
  | "get_adapt" => some (getPolicy d)
  | "load" => some (loadValues d)
  | "pprint" => some (modelLines d)
  | "handles" => some (modelTables d)
  | "robust_data" => some (robustData d)
  | "set_default_oracle" => some (setDefaultOracle d)
  | _ => none

/-- A step on expressions. -/
def expressionStep (name : String) (d : Data) : Option (Step Reply) :=
  match name with
  | "let" => some (letFormula d)
  | "as_expression" => some (asExpression d)
  | "canon" => some (canonicalOf d)
  | "equal" => some (equalFormulas d)
  | "is_equal" => some (isEqual d)
  | "assert_equal" => some (assertEqual d)
  | "bool" => some (truthOf d)
  | "to_string" => some (expressionText d)
  | "split" => some (splitConstant d)
  | "is_constant" => some (isConstant d)
  | "symbols" => some (symbolsOf d)
  | "eval" => some (valueOf d)
  | "from_constants" => some (fromConstants d)
  | "flatten" => some (flatten d)
  | _ => none

/-- A step on forms, programs, sets and working models. -/
def programStep (name : String) (d : Data) : Option (Step Reply) :=
  match name with
  | "repn" => some (makeForm d)
  | "repn_call" => some (formCall d)
  | "lp" => some (makeProgram d)
  | "lp_call" => some (programCall d)
  | "uset" => some (makeSet d)
  | "uset_call" => some (setCall d)
  | "realization" => some (makeRealization d)
  | "policy" => some (makePolicy d)
  | "working" => some (makeWorking d)
  | "clone_working" => some (cloneWorking d)
  | "expand" => some (expandWorking d)
  | "row" => some (makeRow d)
  | "row_call" => some (rowCall d)
  | "reformulation" => some (makeReformulation d)
  | "inject" => some (injectReformulation d)
  | "add_cut" => some (addCut d)
  | _ => none

/-- A step on solvers, oracles and solves. -/
def solveStepOf (name : String) (d : Data) : Option (Step Reply) :=
  match name with
  | "solver" => some (makeSolver d)
  | "oracle" => some (makeOracle d)
  | "setup" => some (setUpOracle d)
  | "reformulate" => some (reformulateRow d)
  | "separate" => some (separateRow d)
  | "solve" => some (solveModel d)
  | "solve_det" => some (solveDeterministic d)
  | "result_call" => some (resultCall d)
  | _ => none

/-- A step. -/
def step (d : Data) : Step Reply :=
  let name := d.word "do"
  ((modelStep name d <|> expressionStep name d) <|> (programStep name d <|> solveStepOf name d)).getD Step.noAttribute

/-- Runs steps one after another. -/
def runSteps : Session → List Data → List Reply
  | _, [] => []
  | s, d :: rest => match (ExceptT.run (step d)).run s with
    | (.ok r, s) => r :: runSteps s rest
    | (.error f, s) => .failed f [] :: runSteps s rest

/-- **Runs a session.** -/
def runSession (d : Data) : Reply := .record [("results", .list (runSteps {} (d.field "steps").items))]

end RobustLP.Script
