import RobustLP.Script.Session

/-!
# Formulas and values for symbols

Arguments of a step may be formulas: a list that begins with the name of an operation, followed by its operands. Any other
tree stands for itself. `evaluate` computes a formula with the operators of the library, operands from left to right.

Values for symbols come in three forms (`Assignment`): by position, by symbol, or as a point.
-/

namespace RobustLP.Script

/-- The entry at a position. -/
def nth {α : Type} (xs : List α) (i : Nat) : Except Fault α :=
  match xs[i]? with
  | some x => .ok x
  | none => .error .noIndex

/-! ## Values for symbols -/

/-- Values for symbols. -/
inductive Assignment where
  /-- the current values of variables -/
  | current
  /-- by position -/
  | list (vs : List Value)
  /-- by symbol -/
  | map (vs : List (Operand × Value))
  /-- a point, by position -/
  | point (xs : List Float)

namespace Assignment

/-- Reads an assignment. -/
def read (d : Data) : Step Assignment := do
  match d with
  | .null => return .current
  | .list xs => return .list (xs.map Data.number)
  | d =>
    if d.has "map" then
      let entries ← (d.field "map").items.mapM fun e => do
        match e.items with
        | [k, v] => return (← Step.asOperand (← Step.lookup k.textD), v.number)
        | _ => Step.noAttribute
      return .map entries.reverse
    else return .point (← Step.lift (Data.floats (d.field "realization")))

/-- The value of the first entry with some property. -/
def entryFor (test : Operand → Bool) (entries : List (Operand × Value)) : Except Fault Value :=
  match entries.find? fun e => test e.1 with
  | some (_, v) => .ok v
  | none => .error .noKey

/-- An operand is a given variable. -/
def isDecision (v : Variable) : Operand → Bool
  | .decision w => v == w
  | _ => false

/-- An operand is a given parameter. -/
def isParameter (u : Parameter) : Operand → Bool
  | .parameter w => u == w
  | _ => false

/-- What is given for a variable. -/
def givenVariable (models : Catalog Float Float) (a : Assignment) (v : Variable) : Except Fault Value :=
  match a with
  | current => (models.currentValue v).map .float
  | list vs => nth vs v.index
  | map es => entryFor (isDecision v) es
  | point xs => (nth xs v.index).map .float

/-- What is given for a parameter. -/
def givenParameter (a : Assignment) (u : Parameter) : Except Fault Value :=
  match a with
  | current => .error .noAttribute
  | list vs => nth vs u.index
  | map es => entryFor (isParameter u) es
  | point xs => (nth xs u.index).map .float

/-- The value of a variable. -/
def ofVariable (models : Catalog Float Float) (a : Assignment) (v : Variable) : Except Fault Float := do
  (← a.givenVariable models v).operand

/-- The value of a parameter. -/
def ofParameter (a : Assignment) (u : Parameter) : Except Fault Float := do (← a.givenParameter u).operand

end Assignment

/-! ## Terms -/

/-- Pairs of a symbol and a number. -/
def symbolTerms (d : Data) : Step (List (Operand × Value)) :=
  d.items.mapM fun t => do
    match t.items with
    | [k, c] => return (← Step.asOperand (← Step.lookup k.textD), c.number)
    | _ => Step.noAttribute

/-- Terms in symbols of one sort; all numbers are read before a symbol is looked at. -/
def floatTerms {α : Type} (pick : Operand → Option α) (terms : List (Operand × Value)) : Step (List (α × Float)) := do
  let read ← terms.mapM fun (o, c) => do return (o, ← Step.lift c.readFloat)
  read.mapM fun (o, c) => match pick o with
    | some a => return (a, c)
    | none => Step.noAttribute

/-- The variable that an operand is. -/
def asVariable? : Operand → Option Variable
  | .decision v => some v
  | _ => none

/-- The parameter that an operand is. -/
def parameter? : Operand → Option Parameter
  | .parameter u => some u
  | _ => none

/-- An affine form in symbols of one sort. -/
def affineOf {S : Type} [Symbol S] (pick : Operand → Option S) (constant terms : Data) : Step (Affine S Float) := do
  let terms ← floatTerms pick (← symbolTerms terms)
  let c ← Step.lift constant.number.readFloat
  Step.expr (Affine.ofTerms c terms)

/-- An operand as coefficient of a variable. -/
def coefficientOf (o : Operand) : Step (Affine Parameter Float) := do
  match o with
  | .expr (.uncertain e) => return e
  | .plain v => if v.isNumeric then return .ofConstant (← Step.fault v.operand) else Step.noAttribute
  | _ => Step.noAttribute

/-- A full form of terms and a constant. -/
def fullOf (terms : List (Operand × Operand)) (constant : Operand) : Step Operand := do
  let terms ← terms.mapM fun (v, o) => do
    let e ← coefficientOf o
    match v with
    | .decision v => return (v, e)
    | _ => Step.noAttribute
  let c ← match constant with
    | .plain .none => pure (.ofConstant 0)
    | o => coefficientOf o
  return .expr (.full (← Step.expr (Full.ofTerms terms c)))

/-! ## Operations -/

/-- The text of a plain argument, as double where it stands for one. -/
def numberOf (d : Data) : Step Operand := do
  match d.number with
  | .float x => return .plain (.float x)
  | v => return .plain (.float (← Step.lift v.readFloat))

/-- The operation of one operand with a name. -/
def unary (name : String) (a : Operand) : Step Operand := do
  match name, a with
  | "neg", a => Step.expr a.negate
  | "pos", a => Step.expr a.posit
  | "norm", .expr e => return .expr (← Step.fault e.normalized)
  | "body", .constraint c => return .expr c.body
  | _, _ => Step.noAttribute

/-- The operation of two operands with a name. -/
def binary (name : String) (a b : Operand) : Step Operand :=
  match name with
  | "+" => Step.expr (a.apply .add b)
  | "-" => Step.expr (a.apply .sub b)
  | "*" => Step.expr (a.apply .mul b)
  | "/" => Step.expr (a.apply .div b)
  | "<=" => Step.expr (a.compare .atMost b)
  | ">=" => Step.expr (a.compare .atLeast b)
  | "==" => Step.expr (a.compare .equal b)
  | _ => Step.noAttribute

/-- A full form at values of its parameters. -/
def specialized (a : Operand) (values : Data) : Step Operand := do
  let values ← Assignment.read values
  match a with
  | .expr (.full e) => return .expr (.linear (← Step.fault (e.specialize values.ofParameter)))
  | _ => Step.noAttribute

/-! ## Evaluation -/

mutual

/-- **Evaluates a formula.** -/
def evaluate : Data → Step Operand
  | .list [.text name, .list xs] =>
    match name with
    | "sum" => do Step.expr (Operand.sum (← evaluateAll xs))
    | "num" => numberOf (.list xs)
    | "str" => return .plain (Data.list xs).raw
    | name => do unary name (← evaluate (.list xs))
  | .list [.text name, a] =>
    match name with
    | "ref" => do Step.asOperand (← Step.lookup a.textD)
    | "num" => numberOf a
    | "str" => return .plain a.raw
    | "sum" => Step.expr (Operand.sum [])
    | name => do unary name (← evaluate a)
  | .list [.text name, a, b] =>
    match name with
    | "lin" => do return .expr (.linear (← affineOf asVariable? a b))
    | "unc" => do return .expr (.uncertain (← affineOf parameter? a b))
    | "specialize" => do specialized (← evaluate a) b
    | "full" => do
      let terms ← evaluateTermsOf a
      fullOf terms (← evaluate b)
    | name => do
      let left ← evaluate a
      binary name left (← evaluate b)
  | .list [.text "ineq", l, b, u] => do
    let lower ← evaluate l
    let body ← evaluate b
    let upper ← evaluate u
    Step.lift (Operand.range lower body upper)
  | .list (.text _ :: _) => Step.noAttribute
  | d => return .plain d.raw

/-- Evaluates several formulas. -/
def evaluateAll : List Data → Step (List Operand)
  | [] => return []
  | x :: xs => do
    let a ← evaluate x
    return a :: (← evaluateAll xs)

/-- Evaluates the terms of a full form. -/
def evaluateTermsOf : Data → Step (List (Operand × Operand))
  | .list ts => evaluateTerms ts
  | _ => return []

/-- Evaluates pairs of a symbol and a formula. -/
def evaluateTerms : List Data → Step (List (Operand × Operand))
  | [] => return []
  | .list [k, e] :: ts => do
    let v ← Step.asOperand (← Step.lookup k.textD)
    let c ← evaluate e
    return (v, c) :: (← evaluateTerms ts)
  | _ => Step.noAttribute

end

/-- The formula in a field. -/
def formulaIn (d : Data) (key : String) : Step Operand := evaluate (d.field key)

/-- The formula in a field as number or expression. -/
def quantityIn (d : Data) (key : String) : Step (Quantity Float) := do Step.lift (← formulaIn d key).asQuantity

end RobustLP.Script
