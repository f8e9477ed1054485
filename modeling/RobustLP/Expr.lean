import RobustLP.Scalar

/-!
# Affine expressions

Two sorts of symbols occur in expressions: decision variables and uncertain parameters. An `Affine S K` is a sum of
coefficients times symbols of one sort plus a constant; a `Full K` is a sum of variables whose coefficients, and whose
constant, are affine in the parameters. `Expr K` is an expression of any of these kinds, `Quantity K` an expression or
a mere number.

## Exact constants

Terms are only concatenated by the operators, so that a symbol may occur several times until an expression is
normalised (`Expr.Normal`). For the same reason the constant of an affine form keeps the list of numbers it is the
sum of (`parts`); `constant` is their rounded running sum, `exactConstant` the sum rounded once.

## Owners

Every symbol belongs to a model. An expression notes the model of its symbols (`owner`), and no operation combines
symbols of different models.
-/

namespace RobustLP

/-- The number of a model. -/
abbrev ModelId := Nat

/-- A decision variable: a position in the tables of its model. -/
structure Variable where
  model : ModelId
  index : Nat
  deriving DecidableEq, Repr, Inhabited

/-- An uncertain parameter: a position in the tables of its model. -/
structure Parameter where
  model : ModelId
  index : Nat
  deriving DecidableEq, Repr, Inhabited

/-- What variables and parameters have in common. -/
class Symbol (S : Type) where
  model : S → ModelId
  index : S → Nat

instance : Symbol Variable := ⟨Variable.model, Variable.index⟩
instance : Symbol Parameter := ⟨Parameter.model, Parameter.index⟩

/-- A sum of coefficients times symbols, plus a constant. -/
structure Affine (S K : Type) where
  terms : List (S × K)
  constant : K
  /-- the numbers whose exact sum is the constant, if it is not a single one -/
  parts : Option (List K) := none
  owner : Option ModelId := none
  deriving Repr

/-- A sum of variables with coefficients affine in the parameters, plus a form in the parameters. -/
structure Full (K : Type) where
  terms : List (Variable × Affine Parameter K)
  constant : Affine Parameter K
  owner : Option ModelId := none
  deriving Repr

/-- An expression. -/
inductive Expr (K : Type) where
  | linear (e : Affine Variable K)
  | uncertain (e : Affine Parameter K)
  | full (e : Full K)
  deriving Repr

/-- A number or an expression. -/
inductive Quantity (K : Type) where
  | number (x : K)
  | expr (e : Expr K)
  deriving Repr

/-- The kinds of expressions. -/
inductive ExprKind where
  | linear
  | uncertain
  | full
  deriving DecidableEq, Repr

/-- Why an operation on expressions is refused. -/
inductive ExprError (K : Type) where
  /-- a sum or a look-up failed -/
  | fault (fault : Fault)
  /-- the operands have symbols of two models -/
  | owners (left right : ModelId)
  /-- a product of non-constant factors that is not affine -/
  | product (left right : Expr K)
  /-- a divisor that is not constant -/
  | divisor (dividend : Quantity K) (divisor : Quantity K)
  /-- a divisor that is zero -/
  | zeroDivisor (dividend : Quantity K)
  deriving Repr

/-- The model that owns the symbols of two expressions together. -/
def joinOwners {K : Type} : Option ModelId → Option ModelId → Except (ExprError K) (Option ModelId)
  | none, b => .ok b
  | a, none => .ok a
  | some a, some b => if a = b then .ok (some a) else .error (.owners a b)

/-- A failing sum as failing operation. -/
def liftFault {K α : Type} : Except Fault α → Except (ExprError K) α
  | .ok a => .ok a
  | .error f => .error (.fault f)

section

variable {S K B : Type} [Symbol S] [Scalar K B]

/-! ## Affine forms -/

namespace Affine

/-- One symbol. -/
def ofSymbol (s : S) : Affine S K :=
  { terms := [(s, Scalar.one)], constant := Scalar.zero, owner := some (Symbol.model s) }

/-- One number. -/
def ofConstant (c : K) : Affine S K := { terms := [], constant := c }

/-- A form from its terms and constant. All symbols must belong to one model. -/
def ofTerms (constant : K) (terms : List (S × K)) : Except (ExprError K) (Affine S K) := do
  let owner ← terms.foldlM (fun owner t => joinOwners owner (some (Symbol.model t.1))) none
  return { terms, constant, owner }

/-- The numbers whose sum is the constant. -/
def constantParts (e : Affine S K) : List K :=
  match e.parts with
  | none => [e.constant]
  | some parts => parts

/-- The constant, rounded once. -/
def exactConstant (e : Affine S K) : Except Fault K :=
  match e.parts with
  | none => .ok e.constant
  | some parts => Scalar.sum parts

/-- Two forms one after the other. -/
def concat (a b : Affine S K) (owner : Option ModelId) : Affine S K :=
  { terms := a.terms ++ b.terms
    constant := a.constant + b.constant
    parts := some (a.constantParts ++ b.constantParts)
    owner }

/-- A form plus a number; zero changes nothing. -/
def addConstant (e : Affine S K) (c : K) : Affine S K :=
  if Scalar.isZero c then e
  else { e with constant := e.constant + c, parts := some (e.constantParts ++ [c]) }

/-- A form times a number. -/
def scale (e : Affine S K) (c : K) : Affine S K :=
  { e with
    terms := e.terms.map fun t => (t.1, t.2 * c)
    constant := e.constant * c
    parts := e.parts.map fun parts => parts.map (· * c) }

/-- The form without its constant, and the constant. -/
def splitConstant (e : Affine S K) : Except Fault (Affine S K × K) := do
  return ({ terms := e.terms, constant := Scalar.zero, owner := e.owner }, ← e.exactConstant)

end Affine

/-! ## Full forms -/

namespace Full

/-- A form from its terms and constant. All symbols must belong to one model. -/
def ofTerms (terms : List (Variable × Affine Parameter K)) (constant : Affine Parameter K) :
    Except (ExprError K) (Full K) := do
  let owner ← terms.foldlM
    (fun owner t => do joinOwners (← joinOwners owner (some t.1.model)) t.2.owner) constant.owner
  return { terms, constant, owner }

/-- Two forms one after the other. -/
def concat (a b : Full K) (owner : Option ModelId) : Except (ExprError K) (Full K) := do
  let constantOwner ← joinOwners a.constant.owner b.constant.owner
  return { terms := a.terms ++ b.terms, constant := a.constant.concat b.constant constantOwner, owner }

/-- A form plus a number. -/
def addConstant (e : Full K) (c : K) : Full K := { e with constant := e.constant.addConstant c }

/-- A form times a number. -/
def scale (e : Full K) (c : K) : Full K :=
  { e with terms := e.terms.map fun t => (t.1, t.2.scale c), constant := e.constant.scale c }

/-- The form without its numeric constant, and that constant. -/
def splitConstant (e : Full K) : Except Fault (Full K × K) := do
  let body := { e with
    constant := { terms := e.constant.terms, constant := Scalar.zero, owner := e.constant.owner } }
  return (body, ← e.constant.exactConstant)

end Full

/-! ## Expressions -/

namespace Expr

/-- The kind of an expression. -/
def kind : Expr K → ExprKind
  | linear _ => .linear
  | uncertain _ => .uncertain
  | full _ => .full

/-- The model that owns the symbols. -/
def owner : Expr K → Option ModelId
  | linear e => e.owner
  | uncertain e => e.owner
  | full e => e.owner

/-- A variable. -/
def ofVariable (v : Variable) : Expr K := .linear (.ofSymbol v)

/-- A parameter. -/
def ofParameter (u : Parameter) : Expr K := .uncertain (.ofSymbol u)

/-- Any expression as full form. -/
def toFull : Expr K → Full K
  | full e => e
  | uncertain e => { terms := [], constant := e, owner := e.owner }
  | linear e =>
    { terms := e.terms.map fun t => (t.1, .ofConstant t.2)
      constant := { terms := [], constant := e.constant, parts := e.parts }
      owner := e.owner }

/-- An expression plus a number. -/
def addConstant (c : K) : Expr K → Expr K
  | linear e => .linear (e.addConstant c)
  | uncertain e => .uncertain (e.addConstant c)
  | full e => .full (e.addConstant c)

/-- An expression times a number. -/
def scale (c : K) : Expr K → Expr K
  | linear e => .linear (e.scale c)
  | uncertain e => .uncertain (e.scale c)
  | full e => .full (e.scale c)

/-- The sum of two expressions; of different kinds, as full forms. -/
def add (a b : Expr K) : Except (ExprError K) (Expr K) := do
  let owner ← joinOwners a.owner b.owner
  match a, b with
  | linear a, linear b => return .linear (a.concat b owner)
  | uncertain a, uncertain b => return .uncertain (a.concat b owner)
  | a, b => return .full (← a.toFull.concat b.toFull owner)

/-- The expression without its numeric constant, and that constant. -/
def splitConstant : Expr K → Except Fault (Expr K × K)
  | linear e => do let (b, c) ← e.splitConstant; return (.linear b, c)
  | uncertain e => do let (b, c) ← e.splitConstant; return (.uncertain b, c)
  | full e => do let (b, c) ← e.splitConstant; return (.full b, c)

end Expr

end

end RobustLP
