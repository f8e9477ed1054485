import RobustLP.Expr.Normal
import RobustLP.Expr.Print

/-!
# Structural equality

Two quantities are structurally equal when their simplest kinds agree, term by term. `Canonical` is a description of the
simplest kind that holds no symbols, only their sort, position and name; equality of descriptions is the second way to
compare expressions, and `Canonical.close` compares their numbers up to a number of decimal places.
-/

namespace RobustLP

variable {S K B : Type} [Symbol S] [Scalar K B]

/-! ## Equality of expressions -/

/-- Two lists agree entry by entry. -/
def allAgree {α β : Type} (agree : α → β → Bool) : List α → List β → Bool
  | [], [] => true
  | a :: as, b :: bs => agree a b && allAgree agree as bs
  | _, _ => false

/-- Two normal forms agree. -/
def Affine.agrees [BEq S] (a b : Affine S K) : Bool :=
  Scalar.beq a.constant b.constant
    && allAgree (fun s t => s.1 == t.1 && Scalar.beq s.2 t.2) a.terms b.terms

/-- Two normal coefficients agree; one without parameters is a number. -/
def Full.coefAgrees (a b : Affine Parameter K) : Bool := a.agrees b

/-- **Structural equality.** -/
def Quantity.equal (a b : Quantity K) : Except Fault Bool := do
  match ← a.reduce, ← b.reduce with
  | .number x, .number y => return Scalar.beq x y
  | .expr (.linear a), .expr (.linear b) => return a.agrees b
  | .expr (.uncertain a), .expr (.uncertain b) => return a.agrees b
  | .expr (.full a), .expr (.full b) =>
    return a.terms.length == b.terms.length && Full.coefAgrees a.constant b.constant
      && allAgree (fun s t => s.1 == t.1 && Full.coefAgrees s.2 t.2) a.terms b.terms
  | _, _ => return false

/-! ## Descriptions -/

/-- The sort, position and name of a symbol. -/
structure SymbolKey where
  sort : String
  index : Nat
  name : String
  deriving DecidableEq, Repr

/-- A number or a form in the parameters, described. -/
inductive CanonicalForm (K : Type) where
  | constant (x : K)
  | affine (kind : String) (terms : List (SymbolKey × K)) (constant : K)
  deriving Repr

/-- A quantity, described. -/
inductive Canonical (K : Type) where
  | form (f : CanonicalForm K)
  | full (terms : List (SymbolKey × CanonicalForm K)) (constant : CanonicalForm K)
  deriving Repr

/-- What a description consists of. -/
inductive Leaf (K : Type) where
  | word (s : String)
  | position (n : Nat)
  | number (x : K)
  deriving Repr

namespace Canonical

/-- The key of a variable. -/
def ofVariable (naming : Naming) (v : Variable) : SymbolKey := ⟨"Variable", v.index, naming.ofVariable v⟩

/-- The key of a parameter. -/
def ofParameter (naming : Naming) (u : Parameter) : SymbolKey :=
  ⟨"UncertainParam", u.index, naming.ofParameter u⟩

/-- The description of a normal form. -/
def ofAffine (kind : String) (key : S → SymbolKey) (e : Affine S K) : CanonicalForm K :=
  if e.terms.isEmpty then .constant e.constant
  else .affine kind (e.terms.map fun t => (key t.1, t.2)) e.constant

/-- The description of a coefficient. -/
def ofCoefficient (naming : Naming) (e : Affine Parameter K) : CanonicalForm K :=
  ofAffine "uncertain" (ofParameter naming) e

/-- The description of a quantity. -/
def ofQuantity (naming : Naming) (q : Quantity K) : Except Fault (Canonical K) := do
  match ← q.reduce with
  | .number x => return .form (.constant x)
  | .expr (.linear e) => return .form (ofAffine "linear" (ofVariable naming) e)
  | .expr (.uncertain e) => return .form (ofCoefficient naming e)
  | .expr (.full e) =>
    return .full (e.terms.map fun t => (ofVariable naming t.1, ofCoefficient naming t.2))
      (ofCoefficient naming e.constant)

/-- Two forms agree. -/
def formAgrees : CanonicalForm K → CanonicalForm K → Bool
  | .constant x, .constant y => Scalar.beq x y
  | .affine k ts c, .affine l us d =>
    k == l && allAgree (fun s t => s.1 == t.1 && Scalar.beq s.2 t.2) ts us && Scalar.beq c d
  | _, _ => false

/-- Two descriptions agree. -/
def agrees : Canonical K → Canonical K → Bool
  | .form f, .form g => formAgrees f g
  | .full ts c, .full us d =>
    allAgree (fun s t => s.1 == t.1 && formAgrees s.2 t.2) ts us && formAgrees c d
  | _, _ => false

/-- The leaves of a key. -/
def keyLeaves (k : SymbolKey) : List (Leaf K) := [.word k.sort, .position k.index, .word k.name]

/-- The leaves of a form. -/
def formLeaves : CanonicalForm K → List (Leaf K)
  | .constant x => [.word "constant", .number x]
  | .affine kind terms c =>
    .word kind :: (terms.flatMap fun t => keyLeaves t.1 ++ [.number t.2]) ++ [.number c]

/-- The leaves of a description, in order. -/
def leaves : Canonical K → List (Leaf K)
  | .form f => formLeaves f
  | .full terms c =>
    .word "full" :: (terms.flatMap fun t => keyLeaves t.1 ++ formLeaves t.2) ++ formLeaves c

/-- Two leaves agree, numbers as far as `near` tells. -/
def leafClose (near : K → K → Bool) : Leaf K → Leaf K → Bool
  | .word a, .word b => a == b
  | .position a, .position b => a == b
  | .number x, .number y => near x y
  | _, _ => false

/-- Two descriptions have the same leaves up to near numbers. -/
def close (near : K → K → Bool) (a b : Canonical K) : Bool :=
  allAgree (leafClose near) a.leaves b.leaves

end Canonical

end RobustLP
