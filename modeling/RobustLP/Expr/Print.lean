import RobustLP.Expr.Normal
import RobustLP.Error

/-!
# Printed expressions

* Integral numbers are printed without a point.
* A term whose coefficient is smaller than `dropBelow` in magnitude is left out; a coefficient of magnitude one is not
  printed.
* The sign of a term is folded into the join (`x - 2 y`).
* A constant is printed if its magnitude is at least `constantFrom`, or if there is nothing else.
* A coefficient that is a form in the parameters stands in parentheses, unless it is a single parameter.
-/

namespace RobustLP

/-- The names of symbols and models at some time. -/
structure Naming where
  ofVariable : Variable → String
  ofParameter : Parameter → String
  ofModel : ModelId → String

namespace Print

variable {K B : Type} [Scalar K B] [Written K]

/-- Terms below this magnitude are not printed. -/
def dropBelow : K := Scalar.literal 1 20

/-- Constants from this magnitude on are printed. -/
def constantFrom : K := Scalar.literal 1 6

/-- A term with its sign set apart. -/
structure Piece where
  negative : Bool
  text : String

/-- Joins terms by their signs. -/
def join : List Piece → String
  | [] => "0"
  | p :: rest =>
    (if p.negative then "-" ++ p.text else p.text)
      ++ String.join (rest.map fun q => (if q.negative then " - " else " + ") ++ q.text)

/-- A number of magnitude one, as far as can be seen. -/
def isUnit (c : K) : Bool := Scalar.le (Scalar.abs (Scalar.abs c - Scalar.one)) dropBelow

/-- The sign of a number. -/
def isNegative (c : K) : Bool := Scalar.lt c Scalar.zero

/-- A number times a name. -/
def term (name : String) (c : K) : Piece :=
  ⟨isNegative c, if isUnit c then name else Written.clamped (Scalar.abs c) ++ " " ++ name⟩

/-- **The text of a sum of numbers times names, plus a constant.** -/
def linear (terms : List (String × K)) (constant : K) (showConstant : Bool) : String :=
  let pieces := (terms.filter fun t => Scalar.le dropBelow (Scalar.abs t.2)).map fun t => term t.1 t.2
  if pieces.isEmpty then if showConstant then Written.clamped constant else "0"
  else if showConstant && Scalar.le constantFrom (Scalar.abs constant) then
    join (pieces ++ [⟨isNegative constant, Written.clamped (Scalar.abs constant)⟩])
  else join pieces

/-- The text of a normal form in the parameters. -/
def form (naming : Naming) (e : Affine Parameter K) (showConstant : Bool) : String :=
  linear (e.terms.map fun t => (naming.ofParameter t.1, t.2)) e.constant showConstant

/-- A form in the parameters times a name; nothing if it is a number that is not printed. -/
def formTerm (naming : Naming) (name : String) (e : Affine Parameter K) : Option Piece :=
  let smallConstant := Scalar.le (Scalar.abs e.constant) dropBelow
  match e.terms with
  | [] => if smallConstant then none else some (term name e.constant)
  | [(u, c)] =>
    if smallConstant && isUnit c then some ⟨isNegative c, naming.ofParameter u ++ " " ++ name⟩
    else some ⟨false, "(" ++ form naming e true ++ ") " ++ name⟩
  | _ => some ⟨false, "(" ++ form naming e true ++ ") " ++ name⟩

/-- The text of a constant as the last piece of a sum. -/
def constantPiece (text : String) : List Piece :=
  if text == "0" then []
  else match text.toList with
    | '-' :: rest => [⟨true, String.ofList rest⟩]
    | _ => [⟨false, text⟩]

/-- The text of a normal full form. -/
def full (naming : Naming) (e : Full K) (showConstant : Bool) : String :=
  let pieces := e.terms.filterMap fun t => formTerm naming (naming.ofVariable t.1) t.2
  if pieces.isEmpty then if showConstant then form naming e.constant true else "0"
  else if showConstant then join (pieces ++ constantPiece (form naming e.constant true))
  else join pieces

/-- **The text of an expression.** -/
def expr (naming : Naming) (showConstant : Bool) : Expr K → Except Fault String
  | .linear e => do
    let n ← e.normalized
    return linear (n.terms.map fun t => (naming.ofVariable t.1, t.2)) n.constant showConstant
  | .uncertain e => do return form naming (← e.normalized) showConstant
  | .full e => do return full naming (← e.normalized) showConstant

/-- The text of a quantity. -/
def quantity (naming : Naming) : Quantity K → Except Fault String
  | .number x => .ok (Written.plain x)
  | .expr e => expr naming true e

end Print

/-- A bound that excludes something, or none. -/
def Print.relation {B : Type} [Bound B] [Written B] (body : String) (lower upper : B) : String :=
  let hasLower := Bound.isLower lower
  let hasUpper := Bound.isUpper upper
  if hasLower && hasUpper then
    if Bound.beq lower upper then body ++ " == " ++ Written.clamped upper
    else Written.clamped lower ++ " <= " ++ body ++ " <= " ++ Written.clamped upper
  else if hasUpper then body ++ " <= " ++ Written.clamped upper
  else if hasLower then body ++ " >= " ++ Written.clamped lower
  else "-inf <= " ++ body ++ " <= inf"

/-- An error of an operation on expressions, in the words of the time. Printing an operand may fail itself; then its
failure is the error. -/
def ExprError.report {K B : Type} [Scalar K B] [Written K] (naming : Naming) : ExprError K → Error
  | .fault f => .fault f
  | .owners a b => .foreignSymbols (naming.ofModel a) (naming.ofModel b)
  | .product a b => texts (Print.expr naming true a) (Print.expr naming true b) .nonlinearProduct
  | .divisor a b => texts (Print.quantity naming a) (Print.quantity naming b) .nonlinearQuotient
  | .zeroDivisor a =>
    match Print.quantity naming a with
    | .ok t => .quotientByZero t
    | .error f => .fault f
where
  /-- Builds an error from two texts, unless one of them fails. -/
  texts (a b : Except Fault String) (build : String → String → Error) : Error :=
    match a, b with
    | .ok a, .ok b => build a b
    | .error f, _ => .fault f
    | _, .error f => .fault f

end RobustLP
