import RobustLP.Value.Reading

/-!
# Domains of variables and parameters

A domain is an interval, of real numbers or of integers. Its own limits are the whole numbers zero and one; where a
limit is written, one that was given shows a fraction and one of a domain does not (`Limit.text`).
-/

namespace RobustLP

/-- The domains. -/
inductive Domain where
  | reals
  | nonNegativeReals
  | integers
  | nonNegativeIntegers
  | binary
  deriving DecidableEq, Repr, Inhabited

namespace Domain

/-- The name of a domain. -/
def name : Domain → String
  | reals => "Reals"
  | nonNegativeReals => "NonNegativeReals"
  | integers => "Integers"
  | nonNegativeIntegers => "NonNegativeIntegers"
  | binary => "Binary"

/-- All domains. -/
def all : List Domain := [reals, nonNegativeReals, integers, nonNegativeIntegers, binary]

/-- The domain of a name. -/
def ofName? (s : String) : Option Domain := all.find? fun d => d.name == s

/-- Only integers belong to the domain. -/
def isInteger : Domain → Bool
  | integers | nonNegativeIntegers | binary => true
  | reals | nonNegativeReals => false

/-- The least number of a domain. -/
def least? : Domain → Option Int
  | reals | integers => none
  | nonNegativeReals | nonNegativeIntegers | binary => some 0

/-- The greatest number of a domain. -/
def greatest? : Domain → Option Int
  | binary => some 1
  | _ => none

/-- A value lies in the interval of a domain; an undefined number does not. -/
def inInterval (d : Domain) (v : Value) : Except Fault Bool :=
  match v with
  | .float x =>
    if x.isNaN then .ok false
    else .ok ((match d.least? with
        | some n => x ≥ Decimal.ofIntSaturating n
        | none => true)
      && (match d.greatest? with
        | some n => x ≤ Decimal.ofIntSaturating n
        | none => true))
  | v =>
    match v.rational? with
    | some q =>
      .ok ((match d.least? with
          | some n => (n : Rat) ≤ q
          | none => true)
        && (match d.greatest? with
          | some n => q ≤ (n : Rat)
          | none => true))
    | none => .error .badType

/-- A value belongs to a domain. -/
def contains (d : Domain) (v : Value) : Except Fault Bool := do
  if !(← d.inInterval v) then return false
  if !d.isInteger then return true
  match v.toFloat with
  | .ok x => return Decimal.isIntegral x
  | .error e => throw e.fault

end Domain

/-- A bound of a variable or parameter, with its provenance. -/
structure Limit (B : Type) where
  value : B
  /-- the bound is that of the domain -/
  own : Bool := false
  deriving Repr

namespace Limit

variable {K B : Type} [Bound B] [Scalar K B]

/-- The text of a limit: those of a domain are whole numbers. -/
def text [Written B] (l : Limit B) : String :=
  if l.own then Written.clamped l.value else Written.plain l.value

/-- The larger of a given lower bound and that of the domain; the given one if they are equal. -/
def lower (b : B) (least : Option B) : Limit B :=
  match least with
  | some d => if Bound.lt b d then ⟨d, true⟩ else ⟨b, false⟩
  | none => ⟨b, false⟩

/-- The smaller of a given upper bound and that of the domain; the given one if they are equal. -/
def upper (b : B) (greatest : Option B) : Limit B :=
  match greatest with
  | some d => if Bound.lt d b then ⟨d, true⟩ else ⟨b, false⟩
  | none => ⟨b, false⟩

end Limit

end RobustLP
