import RobustLP.UncertaintySet
import RobustLP.Working

/-!
# Dualizing a mixed row

The upper side of a mixed row, `Σ aⱼ(u) xⱼ + c(u) ≤ h`, holds for every `u` of a polyhedron
`A u ≤ b, E u = f, l ≤ u ≤ h` if there are multipliers `y ≥ 0`, `z`, `w⁺ ≥ 0`, `w⁻ ≥ 0` that bound the part that depends on `u`:
their combination of the right-hand sides takes its place (the *objective row*), and for each parameter their combination
of the columns equals its coefficient (the *dual rows*). The lower side is the upper side of the negated row.

* Only the components of the parameters that occur in the row are dualized.
* There is no multiplier for an infinite bound.
* A dual row without terms and with constant zero is left out.
-/

namespace RobustLP

variable {K B : Type} [Bound B] [Scalar K B]

/-! ## Multipliers -/

/-- The positions at which a test holds. -/
def positionsOf (test : B → Bool) (bs : List B) : List Nat :=
  bs.zipIdx.filterMap fun (b, i) => if test b then some i else none

/-- The part of a set that is dualized, for given parameters, with the tag of the names and the number of auxiliary columns
that come before. -/
structure DualSide (K B : Type) where
  set : RestrictedSet K B
  parameters : List Nat
  tag : String
  offset : Nat

namespace DualSide

/-- The parameters with a finite upper bound, by their positions. -/
def aboves (d : DualSide K B) : List Nat := positionsOf Bound.isUpper d.set.upper

/-- The parameters with a finite lower bound, by their positions. -/
def belows (d : DualSide K B) : List Nat := positionsOf Bound.isLower d.set.lower

/-- The multiplier of an inequality row. -/
def atMostColumn (d : DualSide K B) (i : Nat) : AuxColumn := .auxiliary (d.offset + i)

/-- The multiplier of an equality row. -/
def equalColumn (d : DualSide K B) (i : Nat) : AuxColumn :=
  .auxiliary (d.offset + d.set.atMostBounds.length + i)

/-- The multiplier of the upper bound that comes at some place among the finite ones. -/
def aboveColumn (d : DualSide K B) (place : Nat) : AuxColumn :=
  .auxiliary (d.offset + d.set.atMostBounds.length + d.set.equalBounds.length + place)

/-- The multiplier of the lower bound that comes at some place among the finite ones. -/
def belowColumn (d : DualSide K B) (place : Nat) : AuxColumn :=
  .auxiliary (d.offset + d.set.atMostBounds.length + d.set.equalBounds.length + d.aboves.length + place)

/-- A numbered name. -/
def numbered (tag sort : String) (i : Nat) : String := tag ++ "." ++ sort ++ "[" ++ toString i ++ "]"

/-- A multiplier that is not negative. -/
def nonNegative (name : String) : AuxVariable B :=
  { lower := Scalar.bound (Scalar.zero : K), upper := Bound.posInf, name := some name }

/-- A multiplier of any sign. -/
def free (name : String) : AuxVariable B := { lower := Bound.negInf, upper := Bound.posInf, name := some name }

/-- The parameter at a position. -/
def parameterAt (d : DualSide K B) (position : Nat) : Nat := d.parameters[position]?.getD 0

/-- The multipliers. -/
def auxiliaries (d : DualSide K B) : List (AuxVariable B) :=
  (List.range d.set.atMostBounds.length).map (fun i => nonNegative (K := K) (numbered d.tag "y" i))
    ++ (List.range d.set.equalBounds.length).map (fun i => free (numbered d.tag "z" i))
    ++ d.aboves.map (fun p => nonNegative (K := K) (numbered d.tag "w_up" (d.parameterAt p)))
    ++ d.belows.map (fun p => nonNegative (K := K) (numbered d.tag "w_lo" (d.parameterAt p)))

/-! ## Rows -/

/-- The bound at a position as coefficient. -/
def boundAt (bs : List B) (position : Nat) : K :=
  match bs[position]? with
  | some b => Scalar.coef b
  | none => Scalar.zero

/-- The row in which the multipliers take the place of the parameters. -/
def objectiveRow (d : DualSide K B) (f : MixedForm K) (limit : B) : AuxRow K B :=
  { terms := f.linear.map (fun (j, c) => (AuxColumn.existing j, c.constant))
      ++ d.set.atMostBounds.zipIdx.map (fun (b, i) => (d.atMostColumn i, Scalar.coef b))
      ++ d.set.equalBounds.zipIdx.map (fun (b, i) => (d.equalColumn i, Scalar.coef b))
      ++ d.aboves.zipIdx.map (fun (p, i) => (d.aboveColumn i, boundAt d.set.upper p))
      ++ d.belows.zipIdx.map (fun (p, i) => (d.belowColumn i, -boundAt d.set.lower p))
    lower := Bound.negInf
    upper := Scalar.shift limit f.constant.constant
    name := some (d.tag ++ ".obj") }

/-- The nonzero entries of a matrix column, with the columns of their rows. -/
def columnTerms (column : Nat → AuxColumn) (rows : List (List K)) (position : Nat) : List (AuxColumn × K) :=
  rows.zipIdx.filterMap fun (row, i) =>
    let a := row[position]?.getD Scalar.zero
    if Scalar.isZero a then none else some (column i, a)

/-- The terms of the dual row of a parameter. -/
def dualTerms (d : DualSide K B) (f : MixedForm K) (position parameter : Nat) : List (AuxColumn × K) :=
  columnTerms d.atMostColumn d.set.atMostRows position
    ++ columnTerms d.equalColumn d.set.equalRows position
    ++ (d.aboves.zipIdx.filter fun e => e.1 == position).map (fun (_, i) => (d.aboveColumn i, Scalar.one))
    ++ (d.belows.zipIdx.filter fun e => e.1 == position).map (fun (_, i) => (d.belowColumn i, Scalar.minusOne))
    ++ f.linear.filterMap fun (j, c) => (c.coef? parameter).map fun a => (AuxColumn.existing j, -a)

/-- The dual row of a parameter, unless it says nothing. -/
def dualRow? (d : DualSide K B) (f : MixedForm K) (position parameter : Nat) : Option (AuxRow K B) :=
  let terms := d.dualTerms f position parameter
  let c := (f.constant.coef? parameter).getD Scalar.zero
  if terms.isEmpty && Scalar.isZero c then none
  else some { terms, lower := Scalar.bound c, upper := Scalar.bound c, name := some (numbered d.tag "dual" parameter) }

/-- The dual rows. -/
def dualRows (d : DualSide K B) (f : MixedForm K) : List (AuxRow K B) :=
  d.parameters.zipIdx.filterMap fun (k, position) => d.dualRow? f position k

/-- **The reformulation of `f ≤ limit`.** -/
def reformulation (d : DualSide K B) (f : MixedForm K) (limit : B) : Reformulation K B :=
  { auxiliaries := d.auxiliaries, constraints := d.objectiveRow f limit :: d.dualRows f }

end DualSide

/-! ## Both sides -/

/-- One reformulation after another. -/
def Reformulation.append (a b : Reformulation K B) : Reformulation K B :=
  { auxiliaries := a.auxiliaries ++ b.auxiliaries, constraints := a.constraints ++ b.constraints }

/-- The reformulation of the upper side. -/
def UncertaintySet.dualizeUpper (s : UncertaintySet K B) (ks : List Nat) (tag : String) (row : MixedRow K B) :
    Reformulation K B :=
  if Bound.isUpper row.upper then
    DualSide.reformulation { set := s.restrict ks, parameters := ks, tag := tag ++ ".ub", offset := 0 } row.form row.upper
  else {}

/-- The reformulation of the lower side, whose auxiliary columns come after `offset` others. -/
def UncertaintySet.dualizeLower (s : UncertaintySet K B) (ks : List Nat) (tag : String) (offset : Nat)
    (row : MixedRow K B) : Reformulation K B :=
  if Bound.isLower row.lower then
    DualSide.reformulation { set := s.restrict ks, parameters := ks, tag := tag ++ ".lb", offset }
      (row.form.scaled Scalar.minusOne) (Bound.neg row.lower)
  else {}

/-- The row at a point of the parameters, as auxiliary row. -/
def MixedRow.auxRow (point : Lookup K) (name : Option String) (row : MixedRow K B) : Except Fault (AuxRow K B) := do
  let (terms, lower, upper) ← row.specialize point
  return { terms := terms.map fun (j, a) => (.existing j, a), lower, upper, name }

/-- **The reformulation of a mixed row over a set.** A row without parameters is taken as it is. -/
def UncertaintySet.dualize (s : UncertaintySet K B) (row : MixedRow K B) : Except Fault (Reformulation K B) :=
  match s.componentOf row.form.parameters with
  | [] => do return { constraints := [← row.auxRow (Lookup.ofList []) row.name] }
  | ks =>
    let tag := "_dual[" ++ row.source.text ++ "]"
    let upper := s.dualizeUpper ks tag row
    .ok (upper.append (s.dualizeLower ks tag upper.auxiliaries.length row))

end RobustLP
