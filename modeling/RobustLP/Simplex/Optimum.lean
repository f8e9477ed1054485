import RobustLP.Simplex.Tableau

/-!
# The optimum of a tableau

First the point is brought within all bounds (`repair`): a basic variable that misses a bound is moved onto it, by way of
another variable of its equation that takes its place. If no variable of the equation can move, the bound is out of reach;
it is given up if it is missed by no more than a tolerance, and otherwise the bounds contradict each other.

Then a linear form is made as small as possible (`improve`): a variable whose move lowers the form is moved as far as the
bounds allow. If the bound of a basic variable is what stops it, it takes the place of that one.

In both phases the eligible variable with the smallest number is taken, so that no sequence of pivots repeats itself. The
number of pivots is limited all the same.
-/

namespace RobustLP.Simplex

/-- The outcome of an optimisation. -/
inductive Result (α : Type) where
  | found (a : α)
  | contradictory
  | unbounded
  /-- the limit on steps is reached -/
  | exhausted
  deriving Repr

/-- The bounds on a number of pivots. -/
def pivotLimit : Nat := 20000

/-- The amount by which a bound may be missed that cannot be met. -/
def feasibilityTolerance : Rat := 1 / 10000000

/-- The entry with the smallest number. -/
def smallest {α : Type} (number : α → Nat) (xs : List α) : Option α :=
  xs.foldl (fun best x => match best with
    | none => some x
    | some b => if number x < number b then some x else some b) none

namespace Tableau

/-! ## Meeting the bounds -/

/-- How far a basic variable is to move to meet its bounds, if it misses one. -/
def shortfall (t : Tableau) (j : Nat) : Option Rat :=
  let q := t.valueOf j
  match (t.boundsOf j).lower, (t.boundsOf j).upper with
  | .finite l, .finite u => if q < l then some (l - q) else if u < q then some (u - q) else none
  | .finite l, _ => if q < l then some (l - q) else none
  | _, .finite u => if u < q then some (u - q) else none
  | _, _ => none

/-- The equation whose basic variable misses a bound, with the smallest number. -/
def missed (t : Tableau) : Option (Equation × Rat) :=
  smallest (fun m => m.1.basic) (t.equations.filterMap fun e => (t.shortfall e.basic).map fun d => (e, d))

/-- The variable of an equation that can move the basic one in a direction, with the smallest number. -/
def lever (t : Tableau) (e : Equation) (upward : Bool) : Option (Nat × Rat) :=
  smallest (·.1) (e.terms.filter fun (j, a) => a != 0 && t.canMove ((0 < a) == upward) j)

/-- Gives up a bound that the variable misses. -/
def giveUp (t : Tableau) (j : Nat) (upward : Bool) : Tableau :=
  let b := t.boundsOf j
  let q := ExtRat.finite (t.valueOf j)
  t.setBounds j (if upward then { b with lower := q } else { b with upper := q })

/-- **Brings the point within all bounds.** -/
def repair : Nat → Tableau → Result Tableau
  | 0, _ => .exhausted
  | n + 1, t =>
    match t.missed with
    | none => .found t
    | some (e, d) =>
      match t.lever e (0 < d) with
      | some (j, a) => repair n ((t.move j (d / a)).pivot e j)
      | none =>
        if d ≤ feasibilityTolerance && -feasibilityTolerance ≤ d then repair n (t.giveUp e.basic (0 < d))
        else .contradictory

/-! ## Lowering a form -/

/-- How far a variable may move at some rate per step before it meets a bound. -/
def room (t : Tableau) (j : Nat) (rate : Rat) : Option Rat :=
  if 0 < rate then match (t.boundsOf j).upper with
    | .finite u => some ((u - t.valueOf j) / rate)
    | _ => none
  else if rate < 0 then match (t.boundsOf j).lower with
    | .finite l => some ((l - t.valueOf j) / rate)
    | _ => none
  else none

/-- The variable whose move lowers a form, with the smallest number, and whether it grows. -/
def descent (t : Tableau) (form : Terms) : Option (Nat × Bool) :=
  (smallest (·.1) (form.filter fun (j, c) => c != 0 && t.canMove (c < 0) j)).map fun (j, c) => (j, c < 0)

/-- The equation that stops the move of a variable first, of several the one of the smallest basic variable. -/
def obstacle (t : Tableau) (j : Nat) (direction : Rat) : Option (Equation × Rat) :=
  (t.equations.filterMap fun e => (t.room e.basic (e.terms.coef j * direction)).map fun r => (e, r)).foldl
    (fun best m => match best with
      | none => some m
      | some b => if m.2 < b.2 || (m.2 = b.2 && m.1.basic < b.1.basic) then some m else some b) none

/-- Moves a variable as far as it goes; none if nothing stops it. -/
def slide (t : Tableau) (form : Terms) (j : Nat) (upward : Bool) : Option (Tableau × Terms) :=
  let direction : Rat := if upward then 1 else -1
  match t.room j direction, t.obstacle j direction with
  | none, none => none
  | some own, none => some (t.move j (direction * own), form)
  | own, some (e, r) =>
    if own.any (· ≤ r) then some (t.move j (direction * own.getD 0), form)
    else some ((t.move j (direction * r)).pivot e j, form.substitute j (e.solvedFor j).terms)

/-- **Makes a form as small as possible.** -/
def improve : Nat → Tableau → Terms → Result Tableau
  | 0, _, _ => .exhausted
  | n + 1, t, form =>
    match t.descent form with
    | none => .found t
    | some (j, upward) =>
      match t.slide form j upward with
      | none => .unbounded
      | some (t, form) => improve n t form

/-- The point within the bounds at which a form in variables that are not basic is smallest. -/
def minimize (t : Tableau) (form : Terms) : Result Tableau :=
  match repair pivotLimit t with
  | .found r => improve pivotLimit r (r.equations.foldl (fun f e => f.substitute e.basic e.terms) form)
  | .contradictory => .contradictory
  | .unbounded => .unbounded
  | .exhausted => .exhausted

end Tableau

end RobustLP.Simplex
