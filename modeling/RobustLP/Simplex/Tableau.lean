import RobustLP.Scalar.Exact

/-!
# Tableaux

A tableau describes the points of a linear system by equations that express *basic* variables through the others, and holds
one of these points. Variables are numbered; each one has bounds, which the point may miss.

Both operations keep the solutions of the equations: `move` changes one variable that is not basic and all basic ones with it,
and `pivot` solves an equation for another variable.

## Main statement

* `Terms.eval_addScaled`: adding a multiple of a form adds that multiple of its value.
-/

namespace RobustLP.Simplex

/-! ## Forms -/

/-- Coefficients of numbered variables. -/
abbrev Terms := List (Nat × Rat)

namespace Terms

/-- The value of a form at a point. -/
def eval (x : Nat → Rat) (ts : Terms) : Rat := ts.foldr (fun t q => t.2 * x t.1 + q) 0

/-- The coefficient of a variable; zero if it does not occur. -/
def coef (j : Nat) (ts : Terms) : Rat :=
  match ts.find? (·.1 == j) with
  | some t => t.2
  | none => 0

/-- A form without a variable. -/
def without (j : Nat) (ts : Terms) : Terms := ts.filter fun t => t.1 != j

/-- A multiple of a form. -/
def scaled (c : Rat) (ts : Terms) : Terms := ts.map fun t => (t.1, c * t.2)

/-- Adds `c` to the coefficient of a variable; a coefficient that becomes zero is left out. -/
def addTerm (j : Nat) (c : Rat) : Terms → Terms
  | [] => if c = 0 then [] else [(j, c)]
  | (k, d) :: ts => if k = j then (if d + c = 0 then ts else (k, d + c) :: ts) else (k, d) :: addTerm j c ts

/-- Adds a multiple of a form. -/
def addScaled (c : Rat) (more ts : Terms) : Terms := more.foldl (fun ts t => addTerm t.1 (c * t.2) ts) ts

/-- Writes a form in place of a variable. -/
def substitute (ts : Terms) (j : Nat) (form : Terms) : Terms :=
  if ts.any (·.1 == j) then addScaled (ts.coef j) form (ts.without j) else ts

end Terms

/-! ## Equations -/

/-- A basic variable as form in other variables. -/
structure Equation where
  basic : Nat
  terms : Terms
  deriving Repr

/-- The equation solved for another of its variables, whose coefficient is not zero. -/
def Equation.solvedFor (j : Nat) (e : Equation) : Equation :=
  let a := e.terms.coef j
  { basic := j, terms := (e.basic, 1 / a) :: (e.terms.without j).scaled (-1 / a) }

/-! ## Tableaux -/

/-- The bounds of a variable. -/
structure Interval where
  lower : ExtRat
  upper : ExtRat
  deriving Repr

/-- A value is less than a bound. -/
def below (q : Rat) (b : ExtRat) : Bool := (ExtRat.finite q).lt b

/-- A value is greater than a bound. -/
def above (q : Rat) (b : ExtRat) : Bool := b.lt (.finite q)

/-- Equations with one of their solutions. -/
structure Tableau where
  bounds : List Interval
  point : List Rat
  equations : List Equation
  deriving Repr

namespace Tableau

/-- The bounds of a variable. -/
def boundsOf (t : Tableau) (j : Nat) : Interval := t.bounds[j]?.getD { lower := .negInf, upper := .posInf }

/-- The value of a variable. -/
def valueOf (t : Tableau) (j : Nat) : Rat := t.point[j]?.getD 0

/-- Changes a variable that is not basic, and all basic ones with it. -/
def move (t : Tableau) (j : Nat) (step : Rat) : Tableau :=
  let moved := t.point.set j (t.valueOf j + step)
  { t with point := t.equations.foldl (fun x e => x.set e.basic (t.valueOf e.basic + e.terms.coef j * step)) moved }

/-- Makes a variable basic in place of the one of an equation. -/
def pivot (t : Tableau) (e : Equation) (j : Nat) : Tableau :=
  let solved := e.solvedFor j
  { t with equations := t.equations.map fun f =>
      if f.basic = e.basic then solved else { f with terms := f.terms.substitute j solved.terms } }

/-- The variable may still grow (or, with `upward` false, shrink). -/
def canMove (t : Tableau) (upward : Bool) (j : Nat) : Bool :=
  if upward then below (t.valueOf j) (t.boundsOf j).upper else above (t.valueOf j) (t.boundsOf j).lower

/-- Replaces the bounds of a variable. -/
def setBounds (t : Tableau) (j : Nat) (b : Interval) : Tableau := { t with bounds := t.bounds.set j b }

end Tableau

/-! ## Lemmas -/

theorem Terms.eval_cons (x : Nat → Rat) (t : Nat × Rat) (ts : Terms) :
    Terms.eval x (t :: ts) = t.2 * x t.1 + Terms.eval x ts := by simp [Terms.eval]

theorem Terms.eval_addTerm (x : Nat → Rat) (j : Nat) (c : Rat) (ts : Terms) :
    Terms.eval x (addTerm j c ts) = Terms.eval x ts + c * x j := by
  induction ts with
  | nil => grind [addTerm, Terms.eval]
  | cons t ts ih =>
    obtain ⟨k, d⟩ := t
    by_cases hk : k = j
    · subst hk
      by_cases hd : d + c = 0
      · have : d * x k + c * x k = 0 := by rw [← Rat.add_mul, hd, Rat.zero_mul]
        simp only [addTerm, if_true, hd, eval_cons]
        grind
      · simp only [addTerm, if_true, hd, if_false, eval_cons]
        grind
    · simp only [addTerm, hk, if_false, eval_cons, ih]
      grind

/-- Adding a multiple of a form adds that multiple of its value. -/
theorem Terms.eval_addScaled (x : Nat → Rat) (c : Rat) (more ts : Terms) :
    Terms.eval x (addScaled c more ts) = Terms.eval x ts + c * Terms.eval x more := by
  unfold addScaled
  induction more generalizing ts with
  | nil => grind [Terms.eval]
  | cons t more ih =>
    simp only [List.foldl_cons, ih, eval_addTerm, eval_cons]
    grind

end RobustLP.Simplex
