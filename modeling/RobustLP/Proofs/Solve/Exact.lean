import RobustLP.Proofs.Set.Views
import RobustLP.Proofs.Solve.Definite
import RobustLP.Proofs.Solve.Oracles

/-!
# Exact separation

If its solver decides every program, a separating oracle decides every question (`Run.separate_exact`): it answers nothing exactly
when the row holds at all points of the set, up to the tolerance; otherwise it answers a point with the largest violation over the
set; and it fails exactly when a bounded side of the row is unbounded over the set.

The argument has three parts. A worst case of a form is an extreme point, or the form diverges over the set (`settles_worstCase`).
Each side of the row compares its worst case with the tolerance (`settles_separateSide`). The larger of the two violations is the
violation of the row (`SideOutcome.separation`).
-/

namespace RobustLP

open ExtRat UncertaintySet

/-! ## Points -/

namespace UncertaintySet

variable {s : UncertaintySet Rat ExtRat}

/-- Numbers that satisfy a set, integers where they have to be, make a point. -/
theorem Solves.admits_of_integral (hs : s.WellFormed) {v : Nat → Rat} (h : s.Solves v) (hint : s.Integral v) :
    s.Admits ((List.range s.numParameters).map v) where
  size := by rw [List.length_map, List.length_range]
  solves := h.congr hs fun k hk => (entries_map_range _ v hk).symm
  integral k hk := by
    have hlt : k < s.numParameters := hs.integer ▸ (List.getElem?_eq_some_iff.mp hk).1
    rw [entries_map_range _ v hlt]
    exact hint k hk

/-- The points of a set are those of every program that stands for it. -/
theorem StandsBehind.admits_iff (hs : s.WellFormed) {q : LinearProgram Rat ExtRat} (h : s.StandsBehind q) {u : List Rat} :
    s.Admits u ↔ u.length = q.numColumns ∧ q.Feasible (entries u) ∧ q.Integral (entries u) := by
  obtain ⟨p, hp, hcolumns, hrows⟩ := h
  rw [admits_iff_feasible hs hp, LinearProgram.numColumns, LinearProgram.numColumns, ← hcolumns]
  refine and_congr_right fun _ => and_congr ⟨fun hu => ⟨hrows ▸ hu.rows, hcolumns ▸ hu.columns⟩, fun hu => ?_⟩ ?_
  · exact ⟨hrows ▸ hu.rows, hcolumns ▸ hu.columns⟩
  · rw [LinearProgram.Integral, LinearProgram.Integral, hcolumns]

/-- Numbers of the columns of a program that stands for a set give a point of the set. -/
theorem StandsBehind.exists_admits (hs : s.WellFormed) {q : LinearProgram Rat ExtRat} (h : s.StandsBehind q) {v : Nat → Rat}
    (hv : q.Feasible v) (hint : q.Integral v) : ∃ u, s.Admits u ∧ ∀ k < s.numParameters, entries u k = v k := by
  obtain ⟨p, hp, hcolumns, hrows⟩ := h
  obtain ⟨hset, hpoints⟩ := points_toProgram hp
  have hsolves := (hpoints v).mp ⟨hrows ▸ hv.rows, hcolumns ▸ hv.columns⟩
  exact ⟨_, hsolves.admits_of_integral hs (integral_of_integral_columnsOf hs (hcolumns.trans hset) hint),
    fun k hk => entries_map_range _ v hk⟩

/-! ## Worst cases -/

/-- The value of a form is worst at a point of a set. -/
structure Extreme (s : UncertaintySet Rat ExtRat) (g : Form Rat) (sense : Sense) (u : List Rat) : Prop where
  inside : s.Admits u
  worst : ∀ v, s.Admits v → sense.NoWorse (g.value (entries u)) (g.value (entries v))

/-- A form takes arbitrarily bad values over a set. -/
def Diverges (s : UncertaintySet Rat ExtRat) (g : Form Rat) (sense : Sense) : Prop :=
  ∀ q, ∃ u, s.Admits u ∧ sense.NoWorse (g.value (entries u)) q

/-- A constant form is worst anywhere. -/
theorem extreme_of_isConstant {g : Form Rat} (h : g.isConstant = true) (sense : Sense) {u : List Rat} (hu : s.Admits u) :
    s.Extreme g sense u := by
  refine ⟨hu, fun v _ => ?_⟩
  rw [Form.value_of_isConstant h, Form.value_of_isConstant h]
  exact .refl sense _

theorem Extreme.not_diverges {g : Form Rat} {sense : Sense} {u : List Rat} (h : s.Extreme g sense u) :
    ¬s.Diverges g sense := by
  intro hdiverges
  cases sense with
  | minimize =>
    obtain ⟨v, hv, hle⟩ := hdiverges (g.value (entries u) - 1)
    have hworst : g.value (entries u) ≤ g.value (entries v) := h.worst v hv
    have hgood : g.value (entries v) ≤ g.value (entries u) - 1 := hle
    linarith
  | maximize =>
    obtain ⟨v, hv, hle⟩ := hdiverges (g.value (entries u) + 1)
    have hworst : g.value (entries v) ≤ g.value (entries u) := h.worst v hv
    have hgood : g.value (entries u) + 1 ≤ g.value (entries v) := hle
    linarith

end UncertaintySet

namespace LinearProgram

/-- A program takes every objective in its columns. -/
theorem exists_withObjective {p : LinearProgram Rat ExtRat} {g : Form Rat} (h : ∀ t ∈ g.linear, t.1 < p.numColumns)
    (sense : Sense) : ∃ q, p.withObjective g.linear g.constant sense = .ok q := by
  unfold withObjective
  rw [run_setObjective h]
  exact ⟨_, rfl⟩

end LinearProgram

/-- A separating oracle that is set up against a set with a tolerance, whose separations may take any time. If the set has
parameters, it has one of `n` solvers. -/
structure Separator.Exact (s : UncertaintySet Rat ExtRat) (tol : Rat) (n : Nat) (sep : Separator Rat ExtRat) : Prop
    extends sep.Ready s (some tol) s.Admits where
  unlimited : sep.allowance = none
  solver : s.numParameters ≠ 0 → ∃ i < n, sep.solver = some i

/-- The program of the set takes any form in the parameters as objective. -/
theorem Separator.Exact.exists_withObjective {s : UncertaintySet Rat ExtRat} {tol : Rat} {n : Nat}
    {sep : Separator Rat ExtRat} (hsep : sep.Exact s tol n) {g : Form Rat} (hg : ∀ t ∈ g.linear, t.1 < s.numParameters)
    (sense : Sense) : ∃ p q, sep.program = some p ∧ s.toProgram (some Run.setProgramName) = .ok p
      ∧ p.withObjective g.linear g.constant sense = .ok q := by
  obtain ⟨p, hp, hprogram⟩ := hsep.program
  have hcolumns : p.numColumns = s.numParameters := by
    rw [LinearProgram.numColumns, (points_toProgram hp).1, columnsOf, List.length_map, List.length_range]
  obtain ⟨q, hq⟩ := LinearProgram.exists_withObjective (fun t ht => (hg t ht).trans_eq hcolumns.symm) sense
  exact ⟨p, q, hprogram, hp, hq⟩

/-- How the search for a worst case of a form comes out. -/
inductive WorstCaseOutcome (s : UncertaintySet Rat ExtRat) (g : Form Rat) (sense : Sense) :
    Except Error (Option Rat × Option (List Rat)) → Prop
  | attained {u : List Rat} (h : s.Extreme g sense u) : WorstCaseOutcome s g sense (.ok (some (g.value (entries u)), some u))
  | diverges (h : s.Diverges g sense) : WorstCaseOutcome s g sense (.error .separationUnbounded)

/-! ## Sides -/

/-- The word for the side of a row that a sense is about: the largest value matters for the upper bound, the smallest one for the
lower bound. -/
def Sense.side : Sense → String
  | .maximize => "upper"
  | .minimize => "lower"

namespace MixedRow

variable {row : MixedRow Rat ExtRat} {sense : Sense}

/-- A row is limited on the side that a sense is about. -/
def Limits (row : MixedRow Rat ExtRat) : Sense → Prop
  | .maximize => row.upper ≠ posInf
  | .minimize => row.lower ≠ negInf

/-- By how much a value violates the side of a row that a sense is about. -/
def excess (row : MixedRow Rat ExtRat) : Sense → Rat → ExtRat
  | .maximize, q => Scalar.excess q row.upper
  | .minimize, q => Scalar.shift row.lower q

/-- A worse value violates more. -/
theorem excess_le_of_noWorse {a b : Rat} (h : sense.NoWorse a b) : le (row.excess sense b) (row.excess sense a) = true := by
  cases sense with
  | minimize =>
    have hle : a ≤ b := h
    unfold excess
    cases row.lower with
    | finite p => exact finite_le_finite.mpr (sub_le_sub_left hle p)
    | negInf => rfl
    | posInf => rfl
  | maximize =>
    have hle : b ≤ a := h
    unfold excess
    cases row.upper with
    | finite p => exact finite_le_finite.mpr (neg_le_neg (sub_le_sub_left hle p))
    | negInf => rfl
    | posInf => rfl

/-- A side without limit is never violated. -/
theorem excess_of_not_limits (h : ¬row.Limits sense) (q t : Rat) : le (row.excess sense q) (finite t) = true := by
  cases sense with
  | minimize =>
    have hlower : row.lower = negInf := not_not.mp h
    rw [excess, hlower]
    rfl
  | maximize =>
    have hupper : row.upper = posInf := not_not.mp h
    rw [excess, hupper]
    rfl

/-- A value lies within the bounds of a row up to a slack if neither side is violated by more. -/
theorem forall_excess_le_iff {t q : Rat} :
    (∀ sense, le (row.excess sense q) (finite t) = true) ↔ Within t row.lower row.upper q := by
  unfold Within Between
  rw [← Run.shift_le_iff, ← Run.excess_le_iff]
  refine ⟨fun h => ⟨h .minimize, h .maximize⟩, fun h sense => ?_⟩
  cases sense with
  | minimize => exact h.1
  | maximize => exact h.2

/-- A row holds at a point up to the tolerance if neither side is violated by more. -/
theorem holdsWithin_iff {tol : Rat} {x u : Nat → Rat} :
    row.HoldsWithin tol x u ↔ ∀ sense, le (row.excess sense (row.form.value x u)) (finite tol) = true :=
  forall_excess_le_iff.symm

/-- What a value of a row violates: the larger one of its sides, and at least zero. -/
def IsViolation (row : MixedRow Rat ExtRat) (q : Rat) (w : ExtRat) : Prop :=
  ∀ c, le w c = true ↔ (∀ sense, le (row.excess sense q) c = true) ∧ le (finite 0) c = true

theorem exists_violation {x u : Lookup Rat} (hx : ∀ t ∈ row.form.linear, ∃ a, x t.1 = .ok a) (hu : row.form.Defined u) :
    ∃ w, row.violation x u = .ok w ∧ row.IsViolation (row.form.value x.number u.number) w := by
  unfold violation
  rw [MixedForm.evaluate_eq_ok hx hu]
  refine ⟨_, rfl, fun c => ?_⟩
  rw [ExtRat.max_le_iff, ExtRat.max_le_iff]
  refine and_congr_left fun _ => ⟨fun h sense => ?_, fun h => ⟨h .minimize, h .maximize⟩⟩
  cases sense with
  | minimize => exact h.1
  | maximize => exact h.2

end MixedRow

/-- How the separation of one side of a row comes out. -/
inductive SideOutcome (s : UncertaintySet Rat ExtRat) (tol : Rat) (g : Form Rat) (row : MixedRow Rat ExtRat) (sense : Sense) :
    Except Error (Option (Realization Rat ExtRat)) → Prop
  | holds (hlimited : row.Limits sense → ¬s.Diverges g sense)
      (hall : ∀ u, s.Admits u → le (row.excess sense (g.value (entries u))) (finite tol) = true) :
      SideOutcome s tol g row sense (.ok none)
  | violated {u : List Rat} (h : s.Extreme g sense u)
      (hlarge : lt (finite tol) (row.excess sense (g.value (entries u))) = true) :
      SideOutcome s tol g row sense
        (.ok (some { point := u, violation := row.excess sense (g.value (entries u)), side := sense.side }))
  | diverges (hlimits : row.Limits sense) (h : s.Diverges g sense) :
      SideOutcome s tol g row sense (.error .separationUnbounded)

/-- **A definite answer to the program of a set** whose objective is a form: a worst case of the form, or that there is none. -/
theorem SolverResults.Definite.extreme_or_diverges {s : UncertaintySet Rat ExtRat} (hs : s.WellFormed) {u₀ : List Rat}
    (hu₀ : s.Admits u₀) {g : Form Rat} (hg : ∀ t ∈ g.linear, t.1 < s.numParameters) {p q : LinearProgram Rat ExtRat}
    {sense : Sense} (hp : s.toProgram (some Run.setProgramName) = .ok p)
    (hq : p.withObjective g.linear g.constant sense = .ok q) {r : SolverResults Rat} (h : r.Definite q) :
    (r.termination = .optimal ∧ ∃ u, r.point = some u ∧ r.objective = some (g.value (entries u)) ∧ s.Extreme g sense u)
      ∨ (r.termination = .unbounded ∨ r.termination = .infeasibleOrUnbounded) ∧ s.Diverges g sense := by
  obtain ⟨hcolumns, hrows, hsense, hobjective⟩ := LinearProgram.withObjective_eq_ok hq
  have hstands : s.StandsBehind q := ⟨p, hp, hcolumns, hrows⟩
  obtain ⟨-, hfeasible₀, hintegral₀⟩ := (hstands.admits_iff hs).mp hu₀
  rcases h.optimal_or_improves hfeasible₀ hintegral₀ with hoptimal | ⟨hunbounded, himproves⟩
  · obtain ⟨u, hu, hlength, hfeasible, hintegral, hvalue, hbest⟩ := h.optimal hoptimal
    rw [hobjective] at hvalue
    refine .inl ⟨hoptimal, u, hu, hvalue, (hstands.admits_iff hs).mpr ⟨hlength, hfeasible, hintegral⟩, fun v hv => ?_⟩
    obtain ⟨-, hfeasible', hintegral'⟩ := (hstands.admits_iff hs).mp hv
    have hnoWorse := hbest (entries v) hfeasible' hintegral'
    rwa [hsense, hobjective, hobjective] at hnoWorse
  · refine .inr ⟨hunbounded, fun bound => ?_⟩
    obtain ⟨v, hfeasible, hintegral, hgood⟩ := himproves bound
    obtain ⟨u, hu, hagree⟩ := hstands.exists_admits hs hfeasible hintegral
    rw [hsense, hobjective, ← Form.value_congr fun t ht => hagree t.1 (hg t ht)] at hgood
    exact ⟨u, hu, hgood⟩

namespace Run

variable {s : UncertaintySet Rat ExtRat} {tol : Rat} {n : Nat} {sep : Separator Rat ExtRat} {g : Form Rat}

/-- **A worst case is found, or there is none.** -/
theorem settles_worstCase (hs : s.WellFormed) {u₀ : List Rat} (hu₀ : s.Admits u₀) (hsep : sep.Exact s tol n)
    (hg : ∀ t ∈ g.linear, t.1 < s.numParameters) (sense : Sense) :
    Settles n (worstCase sep g sense) (WorstCaseOutcome s g sense) := by
  unfold worstCase
  split
  next hconstant =>
    obtain ⟨u, hu, hinside⟩ := hsep.nominal
    rw [hu, ← Form.value_of_isConstant hconstant (entries u)]
    exact .pure (.attained (extreme_of_isConstant hconstant sense hinside))
  next hconstant =>
    -- a form that is not constant has a parameter, so there are parameters and a solver for them
    obtain ⟨t, ht⟩ := List.exists_mem_of_ne_nil g.linear fun hnil => hconstant (List.isEmpty_iff.mpr hnil)
    obtain ⟨i, hi, hsolver⟩ := hsep.solver (Nat.ne_of_gt (Nat.zero_lt_of_lt (hg t ht)))
    obtain ⟨p, q, hprogram, hp, hq⟩ := hsep.exists_withObjective hg sense
    rw [hprogram, hsolver]
    dsimp only
    rw [hq]
    refine .bind (Q := fun r => r = .ok q) (.pure rfl) (fun err h => ?_) fun q' => ?_
    · cases h
    have hsolve : Settles n (solve (some i) sep.allowance q') (SolverResults.Decides q') := hsep.unlimited ▸ settles_solve hi q'
    -- a failure of the solver would decide nothing
    refine .bind hsolve (fun err hdecides => ?_) fun r => ?_
    · obtain ⟨r, hr, -⟩ := hdecides
      cases hr
    refine .bind (settles_solverName hi) (fun err hname => ?_) fun name => ?_
    · obtain ⟨name, hname⟩ := hname
      cases hname
    -- how an answer is read, apart from what it says about the set
    refine .mono (Q := fun z => (r.termination = .optimal → ∀ u, r.point = some u → z = .ok (r.objective, some u))
      ∧ (r.termination = .unbounded ∨ r.termination = .infeasibleOrUnbounded → z = .error .separationUnbounded))
      ?_ fun z hz _ hdecides hq' => ?_
    · split
      next htermination => exact .throw (by simp [htermination])
      next htermination => exact .throw (by simp [htermination])
      next htermination => exact .throw (by simp [htermination])
      next x htermination hpoint => exact .pure (by simp [htermination, hpoint])
      next _ hunbounded heither hoptimal =>
        refine .throw ⟨fun h u hu => absurd hu (hoptimal u h), ?_⟩
        rintro (h | h)
        · exact absurd h hunbounded
        · exact absurd h heither
    obtain ⟨r', hr, hdefinite⟩ := hdecides
    cases hr
    cases hq'
    rcases hdefinite.extreme_or_diverges hs hu₀ hg hp hq with ⟨hoptimal, u, hu, hvalue, hextreme⟩ | ⟨hunbounded, hdiverges⟩
    · rw [hz.1 hoptimal u hu, hvalue]
      exact .attained hextreme
    · rw [hz.2 hunbounded]
      exact .diverges hdiverges

/-! ## Separating a side -/

/-- The realization that violates the side of a row most that a sense is about. -/
def separateSide (sep : Separator Rat ExtRat) (g : Form Rat) (row : MixedRow Rat ExtRat) (sense : Sense) :
    Run Rat ExtRat (Option (Realization Rat ExtRat)) := do
  let (value, point) ← worstCase sep g sense
  violatedAt sep sense.side (row.excess sense (← known value)) point

theorem settles_known (value : Option Rat) :
    Settles n (known value : Run Rat ExtRat Rat) fun r => ∀ q, value = some q → r = .ok q := by
  cases value with
  | none => exact .throw nofun
  | some q => exact .pure fun q' hq => congrArg Except.ok (Option.some.inj hq)

theorem settles_violatedAt (htolerance : sep.tolerance = some tol) (side : String) (violation : ExtRat)
    (point : Option (List Rat)) : Settles n (violatedAt sep side violation point) fun r => ∀ u, point = some u →
      r = .ok (if lt (finite tol) violation = true then some { point := u, violation, side } else none) := by
  unfold violatedAt
  rw [htolerance]
  dsimp only
  split
  next hviolation =>
    cases point with
    | none => exact .throw nofun
    | some u =>
      refine .pure fun u' hu => ?_
      cases hu
      exact congrArg Except.ok (if_pos hviolation).symm
  next hviolation => exact .pure fun u _ => congrArg Except.ok (if_neg hviolation).symm

/-- **A limited side compares its worst case with the tolerance.** -/
theorem settles_separateSide (hs : s.WellFormed) {u₀ : List Rat} (hu₀ : s.Admits u₀) (hsep : sep.Exact s tol n)
    (hg : ∀ t ∈ g.linear, t.1 < s.numParameters) {row : MixedRow Rat ExtRat} {sense : Sense} (hlimits : row.Limits sense) :
    Settles n (separateSide sep g row sense) (SideOutcome s tol g row sense) := by
  unfold separateSide
  refine .bind (settles_worstCase hs hu₀ hsep hg sense) (fun err h => ?_) fun (value, point) => ?_
  · cases h with
    | diverges h => exact .diverges hlimits h
  refine .bind (settles_known value) (fun err h houtcome => ?_) fun q => ?_
  · cases houtcome with
    | attained _ => cases h _ rfl
  refine (settles_violatedAt hsep.tolerance sense.side (row.excess sense q) point).mono fun r hr hq houtcome => ?_
  cases houtcome with
  | @attained u hextreme =>
    cases hq _ rfl
    rw [hr u rfl]
    split
    next hlarge => exact .violated hextreme hlarge
    next hsmall =>
      refine .holds (fun _ => hextreme.not_diverges) fun v hv => ?_
      exact ExtRat.le_trans (MixedRow.excess_le_of_noWorse (hextreme.worst v hv)) (le_iff_not_lt.mpr hsmall)

theorem settles_separateUpper (hs : s.WellFormed) {u₀ : List Rat} (hu₀ : s.Admits u₀) (hsep : sep.Exact s tol n)
    (hg : ∀ t ∈ g.linear, t.1 < s.numParameters) (row : MixedRow Rat ExtRat) :
    Settles n (separateUpper sep g row) (SideOutcome s tol g row .maximize) := by
  unfold separateUpper
  split
  next hupper =>
    have hlimits : row.Limits .maximize := isUpper_iff.mp hupper
    exact settles_separateSide hs hu₀ hsep hg hlimits
  next hupper =>
    have hlimits : ¬row.Limits .maximize := mt isUpper_iff.mpr hupper
    exact .pure (.holds (fun h => absurd h hlimits) fun u _ => MixedRow.excess_of_not_limits hlimits _ _)

theorem settles_separateLower (hs : s.WellFormed) {u₀ : List Rat} (hu₀ : s.Admits u₀) (hsep : sep.Exact s tol n)
    (hg : ∀ t ∈ g.linear, t.1 < s.numParameters) (row : MixedRow Rat ExtRat) :
    Settles n (separateLower sep g row) (SideOutcome s tol g row .minimize) := by
  unfold separateLower
  split
  next hlower =>
    have hlimits : row.Limits .minimize := isLower_iff.mp hlower
    exact settles_separateSide hs hu₀ hsep hg hlimits
  next hlower =>
    have hlimits : ¬row.Limits .minimize := mt isLower_iff.mpr hlower
    exact .pure (.holds (fun h => absurd h hlimits) fun u _ => MixedRow.excess_of_not_limits hlimits _ _)

end Run

/-! ## The whole row -/

namespace MixedRow

/-- **A largest violation:** a point of the set at which a row is violated, by more than the tolerance and more than anywhere else;
the side tells which bound is violated. -/
structure Worst (s : UncertaintySet Rat ExtRat) (tol : Rat) (x : List Rat) (row : MixedRow Rat ExtRat)
    (z : Realization Rat ExtRat) : Prop where
  inside : s.Admits z.point
  violation : row.violation (Lookup.ofList x) (Lookup.ofList z.point) = .ok z.violation
  exceeds : lt (finite tol) z.violation = true
  largest : ∀ u, s.Admits u → ∃ w, row.violation (Lookup.ofList x) (Lookup.ofList u) = .ok w ∧ le w z.violation = true
  side : (z.side = "upper" ∧ z.violation = Scalar.excess (row.form.value (entries x) (entries z.point)) row.upper)
    ∨ (z.side = "lower" ∧ z.violation = Scalar.shift row.lower (row.form.value (entries x) (entries z.point)))

/-- A row has a bound that its value exceeds by any amount over the set. -/
def Unlimited (s : UncertaintySet Rat ExtRat) (x : List Rat) (row : MixedRow Rat ExtRat) : Prop :=
  (row.upper ≠ posInf ∧ ∀ q, ∃ u, s.Admits u ∧ q ≤ row.form.value (entries x) (entries u))
    ∨ (row.lower ≠ negInf ∧ ∀ q, ∃ u, s.Admits u ∧ row.form.value (entries x) (entries u) ≤ q)

/-- **An exact separation** of a candidate from a row. -/
structure Separation (s : UncertaintySet Rat ExtRat) (tol : Rat) (x : List Rat) (row : MixedRow Rat ExtRat)
    (r : Except Error (Option (Realization Rat ExtRat))) : Prop where
  none_iff : r = .ok none ↔ ∀ u, s.Admits u → row.HoldsWithin tol (entries x) (entries u)
  worst : ∀ z, r = .ok (some z) → row.Worst s tol x z
  error_iff : r = .error .separationUnbounded ↔ row.Unlimited s x
  errors : ∀ err, r = .error err → err = .separationUnbounded

variable {s : UncertaintySet Rat ExtRat} {tol : Rat} {x : List Rat} {row : MixedRow Rat ExtRat} {g : Form Rat}

theorem unlimited_iff (hg : ∀ v, g.value v = row.form.value (entries x) v) :
    row.Unlimited s x ↔ ∃ sense, row.Limits sense ∧ s.Diverges g sense := by
  unfold Unlimited UncertaintySet.Diverges
  simp only [hg]
  constructor
  · rintro (h | h)
    · exact ⟨.maximize, h⟩
    · exact ⟨.minimize, h⟩
  · rintro ⟨sense, h⟩
    cases sense with
    | minimize => exact .inr h
    | maximize => exact .inl h

/-- A value that is far enough off violates a limited side by more than any number. -/
theorem exists_lt_excess (hlimits : row.Limits sense) (t : Rat) :
    ∃ q, ∀ q', sense.NoWorse q' q → lt (finite t) (row.excess sense q') = true := by
  cases sense with
  | minimize =>
    have hlower : row.lower ≠ negInf := hlimits
    unfold excess
    cases hbound : row.lower with
    | negInf => exact absurd hbound hlower
    | posInf => exact ⟨0, fun _ _ => rfl⟩
    | finite p =>
      refine ⟨p - t - 1, fun q' hq => decide_eq_true ?_⟩
      have hle : q' ≤ p - t - 1 := hq
      linarith
  | maximize =>
    have hupper : row.upper ≠ posInf := hlimits
    unfold excess
    cases hbound : row.upper with
    | posInf => exact absurd hbound hupper
    | negInf => exact ⟨0, fun _ _ => rfl⟩
    | finite p =>
      refine ⟨p + t + 1, fun q' hq => decide_eq_true ?_⟩
      have hle : p + t + 1 ≤ q' := hq
      linarith

/-- The value of a row that holds at all points is limited. -/
theorem not_unlimited_of_holds (hg : ∀ v, g.value v = row.form.value (entries x) v)
    (h : ∀ u, s.Admits u → row.HoldsWithin tol (entries x) (entries u)) : ¬row.Unlimited s x := by
  rw [unlimited_iff hg]
  rintro ⟨sense, hlimits, hdiverges⟩
  obtain ⟨q, hq⟩ := exists_lt_excess hlimits tol
  obtain ⟨u, hu, hfar⟩ := hdiverges q
  rw [hg] at hfar
  exact le_iff_not_lt.mp (holdsWithin_iff.mp (h u hu) sense) (hq _ hfar)

/-- A separation that fails because the row is not limited. -/
theorem separation_error (hg : ∀ v, g.value v = row.form.value (entries x) v) {sense : Sense} (hlimits : row.Limits sense)
    (h : s.Diverges g sense) : row.Separation s tol x (.error .separationUnbounded) := by
  have hunlimited := (unlimited_iff hg).mpr ⟨sense, hlimits, h⟩
  refine ⟨⟨nofun, fun hall => absurd hunlimited (not_unlimited_of_holds hg hall)⟩, nofun, ⟨fun _ => hunlimited, fun _ => rfl⟩, ?_⟩
  intro err herr
  cases herr
  rfl

/-- A separation that finds nothing. -/
theorem separation_none (hlimited : ¬row.Unlimited s x)
    (h : ∀ u, s.Admits u → row.HoldsWithin tol (entries x) (entries u)) : row.Separation s tol x (.ok none) where
  none_iff := ⟨fun _ => h, fun _ => rfl⟩
  worst := nofun
  error_iff := ⟨nofun, fun hunlimited => absurd hunlimited hlimited⟩
  errors := nofun

/-- A row does not hold where it is violated most. -/
theorem Worst.not_holdsWithin {z : Realization Rat ExtRat} (h : row.Worst s tol x z) :
    ¬row.HoldsWithin tol (entries x) (entries z.point) := by
  intro hholds
  have hsides := holdsWithin_iff.mp hholds
  refine le_iff_not_lt.mp ?_ h.exceeds
  rcases h.side with ⟨-, hviolation⟩ | ⟨-, hviolation⟩
  · rw [hviolation]
    exact hsides .maximize
  · rw [hviolation]
    exact hsides .minimize

/-- A separation that finds a point. -/
theorem separation_some (hlimited : ¬row.Unlimited s x) {z : Realization Rat ExtRat} (h : row.Worst s tol x z) :
    row.Separation s tol x (.ok (some z)) where
  none_iff := ⟨nofun, fun hall => absurd (hall z.point h.inside) h.not_holdsWithin⟩
  worst := by
    intro z' hz
    cases hz
    exact h
  error_iff := ⟨nofun, fun hunlimited => absurd hunlimited hlimited⟩
  errors := nofun

end MixedRow

namespace SideOutcome

variable {s : UncertaintySet Rat ExtRat} {tol : Rat} {x : List Rat} {g : Form Rat} {row : MixedRow Rat ExtRat} {sense : Sense}

/-- A side that was separated does not diverge. -/
theorem not_diverges {a : Option (Realization Rat ExtRat)} (h : SideOutcome s tol g row sense (.ok a))
    (hlimits : row.Limits sense) : ¬s.Diverges g sense := by
  cases h with
  | holds hlimited _ => exact hlimited hlimits
  | violated hextreme _ => exact hextreme.not_diverges

theorem lt_violation {z : Realization Rat ExtRat} (h : SideOutcome s tol g row sense (.ok (some z))) :
    lt (finite tol) z.violation = true := by
  cases h with
  | violated _ hlarge => exact hlarge

/-- **What a separation of a side shows:** all violations of the side are at most what exceeds the tolerance and the violation that
was found. -/
theorem excess_le {a : Option (Realization Rat ExtRat)} (h : SideOutcome s tol g row sense (.ok a)) {c : ExtRat}
    (htol : le (finite tol) c = true) (hfound : ∀ z, a = some z → le z.violation c = true) {u : List Rat} (hu : s.Admits u) :
    le (row.excess sense (g.value (entries u))) c = true := by
  cases h with
  | holds _ hall => exact ExtRat.le_trans (hall u hu) htol
  | violated hextreme _ => exact ExtRat.le_trans (MixedRow.excess_le_of_noWorse (hextreme.worst u hu)) (hfound _ rfl)

/-- **A point with the largest violation of both sides** has the largest violation of the row. -/
theorem worst {z : Realization Rat ExtRat} (h : SideOutcome s tol g row sense (.ok (some z))) (htol : 0 ≤ tol)
    (hg : ∀ v, g.value v = row.form.value (entries x) v)
    (hdefined : ∀ u, s.Admits u → ∃ w, row.violation (Lookup.ofList x) (Lookup.ofList u) = .ok w
      ∧ row.IsViolation (g.value (entries u)) w)
    (hall : ∀ sense u, s.Admits u → le (row.excess sense (g.value (entries u))) z.violation = true) :
    row.Worst s tol x z := by
  have hpositive : le (finite 0) z.violation = true :=
    ExtRat.le_trans (finite_le_finite.mpr htol) (ExtRat.le_of_lt h.lt_violation)
  have hlargest : ∀ u, s.Admits u →
      ∃ w, row.violation (Lookup.ofList x) (Lookup.ofList u) = .ok w ∧ le w z.violation = true := by
    intro u hu
    obtain ⟨w, hw, hle⟩ := hdefined u hu
    exact ⟨w, hw, (hle z.violation).mpr ⟨fun sense => hall sense u hu, hpositive⟩⟩
  cases h with
  | @violated u hextreme hlarge =>
    refine ⟨hextreme.inside, ?_, hlarge, hlargest, ?_⟩
    · obtain ⟨w, hw, hle⟩ := hdefined u hextreme.inside
      -- the violation of the row is at most the one of the side, which is one of its parts
      have hw_le := (hle _).mpr ⟨fun sense => hall sense u hextreme.inside, hpositive⟩
      have hle_w := ((hle w).mp (ExtRat.le_refl w)).1 sense
      exact hw.trans (congrArg Except.ok (ExtRat.le_antisymm hw_le hle_w))
    · rw [← hg]
      cases sense with
      | maximize => exact .inl ⟨rfl, rfl⟩
      | minimize => exact .inr ⟨rfl, rfl⟩

/-- **The worse of both sides is the worst of the row.** -/
theorem separation {a b : Option (Realization Rat ExtRat)} (ha : SideOutcome s tol g row .maximize (.ok a))
    (hb : SideOutcome s tol g row .minimize (.ok b)) (htol : 0 ≤ tol) (hg : ∀ v, g.value v = row.form.value (entries x) v)
    (hdefined : ∀ u, s.Admits u → ∃ w, row.violation (Lookup.ofList x) (Lookup.ofList u) = .ok w
      ∧ row.IsViolation (g.value (entries u)) w) :
    row.Separation s tol x (.ok (Run.worseOf a b)) := by
  have hlimited : ¬row.Unlimited s x := by
    rw [MixedRow.unlimited_iff hg]
    rintro ⟨sense, hlimits, hdiverges⟩
    cases sense with
    | minimize => exact hb.not_diverges hlimits hdiverges
    | maximize => exact ha.not_diverges hlimits hdiverges
  have hbounded : ∀ c, le (finite tol) c = true → (∀ z, a = some z → le z.violation c = true) →
      (∀ z, b = some z → le z.violation c = true) →
      ∀ sense u, s.Admits u → le (row.excess sense (g.value (entries u))) c = true := by
    intro c hc hac hbc sense u hu
    cases sense with
    | minimize => exact hb.excess_le hc hbc hu
    | maximize => exact ha.excess_le hc hac hu
  cases hworse : Run.worseOf a b with
  | none =>
    obtain ⟨rfl, rfl⟩ := Run.worseOf_eq_none hworse
    refine MixedRow.separation_none hlimited fun u hu => MixedRow.holdsWithin_iff.mpr fun sense => ?_
    rw [← hg]
    exact hbounded _ (ExtRat.le_refl _) nofun nofun sense u hu
  | some z =>
    obtain ⟨hfrom, hfirst, hsecond⟩ := Run.worseOf_eq_some hworse
    refine MixedRow.separation_some hlimited ?_
    rcases hfrom with rfl | rfl
    · exact ha.worst htol hg hdefined (hbounded _ (ExtRat.le_of_lt ha.lt_violation) hfirst hsecond)
    · exact hb.worst htol hg hdefined (hbounded _ (ExtRat.le_of_lt hb.lt_violation) hfirst hsecond)

end SideOutcome

namespace Run

variable {s : UncertaintySet Rat ExtRat} {tol : Rat} {n : Nat} {sep : Separator Rat ExtRat} {row : MixedRow Rat ExtRat} {x : List Rat}

/-- The parameters of a row are the ones of the form that is left when its columns are fixed. -/
theorem mem_parameters_of_fixedColumns {f : MixedForm Rat} {x : Nat → Rat} {t : Nat × Rat}
    (ht : t ∈ (f.fixedColumns x).linear) : t.1 ∈ f.parameters := by
  obtain ⟨p, hp, rfl⟩ := List.mem_map.mp ht
  obtain ⟨c, hc⟩ := exists_mem_of_mem_gather id hp
  obtain ⟨q, hq, hmem⟩ := List.mem_flatMap.mp hc
  obtain ⟨t', ht', heq⟩ := List.mem_map.mp hmem
  have hkey : t'.1 = p.1 := congrArg Prod.fst heq
  rcases List.mem_cons.mp hq with rfl | hq
  · exact hkey ▸ MixedForm.mem_parameters_of_mem_constant ht'
  · obtain ⟨c, hc, rfl⟩ := List.mem_map.mp hq
    exact hkey ▸ MixedForm.mem_parameters_of_mem_coef hc ht'

/-- **Separating by worst cases is exact.** -/
theorem settles_separateBy (hs : s.WellFormed) {u₀ : List Rat} (hu₀ : s.Admits u₀) (htol : 0 ≤ tol) (hsep : sep.Exact s tol n)
    (hparameters : ∀ k ∈ row.form.parameters, k < s.numParameters) (hcolumns : ∀ t ∈ row.form.linear, t.1 < x.length) :
    Settles n (separateBy sep row (Lookup.ofList x)) (row.Separation s tol x) := by
  have hx : ∀ t ∈ row.form.linear, ∃ a, Lookup.ofList x t.1 = .ok a := fun t ht => ⟨_, Lookup.ofList_of_lt (hcolumns t ht)⟩
  have hpart : row.form.uncertainPart (Lookup.ofList x) = .ok (row.form.fixedColumns (entries x)) := by
    rw [← number_ofList x]
    exact MixedForm.uncertainPart_eq_ok_iff.mpr ⟨hx, rfl⟩
  have hvalue : ∀ v, (row.form.fixedColumns (entries x)).value v = row.form.value (entries x) v := fun v =>
    MixedForm.value_fixedColumns _ _ _
  have hg : ∀ t ∈ (row.form.fixedColumns (entries x)).linear, t.1 < s.numParameters :=
    fun t ht => hparameters t.1 (mem_parameters_of_fixedColumns ht)
  have hdefined : ∀ u, s.Admits u → ∃ w, row.violation (Lookup.ofList x) (Lookup.ofList u) = .ok w
      ∧ row.IsViolation ((row.form.fixedColumns (entries x)).value (entries u)) w := by
    intro u hu
    obtain ⟨w, hw, hviolation⟩ := MixedRow.exists_violation hx fun k hk =>
      ⟨_, Lookup.ofList_of_lt ((hparameters k hk).trans_eq hu.size.symm)⟩
    rw [number_ofList, number_ofList, ← hvalue] at hviolation
    exact ⟨w, hw, hviolation⟩
  have hrun : separateBy sep row (Lookup.ofList x) = (do
      let a ← separateUpper sep (row.form.fixedColumns (entries x)) row
      let b ← separateLower sep (row.form.fixedColumns (entries x)) row
      return worseOf a b) := by
    unfold separateBy
    rw [hpart]
    rfl
  rw [hrun]
  refine .bind (settles_separateUpper hs hu₀ hsep hg row) (fun err hupper => ?_) fun a => ?_
  · cases hupper with
    | diverges hlimits hdiverges => exact MixedRow.separation_error hvalue hlimits hdiverges
  refine .bind (settles_separateLower hs hu₀ hsep hg row) (fun err hlower hupper => ?_) fun b => ?_
  · cases hlower with
    | diverges hlimits hdiverges => exact MixedRow.separation_error hvalue hlimits hdiverges
  exact .pure fun hlower hupper => hupper.separation hlower htol hvalue hdefined

/-! ## The oracle -/

theorem run_oracleOf {env : Environment Rat ExtRat} {o : OracleId} {oracle : Oracle Rat ExtRat}
    (h : env.oracles[o]? = some oracle) : (oracleOf o).run env = (.ok oracle, env) := by
  unfold oracleOf
  rw [Edit.run_bind_of_ok (Edit.run_get env), h]
  rfl

/-- The environment after a request was recorded. -/
def noted (env : Environment Rat ExtRat) (q : OracleCall Rat ExtRat) : Environment Rat ExtRat :=
  { env with questions := env.questions ++ [q] }

theorem run_ask (q : OracleCall Rat ExtRat) (env : Environment Rat ExtRat) : (ask q).run env = (.ok ⟨⟩, noted env q) := rfl

theorem run_setUp_of_separating {env : Environment Rat ExtRat} {o : OracleId} {preferred : Bool}
    (ho : env.oracles[o]? = some (.separating preferred sep)) (options : OracleOptions Rat) :
    (setUp o s options).run env = (setUpSeparating o preferred sep s options).run (noted env (.setup o)) := by
  have hnoted : (noted env (.setup o)).oracles[o]? = some (.separating preferred sep) := ho
  unfold setUp
  rw [Edit.run_bind_of_ok (run_ask _ env), Edit.run_bind_of_ok (run_oracleOf hnoted)]

theorem run_separate_of_separating {env : Environment Rat ExtRat} {o : OracleId} {preferred : Bool}
    (ho : env.oracles[o]? = some (.separating preferred sep)) (row : MixedRow Rat ExtRat) (x : List Rat) :
    (separate o row (some x)).run env = (separateBy sep row (Lookup.ofList x)).run (noted env (.separate o row (some x))) := by
  have hnoted : (noted env (.separate o row (some x))).oracles[o]? = some (.separating preferred sep) := ho
  unfold separate
  rw [Edit.run_bind_of_ok (run_ask _ env), Edit.run_bind_of_ok (run_oracleOf hnoted)]
  rfl

/-- A nominal point is only found by a solver that is there; if its answer was definite, it is a point of the set. -/
theorem admits_of_run_nominalOf (hs : s.WellFormed) {i : Option SolverId} {p : LinearProgram Rat ExtRat}
    (hp : s.toProgram (some setProgramName) = .ok p) {env env' : Environment Rat ExtRat} {u : List Rat}
    (hrun : (nominalOf i p).run env = (.ok u, env')) (hdecided : env.Decided env') :
    s.Admits u ∧ (∃ j < env.solvers.length, i = some j) ∧ env'.oracles = env.oracles := by
  have htrusted : env.Trusted (fun p r => r.Definite p) env' := by
    intro new hnew a ha r hr
    obtain ⟨r', hr', hdefinite⟩ := hdecided new hnew a ha
    obtain rfl : r' = r := Except.ok.inj (hr'.symm.trans hr)
    exact hdefinite
  obtain ⟨horacles, r, hdefinite, htermination, hpoint⟩ :=
    (ensures_nominalOf (P := fun os => os = env.oracles) i p env).2 u env' hrun rfl htrusted
  obtain ⟨u', hu', hlength, hfeasible, hintegral, -⟩ := hdefinite.optimal htermination
  obtain rfl : u = u' := Option.some.inj (hpoint.symm.trans hu')
  refine ⟨(admits_iff_feasible hs hp).mpr ⟨hlength, hfeasible, hintegral⟩, ?_, horacles⟩
  cases i with
  | none => cases hrun
  | some j =>
    refine ⟨j, ?_, rfl⟩
    by_contra hlt
    have hnone := run_solverOf_of_none (List.getElem?_eq_none_iff.mpr (not_lt.mp hlt))
    cases hrun.symm.trans (Edit.run_bind_of_error (Edit.run_bind_of_error hnone))

theorem oracle_of_run_setOracle {o : OracleId} {oracle : Oracle Rat ExtRat} {env env' : Environment Rat ExtRat}
    (ho : o < env.oracles.length) (hrun : (setOracle o oracle).run env = (.ok ⟨⟩, env')) : env'.oracles[o]? = some oracle := by
  cases hrun
  exact List.getElem?_set_self ho

/-- **A separating oracle that is set up** can separate exactly. -/
theorem exact_of_run_setUpSeparating (hs : s.WellFormed) {u₀ : List Rat} (hu₀ : s.Admits u₀) {o : OracleId}
    {options : OracleOptions Rat} (htolerance : options.tolerance = some tol) {preferred : Bool} (hunlimited : sep.allowance = none)
    {env env' : Environment Rat ExtRat} (ho : o < env.oracles.length)
    (hrun : (setUpSeparating o preferred sep s options).run env = (.ok ⟨⟩, env')) (hdecided : env.Decided env') :
    ∃ sep' : Separator Rat ExtRat, env'.oracles[o]? = some (.separating preferred sep')
      ∧ sep'.Exact s tol env.solvers.length := by
  unfold setUpSeparating at hrun
  obtain ⟨p, env₁, hlift, hrest⟩ := Edit.run_bind_eq_ok.mp hrun
  obtain ⟨hp, henv⟩ := Edit.run_lift_eq_ok.mp hlift
  rw [henv] at hrest
  dsimp only at hrest
  have hmade : ∀ u, s.Admits u →
      (s.numParameters ≠ 0 → ∃ i < env.solvers.length, (begun sep options p).solver = some i) →
      Separator.Exact s tol env.solvers.length { begun sep options p with nominal := some u } := fun u hu hsolver =>
    { program := ⟨p, hp, rfl⟩, tolerance := htolerance, nominal := ⟨u, rfl, hu⟩, unlimited := hunlimited, solver := hsolver }
  obtain ⟨⟨⟩, env₂, hset, hrest⟩ := Edit.run_bind_eq_ok.mp hrest
  have ho₂ : o < env₂.oracles.length := (List.getElem?_eq_some_iff.mp (oracle_of_run_setOracle ho hset)).1
  cases hset
  split at hrest
  next hzero =>
    have hnil : u₀ = [] := List.eq_nil_of_length_eq_zero (hu₀.size.trans hzero)
    exact ⟨_, oracle_of_run_setOracle ho₂ hrest, hmade [] (hnil ▸ hu₀) fun h => absurd hzero h⟩
  next hne =>
    obtain ⟨u, env₃, hnominal, hset'⟩ := Edit.run_bind_eq_ok.mp hrest
    obtain ⟨hu, hsolver, horacles⟩ := admits_of_run_nominalOf hs hp hnominal (by cases hset'; exact hdecided)
    exact ⟨_, oracle_of_run_setOracle (horacles ▸ ho₂) hset', hmade u hu fun _ => hsolver⟩

/-- **Separation is exact.** An oracle is set up against a set that is not empty, and later asked to separate a candidate from a row,
without a limit of time. If all answers of solvers are definite, then it finds nothing exactly if the row holds at all points of the
set up to the tolerance; a point that it finds has the largest violation; and it fails exactly if a bounded side of the row is
unbounded over the set. -/
theorem separate_exact (hs : s.WellFormed) (hnonempty : ∃ u, s.Admits u) {o : OracleId} {options : OracleOptions Rat}
    (htolerance : options.tolerance = some tol) (htol : 0 ≤ tol) {preferred : Bool} {env₀ env₁ env env' : Environment Rat ExtRat}
    (ho : env₀.oracles[o]? = some (.separating preferred sep)) (hunlimited : sep.allowance = none)
    (hsetUp : (setUp o s options).run env₀ = (.ok ⟨⟩, env₁)) (hdecided₀ : env₀.Decided env₁)
    (hlater : env₁.Before env) (hkept : env.oracles[o]? = env₁.oracles[o]?)
    (hparameters : ∀ k ∈ row.form.parameters, k < s.numParameters) (hcolumns : ∀ t ∈ row.form.linear, t.1 < x.length)
    {r : Except Error (Option (Realization Rat ExtRat))} (hrun : (separate o row (some x)).run env = (r, env'))
    (hdecided : env.Decided env') : row.Separation s tol x r := by
  obtain ⟨u₀, hu₀⟩ := hnonempty
  have hcount : env.solvers.length = env₀.solvers.length := by
    have hbefore := (@ensures_setUp s s.Admits (fun _ => True) o options env₀).1
    rw [hsetUp] at hbefore
    exact hlater.length_solvers.trans hbefore.length_solvers
  rw [run_setUp_of_separating ho] at hsetUp
  have ho' : o < (noted env₀ (.setup o)).oracles.length := (List.getElem?_eq_some_iff.mp ho).1
  obtain ⟨sep', hsep', hexact⟩ := exact_of_run_setUpSeparating hs hu₀ htolerance hunlimited ho' hsetUp hdecided₀
  rw [run_separate_of_separating (hkept.trans hsep')] at hrun
  have hsettles := (settles_separateBy hs hu₀ htol hexact hparameters hcolumns (noted env (.separate o row (some x)))).2
  rw [hrun] at hsettles
  exact hsettles hcount hdecided

/-- Two parameters between zero and one whose sum is at most one. -/
def wedge : UncertaintySet Rat ExtRat :=
  { lower := [finite 0, finite 0], upper := [finite 1, finite 1], integer := [false, false], names := ["u", "v"]
    atMostRows := [[1, 1]], atMostBounds := [finite 1] }

/-- The row `1/4 ≤ (1 + u) x - v ≤ 3/2`. -/
def wedgeRow : MixedRow Rat ExtRat :=
  { form := { linear := [(0, { linear := [(0, 1)], constant := 1 })], constant := { linear := [(1, -1)], constant := 0 } }
    lower := finite (1 / 4), upper := finite (3 / 2) }

def wedgeOptions : OracleOptions Rat := { solver := some 0, tolerance := some (1 / 8) }

/-- A separating oracle, and a solver that will answer a nominal point and both worst cases. -/
def wedgeEnvironment : Environment Rat ExtRat :=
  { clock := 0, oracles := [.separating false { tolerance := none }]
    solvers := [.replaying "s" [{ delay := 0, point := some [0, 0] }, { delay := 0, point := some [1, 0] },
      { delay := 0, point := some [0, 1] }]] }

/-- Both sides of the row are violated somewhere at `x = 1`, and the upper one more. -/
theorem separate_exact_wedge : ∃ env₁ env' : Environment Rat ExtRat, ∃ z : Realization Rat ExtRat,
    (setUp 0 wedge wedgeOptions).run wedgeEnvironment = (.ok ⟨⟩, env₁)
      ∧ (separate 0 wedgeRow (some [1])).run env₁ = (.ok (some z), env') ∧ wedgeRow.Worst wedge (1 / 8) [1] z
      ∧ z.point = [1, 0] ∧ z.violation = finite (1 / 2) := by
  have hwellFormed : wedge.WellFormed := ⟨rfl, rfl, rfl, rfl, by decide, by decide⟩
  have hmember : wedge.Admits [0, 0] := (contains_zero_iff hwellFormed).mp (by cbv)
  have hparameters : wedgeRow.form.parameters = [0, 1] := by cbv
  have hmade : ((setUp 0 wedge wedgeOptions).run wedgeEnvironment).1.isOk = true := by decide +kernel
  have hdecided₀ : wedgeEnvironment.decisive ((setUp 0 wedge wedgeOptions).run wedgeEnvironment).2 [.optimum [0, 0, 0]] = true := by
    decide +kernel
  have hfound : ((separate 0 wedgeRow (some [1])).run ((setUp 0 wedge wedgeOptions).run wedgeEnvironment).2).1.toOption.join.map
      (fun z => (z.point, z.violation)) = some ([1, 0], finite (1 / 2)) := by decide +kernel
  have hdecided : ((setUp 0 wedge wedgeOptions).run wedgeEnvironment).2.decisive
      ((separate 0 wedgeRow (some [1])).run ((setUp 0 wedge wedgeOptions).run wedgeEnvironment).2).2
      [.optimum [0, -1, 1], .optimum [0, 1, -1]] = true := by decide +kernel
  cases hsetUp : (setUp 0 wedge wedgeOptions).run wedgeEnvironment with
  | mk r₁ env₁ =>
    rw [hsetUp] at hmade hdecided₀ hfound hdecided
    cases hseparate : (separate 0 wedgeRow (some [1])).run env₁ with
    | mk r env' =>
      rw [hseparate] at hfound hdecided
      cases r₁ with
      | error err => cases hmade
      | ok done =>
        have hexact := separate_exact hwellFormed ⟨_, hmember⟩ rfl (by norm_num) (o := 0) rfl rfl hsetUp
          (Environment.decided_of_decisive hdecided₀) (.of_eq rfl rfl) rfl (hparameters ▸ by decide) (by decide) hseparate
          (Environment.decided_of_decisive hdecided)
        cases r with
        | error err => cases hfound
        | ok a =>
          cases a with
          | none => cases hfound
          | some z =>
            obtain ⟨hpoint, hviolation⟩ := Prod.mk.inj (Option.some.inj hfound)
            exact ⟨env₁, env', z, rfl, hseparate, hexact.worst z rfl, hpoint, hviolation⟩

end Run

end RobustLP
