import RobustLP.Proofs.Set.Program
import RobustLP.Proofs.Solve.Calls
import RobustLP.Proofs.Working

/-!
# What a separation finds

A separating oracle looks for the worst realization. If it answers none, the row holds at every point of the set, up to the
tolerance; if it answers one, the row is violated there by more than the tolerance (`ensures_separateBy`). Both rest on the
answers of the solver, which must be right where it was asked for an optimum over the set (`SolverResults.Right`). The points
that are found are the ones that the solver answered for the set (`SolverResults.Draws`).
-/

namespace RobustLP

open ExtRat UncertaintySet

/-- A value is at least as good as another one. -/
def Sense.NoWorse (sense : Sense) (a b : Rat) : Prop :=
  match sense with
  | .minimize => a ≤ b
  | .maximize => b ≤ a

theorem Sense.NoWorse.refl (sense : Sense) (a : Rat) : sense.NoWorse a a := by
  cases sense with
  | minimize => exact le_refl a
  | maximize => exact le_refl a

/-- A program is the one that stands for a set, but for its objective. -/
def UncertaintySet.StandsBehind (s : UncertaintySet Rat ExtRat) (p : LinearProgram Rat ExtRat) : Prop :=
  ∃ q, s.toProgram (some Run.setProgramName) = .ok q ∧ p.columns = q.columns ∧ p.rows = q.rows

/-- **A right answer to a program:** if it is optimal, it comes with a point of the program and the objective there. Over an
uncertainty set no point of the program with integers for the integer columns is better. -/
def SolverResults.Right (s : UncertaintySet Rat ExtRat) (p : LinearProgram Rat ExtRat) (r : SolverResults Rat) : Prop :=
  r.termination = .optimal → ∃ x : List Rat, r.point = some x ∧ x.length = p.numColumns ∧ p.Feasible (entries x)
    ∧ r.objective = some (p.objectiveAt (entries x))
    ∧ (s.StandsBehind p → ∀ v, p.Feasible v → p.Integral v →
      p.objective.sense.NoWorse (p.objectiveAt (entries x)) (p.objectiveAt v))

/-- **A right answer that draws from some points:** where the solver was asked for an optimum over the set, it answers one of
them. -/
def SolverResults.Draws (s : UncertaintySet Rat ExtRat) (drawn : List Rat → Prop) (p : LinearProgram Rat ExtRat)
    (r : SolverResults Rat) : Prop :=
  r.Right s p ∧ (s.StandsBehind p → r.termination = .optimal → ∀ x, r.point = some x → drawn x)

/-- A right answer draws from all points. -/
theorem SolverResults.Right.draws {s : UncertaintySet Rat ExtRat} {p : LinearProgram Rat ExtRat} {r : SolverResults Rat}
    (h : r.Right s p) : r.Draws s (fun _ => True) p :=
  ⟨h, fun _ _ _ _ => trivial⟩

/-- The slack that a tolerance stands for. -/
def slackOf (tolerance : Option Rat) : Rat := max 0 (tolerance.getD 0)

/-- A separating oracle that was set up against a set. -/
structure Separator.Ready (s : UncertaintySet Rat ExtRat) (tolerance : Option Rat) (drawn : List Rat → Prop)
    (sep : Separator Rat ExtRat) : Prop where
  program : ∃ p, s.toProgram (some Run.setProgramName) = .ok p ∧ sep.program = some p
  tolerance : sep.tolerance = tolerance
  nominal : ∃ x, sep.nominal = some x ∧ drawn x

/-- **A worst case of a form** over a set: no point has a worse value, and one of the points that are drawn has this value. -/
structure WorstCase (s : UncertaintySet Rat ExtRat) (drawn : List Rat → Prop) (g : Form Rat) (sense : Sense)
    (a : Option Rat × Option (List Rat)) : Prop where
  bound : ∀ q, a.1 = some q → ∀ v, s.Solves v → s.Integral v → sense.NoWorse q (g.value v)
  attained : ∀ q x, a.1 = some q → a.2 = some x → drawn x ∧ q = g.value (entries x)

/-- **What a separation says** of a condition, which depends on the slack: if nothing is found, the condition holds at all points
of the set; a point that is found is one of those that are drawn, and the condition does not hold there. -/
structure Separated (s : UncertaintySet Rat ExtRat) (tolerance : Option Rat) (drawn : List Rat → Prop)
    (holds : Rat → (Nat → Rat) → Prop) (a : Option (Realization Rat ExtRat)) : Prop where
  none : a = none → ∀ v, s.Solves v → s.Integral v → holds (slackOf tolerance) v
  some : ∀ z, a = some z → drawn z.point ∧ ∀ t, tolerance = some t → ¬holds t (entries z.point)

namespace LinearProgram

/-- **A program with another objective** has the same points, and the objective has the value of the form. -/
theorem withObjective_eq_ok {p q : LinearProgram Rat ExtRat} {g : Form Rat} {sense : Sense}
    (h : p.withObjective g.linear g.constant sense = .ok q) : q.columns = p.columns ∧ q.rows = p.rows
      ∧ q.objective.sense = sense ∧ ∀ v, q.objectiveAt v = g.value v := by
  unfold withObjective setObjective at h
  rw [Edit.run_bind_of_ok (Edit.run_get p)] at h
  cases hread : readTerms p.numColumns (given g.linear) with
  | error err =>
    rw [hread] at h
    cases h
  | ok coefs =>
    obtain rfl := eq_of_readTerms_given hread
    rw [hread] at h
    cases h
    have hvalue : ∀ v, lhs v (collect g.linear) + g.constant = g.value v := by
      intro v
      rw [lhs_collect]
      rfl
    exact ⟨rfl, rfl, rfl, hvalue⟩

end LinearProgram

namespace Run

variable {s : UncertaintySet Rat ExtRat} (tolerance : Option Rat) {drawn : List Rat → Prop} {sep : Separator Rat ExtRat}
  {P : Condition}

/-- The nominal point is a worst case of a form that is constant. -/
theorem worstCase_of_isConstant {g : Form Rat} (h : g.isConstant = true) (sense : Sense)
    (hready : sep.Ready s tolerance drawn) : WorstCase s drawn g sense (some g.constant, sep.nominal) where
  bound q hq v _ _ := by
    cases hq
    rw [Form.value_of_isConstant h]
    exact .refl sense _
  attained q x hq hx := by
    cases hq
    obtain ⟨z, hz, hdrawn⟩ := hready.nominal
    obtain rfl : z = x := Option.some.inj (hz.symm.trans hx)
    exact ⟨hdrawn, (Form.value_of_isConstant h _).symm⟩

/-- **An optimum over the program of the set** is a worst case. -/
theorem worstCase_of_optimal {g : Form Rat} {sense : Sense} (hready : sep.Ready s tolerance drawn)
    {p q : LinearProgram Rat ExtRat} (hp : sep.program = some p) (hq : p.withObjective g.linear g.constant sense = .ok q)
    {r : SolverResults Rat} (hdraws : r.Draws s drawn q) (htermination : r.termination = .optimal) {x : List Rat}
    (hx : r.point = some x) : WorstCase s drawn g sense (r.objective, some x) := by
  obtain ⟨hcolumns, hrows, hsense, hform⟩ := LinearProgram.withObjective_eq_ok hq
  obtain ⟨p', hprogram, hp'⟩ := hready.program
  obtain rfl : p' = p := Option.some.inj (hp'.symm.trans hp)
  have hstands : s.StandsBehind q := ⟨p', hprogram, hcolumns, hrows⟩
  obtain ⟨y, hy, -, -, hobjective, hoptimal⟩ := hdraws.1 htermination
  obtain rfl : x = y := Option.some.inj (hx.symm.trans hy)
  have hvalue : ∀ value, r.objective = some value → value = g.value (entries x) := by
    intro value hsome
    rw [← hform]
    exact Option.some.inj (hsome.symm.trans hobjective)
  refine ⟨fun value hsome v hv hint => ?_, fun value z hsome hz => ?_⟩
  · obtain ⟨hset, hfeasible⟩ := points_toProgram hprogram
    have hv' := (hfeasible v).mpr hv
    have hnoWorse := hoptimal hstands v ⟨hrows ▸ hv'.rows, hcolumns ▸ hv'.columns⟩
      (integral_of_columnsOf (hcolumns.trans hset) hint)
    rw [hsense, hform, hform] at hnoWorse
    rw [hvalue value hsome]
    exact hnoWorse
  · cases hz
    exact ⟨hdraws.2 hstands htermination x hx, hvalue value hsome⟩

theorem ensures_worstCase (g : Form Rat) (sense : Sense) :
    Ensures (SolverResults.Draws s drawn) (worstCase sep g sense) P fun a os =>
      P os ∧ (sep.Ready s tolerance drawn → WorstCase s drawn g sense a) := by
  unfold worstCase
  split
  next hconstant => exact .pure fun os hP => ⟨hP, worstCase_of_isConstant tolerance hconstant sense⟩
  next =>
    split
    next => exact .throw _
    next p hp =>
      refine .bind (Q := fun q os => P os ∧ p.withObjective g.linear g.constant sense = .ok q)
        (.lift fun q os hq hP => ⟨hP, hq⟩) fun q => ?_
      refine .bind (ensures_solve _ _ q) fun r => .quiet_bind (quiet_solverName _) fun name => ?_
      split
      next => exact .throw _
      next => exact .throw _
      next => exact .throw _
      next x htermination hpoint =>
        exact .pure fun os ⟨⟨hP, hobjective⟩, hdraws⟩ =>
          ⟨hP, fun hready => worstCase_of_optimal tolerance hready hp hobjective hdraws htermination hpoint⟩
      next => exact .throw _

/-! ## One side -/

theorem ensures_known {right : LinearProgram Rat ExtRat → SolverResults Rat → Prop} (value : Option Rat) :
    Ensures right (known value) P fun q os => P os ∧ value = some q := by
  cases value with
  | none => exact .throw _
  | some q => exact .pure fun os hP => ⟨hP, rfl⟩

theorem excess_le_iff {q t : Rat} {b : ExtRat} :
    le (Scalar.excess q b) (finite t) = true ↔ le (finite q) (b.shift (-t)) = true := by
  cases b with
  | finite p =>
    simp only [Scalar.excess, ExtRat.shift, ExtRat.neg, finite_le_finite]
    constructor
    · intro h
      linarith
    · intro h
      linarith
  | negInf => simp [Scalar.excess, ExtRat.shift, ExtRat.neg]
  | posInf => simp [Scalar.excess, ExtRat.shift, ExtRat.neg]

theorem shift_le_iff {q t : Rat} {b : ExtRat} :
    le (b.shift q) (finite t) = true ↔ le (b.shift t) (finite q) = true := by
  rw [shift_le_finite, shift_le_finite, add_comm]

/-- A violation is answered if it exceeds the tolerance. -/
theorem ensures_violatedAt {right : LinearProgram Rat ExtRat → SolverResults Rat → Prop} (side : String)
    (violation : ExtRat) (point : Option (List Rat)) : Ensures right (violatedAt sep side violation point) P
      fun a os => P os ∧ (sep.tolerance = tolerance → (a = none → le violation (finite (slackOf tolerance)) = true)
        ∧ ∀ z, a = some z → point = some z.point ∧ ∀ t, tolerance = some t → ¬le violation (finite t) = true) := by
  unfold violatedAt
  cases htolerance : sep.tolerance with
  | none => exact .throw _
  | some tol =>
    dsimp only
    split
    next hviolation =>
      split
      next =>
        refine .pure fun os hP => ⟨hP, fun heq => ⟨fun hnone => absurd hnone (Option.some_ne_none _), fun z hz => ?_⟩⟩
        cases hz
        refine ⟨rfl, fun t ht hle => ?_⟩
        obtain rfl : tol = t := Option.some.inj (heq.trans ht)
        rw [ExtRat.le, Bool.not_eq_true'] at hle
        exact Bool.false_ne_true (hle.symm.trans hviolation)
      next => exact .throw _
    next hviolation =>
      refine .pure fun os hP => ⟨hP, fun heq => ⟨fun _ => ?_, fun z hz => absurd hz.symm (Option.some_ne_none z)⟩⟩
      have htol : le violation (finite tol) = true := by
        rw [ExtRat.le, Bool.not_eq_true']
        exact Bool.eq_false_iff.mpr hviolation
      rw [← heq]
      exact le_finite_of_le (le_max_right _ _) htol

/-- **Separating from above:** the value exceeds the upper bound. -/
theorem ensures_separateUpper (g : Form Rat) (row : MixedRow Rat ExtRat) :
    Ensures (SolverResults.Draws s drawn) (separateUpper sep g row) P fun a os => P os ∧ (sep.Ready s tolerance drawn →
      Separated s tolerance drawn (fun t v => le (finite (g.value v)) (row.upper.shift (-t)) = true) a) := by
  unfold separateUpper
  split
  next =>
    refine .bind (ensures_worstCase tolerance g .maximize) fun (value, point) => .bind (ensures_known value) fun q => ?_
    refine (ensures_violatedAt tolerance "upper" (Scalar.excess q row.upper) point).mono (fun _ h => h) ?_
    rintro a os ⟨⟨⟨hP, hworst⟩, hq⟩, hviolation⟩
    refine ⟨hP, fun hready => ⟨fun hnone v hv hint => ?_, fun z hz => ?_⟩⟩
    · have hbound := excess_le_iff.mp ((hviolation hready.tolerance).1 hnone)
      exact finite_le_of_le ((hworst hready).bound q hq v hv hint) hbound
    · obtain ⟨hpoint, hlarge⟩ := (hviolation hready.tolerance).2 z hz
      obtain ⟨hdrawn, rfl⟩ := (hworst hready).attained q z.point hq hpoint
      exact ⟨hdrawn, fun t ht hle => hlarge t ht (excess_le_iff.mpr hle)⟩
  next hunbounded =>
    refine .pure fun os hP => ⟨hP, fun _ => ⟨fun _ v _ _ => ?_, nofun⟩⟩
    rw [not_not.mp (mt isUpper_iff.mpr hunbounded)]
    exact le_posInf _

/-- **Separating from below:** the value falls below the lower bound. -/
theorem ensures_separateLower (g : Form Rat) (row : MixedRow Rat ExtRat) :
    Ensures (SolverResults.Draws s drawn) (separateLower sep g row) P fun a os => P os ∧ (sep.Ready s tolerance drawn →
      Separated s tolerance drawn (fun t v => le (row.lower.shift t) (finite (g.value v)) = true) a) := by
  unfold separateLower
  split
  next =>
    refine .bind (ensures_worstCase tolerance g .minimize) fun (value, point) => .bind (ensures_known value) fun q => ?_
    refine (ensures_violatedAt tolerance "lower" (Scalar.shift row.lower q) point).mono (fun _ h => h) ?_
    rintro a os ⟨⟨⟨hP, hworst⟩, hq⟩, hviolation⟩
    refine ⟨hP, fun hready => ⟨fun hnone v hv hint => ?_, fun z hz => ?_⟩⟩
    · have hbound := shift_le_iff.mp ((hviolation hready.tolerance).1 hnone)
      exact le_finite_of_le ((hworst hready).bound q hq v hv hint) hbound
    · obtain ⟨hpoint, hlarge⟩ := (hviolation hready.tolerance).2 z hz
      obtain ⟨hdrawn, rfl⟩ := (hworst hready).attained q z.point hq hpoint
      exact ⟨hdrawn, fun t ht hle => hlarge t ht (shift_le_iff.mpr hle)⟩
  next hunbounded =>
    refine .pure fun os hP => ⟨hP, fun _ => ⟨fun _ v _ _ => ?_, nofun⟩⟩
    rw [not_not.mp (mt isLower_iff.mpr hunbounded)]
    exact negInf_le _

/-! ## Both sides -/

theorem worseOf_eq_none {a b : Option (Realization Rat ExtRat)} (h : worseOf a b = none) : a = none ∧ b = none := by
  cases a with
  | none => exact ⟨rfl, h⟩
  | some a =>
    cases b with
    | none => cases h
    | some b =>
      unfold worseOf at h
      dsimp only at h
      split at h
      next => cases h
      next => cases h

/-- What is found is found on one of the sides, and neither side has a larger violation. -/
theorem worseOf_eq_some {a b : Option (Realization Rat ExtRat)} {z : Realization Rat ExtRat} (h : worseOf a b = some z) :
    (a = some z ∨ b = some z) ∧ (∀ z', a = some z' → le z'.violation z.violation = true)
      ∧ ∀ z', b = some z' → le z'.violation z.violation = true := by
  cases a with
  | none =>
    obtain rfl : b = some z := h
    refine ⟨.inr rfl, nofun, fun z' hz' => ?_⟩
    cases hz'
    exact ExtRat.le_refl _
  | some a =>
    cases b with
    | none =>
      cases h
      refine ⟨.inl rfl, fun z' hz' => ?_, nofun⟩
      cases hz'
      exact ExtRat.le_refl _
    | some b =>
      unfold worseOf at h
      dsimp only at h
      split at h
      next hlt =>
        cases h
        refine ⟨.inr rfl, fun z' hz' => ?_, fun z' hz' => ?_⟩
        · cases hz'
          exact ExtRat.le_of_lt hlt
        · cases hz'
          exact ExtRat.le_refl _
      next hle =>
        cases h
        refine ⟨.inl rfl, fun z' hz' => ?_, fun z' hz' => ?_⟩
        · cases hz'
          exact ExtRat.le_refl _
        · cases hz'
          exact le_iff_not_lt.mpr hle

/-- **Separating a row:** with none it holds at all points of the set, up to the tolerance; a point that is found is drawn, and
the row does not hold there. -/
theorem ensures_separateBy (row : MixedRow Rat ExtRat) (X : Lookup Rat) :
    Ensures (SolverResults.Draws s drawn) (separateBy sep row X) P fun a os => P os ∧ (sep.Ready s tolerance drawn →
      Separated s tolerance drawn (fun t v => row.HoldsWithin t X.number v) a) := by
  unfold separateBy
  refine .bind (Q := fun g os => P os ∧ row.form.uncertainPart X = .ok g) (.liftFault fun g os hg hP => ⟨hP, hg⟩) fun g => ?_
  refine .bind (ensures_separateUpper tolerance g row) fun a => .bind (ensures_separateLower tolerance g row) fun b => ?_
  refine .pure fun os ⟨⟨⟨hP, hpart⟩, hupper⟩, hlower⟩ => ⟨hP, fun hready => ⟨fun hnone v hv hint => ?_, fun z hz => ?_⟩⟩
  · obtain ⟨ha, hb⟩ := worseOf_eq_none hnone
    rw [MixedRow.HoldsWithin, ← MixedForm.value_uncertainPart hpart v]
    exact ⟨(hlower hready).none hb v hv hint, (hupper hready).none ha v hv hint⟩
  · unfold MixedRow.HoldsWithin
    rcases (worseOf_eq_some hz).1 with ha | hb
    · obtain ⟨hdrawn, hviolated⟩ := (hupper hready).some z ha
      refine ⟨hdrawn, fun t ht hholds => hviolated t ht ?_⟩
      rw [MixedForm.value_uncertainPart hpart]
      exact hholds.2
    · obtain ⟨hdrawn, hviolated⟩ := (hlower hready).some z hb
      refine ⟨hdrawn, fun t ht hholds => hviolated t ht ?_⟩
      rw [MixedForm.value_uncertainPart hpart]
      exact hholds.1

end Run

end RobustLP
