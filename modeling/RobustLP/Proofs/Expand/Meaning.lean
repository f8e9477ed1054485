import RobustLP.Proofs.Expand.Substitute

/-!
# Expansion keeps the meaning

An expanded working model says of its columns what the given one says of the decision rules that they make
(`apply_refines`). The steps before the substitution keep the meaning for the same numbers of the columns; the substitution
changes numbers to rules in the mixed rows, and leaves the program alone, in which no adaptive column is left.
-/

namespace RobustLP

open ExtRat

namespace Expander

variable {e : Expander} {wm : WorkingModel Rat ExtRat}

/-- An adaptive column has an uncertain coefficient, so that its rule would make the form quadratic in the parameters. -/
def Quadratic (e : Expander) (f : MixedForm Rat) : Prop :=
  ∃ t ∈ f.linear, e.isAdaptive t.1 = true ∧ t.2.isConstant = false

theorem not_quadratic_iff {f : MixedForm Rat} : ¬e.Quadratic f ↔ e.Certain f := by
  unfold Quadratic Certain
  push Not
  simp only [ne_eq, Bool.not_eq_false]

/-- **What an expanded working model says,** for all numbers of its columns and of the parameters. -/
structure Refines (e : Expander) (wm wm' : WorkingModel Rat ExtRat) : Prop where
  /-- its points are those whose rules are points of the given one, and whose epigraph column bounds the objective -/
  holds : ∀ x u, wm'.Holds x u ↔ wm.Holds (e.rule wm'.auxColumns x u) u ∧ ∀ t, wm'.epigraphColumn = some t →
    wm.program.objective.sense.Pessimistic (x t) (wm.objective.value (e.rule wm'.auxColumns x u) u)
  /-- the same up to a slack for the mixed rows of each oracle -/
  within : ∀ slack x u, wm'.HoldsWithin slack (e.slackFor slack) x u
    ↔ wm.HoldsWithin slack (e.slackFor slack) (e.rule wm'.auxColumns x u) u
      ∧ ∀ t, wm'.epigraphColumn = some t → wm.program.objective.sense.PessimisticWithin (slack (some e.defaultOracle)) (x t)
        (wm.objective.value (e.rule wm'.auxColumns x u) u)
  /-- the program optimizes the epigraph column -/
  epigraphGoal : ∀ t, wm'.epigraphColumn = some t → ∀ x, wm'.program.objectiveAt x = x t
  /-- without epigraph column it optimizes the given objective -/
  directGoal : wm'.epigraphColumn = none →
    ∀ x u, wm'.program.objectiveAt x = wm.objective.value (e.rule wm'.auxColumns x u) u
  sense : wm'.program.objective.sense = wm.program.objective.sense
  /-- a pair has one column at most -/
  pairs : (wm'.auxColumns.map (·.1)).Nodup
  /-- different pairs have different columns -/
  distinct : (wm'.auxColumns.map (·.2)).Nodup
  /-- the columns of pairs are new, and none of them is the epigraph column -/
  new : ∀ q ∈ wm'.auxColumns, wm.program.numColumns ≤ q.2 ∧ q.2 < wm'.program.numColumns
    ∧ wm'.epigraphColumn ≠ some q.2
  /-- the pairs are those of the policies -/
  policy : ∀ q ∈ wm'.auxColumns, e.isAdaptive q.1.1 = true ∧ q.1.2 ∈ e.dependsOn q.1.1

/-- Numbers agree with the rules of all columns that have the columns of their pairs. -/
def Agrees (e : Expander) (aux : List ((Nat × Nat) × Nat)) (x u y : Nat → Rat) : Prop :=
  ∀ j, e.HasPairs aux j → y j = e.rule aux x u j

/-- What a solve relies on of an expanded working model, besides what it says. -/
structure Expanded (e : Expander) (wm wm' : WorkingModel Rat ExtRat) : Prop extends e.Refines wm wm' where
  /-- a column without the columns of its pairs does not matter -/
  agrees : ∀ slack x u y, e.Agrees wm'.auxColumns x u y → (wm'.HoldsWithin slack (e.slackFor slack) x u
    ↔ wm.HoldsWithin slack (e.slackFor slack) y u ∧ ∀ t, wm'.epigraphColumn = some t →
      wm.program.objective.sense.PessimisticWithin (slack (some e.defaultOracle)) (x t) (wm.objective.value y u))
  directAgrees : wm'.epigraphColumn = none → ∀ x u y, e.Agrees wm'.auxColumns x u y →
    wm'.program.objectiveAt x = wm.objective.value y u
  integers : wm.program.SameIntegers wm'.program
  /-- the epigraph column is new -/
  epigraphColumn : ∀ t, wm'.epigraphColumn = some t → wm.program.numColumns ≤ t
  wellFormed : wm'.WellFormed
  userColumns : wm'.userColumns = wm.userColumns
  columns : wm.program.numColumns ≤ wm'.program.numColumns
  /-- no oracle and no parameter is new, but for the default oracle and the parameters of the policies -/
  origin : ∀ r ∈ wm'.rows, (r.oracle = some e.defaultOracle ∨ ∃ r₀ ∈ wm.rows, r.oracle = r₀.oracle)
    ∧ ∀ k ∈ r.form.parameters, (∃ r₀ ∈ wm.rows, k ∈ r₀.form.parameters) ∨ k ∈ wm.objective.parameters ∨ e.Depends k

/-! ## Before the substitution -/

/-- The steps of an expansion from the objective on. -/
def finish (e : Expander) : Edit (WorkingModel Rat ExtRat) Unit := do
  liftObjective e
  substituteRows e

/-- The steps of an expansion. -/
def steps (e : Expander) : Edit (WorkingModel Rat ExtRat) Unit := do
  if !e.policies.isEmpty then
    liftRows e
    liftBounds e
  liftObjective e
  substituteRows e

theorem apply_of_ok {wm' : WorkingModel Rat ExtRat} (h : (steps e).run wm = (.ok ⟨⟩, wm')) : e.apply wm = .ok wm' := by
  unfold steps at h
  unfold apply
  dsimp only at h ⊢
  rw [h]

theorem apply_of_error {wm' : WorkingModel Rat ExtRat} {err : Error} (h : (steps e).run wm = (.error err, wm')) :
    e.apply wm = .error err := by
  unfold steps at h
  unfold apply
  dsimp only at h ⊢
  rw [h]

/-- The steps before the objective only concern adaptive columns, and keep the meaning. -/
theorem run_steps (h : wm.WellFormed) (he : e.Fits wm.program.numColumns) : ∃ wm₁,
    (steps e).run wm = (finish e).run wm₁ ∧ e.Same wm wm₁ ∧ e.RowsFree wm₁ ∧ e.ColumnsFree wm₁ := by
  unfold steps finish
  cases hempty : e.policies.isEmpty with
  | true =>
    have hnever : ∀ j, e.isAdaptive j = false := by
      intro j
      rw [isAdaptive, List.isEmpty_iff.mp hempty]
      rfl
    refine ⟨wm, rfl, .refl h, fun _ _ t _ => hnever t.1, fun j c _ had => ?_⟩
    rw [hnever j] at had
    cases had
  | false =>
    obtain ⟨wm₁, hrun₁, hsame₁, hrows⟩ := run_liftRows (e := e) h
    obtain ⟨wm₂, hrun₂, hsame₂, htables, hcolumns⟩ := run_liftBounds hsame₁.wellFormed (hsame₁.columns.symm ▸ he)
    refine ⟨wm₂, ?_, hsame₁.trans hsame₂, ?_, hcolumns⟩
    · rw [Bool.not_false, if_pos rfl, Edit.run_bind_of_ok hrun₁, Edit.run_bind_of_ok hrun₂]
    · unfold RowsFree
      rw [htables]
      exact hrows

/-! ## The program -/

theorem Agrees.refl (aux : List ((Nat × Nat) × Nat)) (x u : Nat → Rat) : e.Agrees aux x u (e.rule aux x u) :=
  fun _ _ => rfl

/-- Numbers that agree with the rules are those of the columns without policies. -/
theorem Agrees.eq_of_not_adaptive {aux : List ((Nat × Nat) × Nat)} {x u y : Nat → Rat} (h : e.Agrees aux x u y) {j : Nat}
    (hj : e.isAdaptive j = false) : y j = x j :=
  (h j (hasPairs_of_not_adaptive hj)).trans (rule_of_not_adaptive aux x u hj)

/-- A program without adaptive columns says the same of the numbers of the columns and of their rules. -/
theorem satisfies_agrees {s : WorkingModel Rat ExtRat} (hrows : e.RowsFree s) (hcolumns : e.ColumnsFree s)
    {aux : List ((Nat × Nat) × Nat)} {x u y : Nat → Rat} (hy : e.Agrees aux x u y) (d : List Nat → Rat) :
    s.program.Satisfies d y ↔ s.program.Satisfies d x := by
  have hlhs : ∀ q ∈ s.program.rows.entries, lhs y q.1 = lhs x q.1 := by
    intro q hq
    exact lhs_congr fun t ht => hy.eq_of_not_adaptive (hrows q.1 (List.of_mem_zip hq).1 t ht)
  have hbounds : ∀ j c, s.program.columns[j]? = some c →
      (Within (d [j]) c.lower c.upper (y j) ↔ Within (d [j]) c.lower c.upper (x j)) := by
    intro j c hc
    cases had : e.isAdaptive j with
    | true =>
      obtain ⟨hlower, hupper⟩ := hcolumns j c hc had
      rw [hlower, hupper]
      exact iff_of_true (within_free _ _) (within_free _ _)
    | false => rw [hy.eq_of_not_adaptive had]
  constructor
  · rintro ⟨htables, hbetween⟩
    exact ⟨fun q hq => hlhs q hq ▸ htables q hq, fun j c hc => (hbounds j c hc).mp (hbetween j c hc)⟩
  · rintro ⟨htables, hbetween⟩
    exact ⟨fun q hq => (hlhs q hq).symm ▸ htables q hq, fun j c hc => (hbounds j c hc).mpr (hbetween j c hc)⟩

/-- More free columns exclude nothing. -/
theorem Grows.satisfies_iff {s s' : WorkingModel Rat ExtRat} (h : Grows s s') {d : List Nat → Rat} {x : Nat → Rat} :
    s'.program.Satisfies d x ↔ s.program.Satisfies d x := by
  obtain ⟨extra, hextra, hfree⟩ := h.columns
  constructor
  · rintro ⟨htables, hbetween⟩
    refine ⟨h.tables ▸ htables, fun j c hc => hbetween j c ?_⟩
    rw [hextra, List.getElem?_append_left (List.getElem?_eq_some_iff.mp hc).1]
    exact hc
  · rintro ⟨htables, hbetween⟩
    refine ⟨h.tables.symm ▸ htables, fun j c hc => ?_⟩
    rw [hextra] at hc
    by_cases hj : j < s.program.columns.length
    · rw [List.getElem?_append_left hj] at hc
      exact hbetween j c hc
    · rw [List.getElem?_append_right (not_lt.mp hj)] at hc
      obtain ⟨hlower, hupper, -⟩ := hfree c (List.mem_of_getElem? hc)
      rw [hlower, hupper]
      exact within_free _ _

/-! ## The whole expansion -/

/-- The steps of an expansion, one after the other: the given model, after lifting, after the objective was handed over, and
after the substitution, which leaves the given rows. -/
structure Stepped (e : Expander) (wm wm₁ wm₂ s : WorkingModel Rat ExtRat) (rows : List (MixedRow Rat ExtRat)) : Prop where
  fits : e.Fits wm.program.numColumns
  same : e.Same wm wm₁
  rowsFree : e.RowsFree wm₁
  goal : e.GoalLifted wm₁ wm₂
  grows : Grows wm₂ s
  table : e.AuxTable wm₂.program.numColumns s
  pairs : ∀ r ∈ wm₂.rows, ∀ t ∈ r.form.linear, e.HasPairs s.auxColumns t.1
  holds : ∀ (slack : Option OracleId → Rat) x u, (∀ r ∈ rows, r.HoldsWithin (slack r.oracle) x u)
    ↔ ∀ r ∈ wm₂.rows, r.HoldsWithin (slack r.oracle) (e.rule s.auxColumns x u) u

section

variable {wm₁ wm₂ s : WorkingModel Rat ExtRat} {rows : List (MixedRow Rat ExtRat)} (h : e.Stepped wm wm₁ wm₂ s rows)
include h

theorem Stepped.columns : wm.program.numColumns ≤ wm₂.program.numColumns := h.same.columns ▸ h.goal.columns

/-- The epigraph column lies behind the columns of the given model and follows no policy. -/
theorem Stepped.epigraphColumn {t : Nat} (ht : s.epigraphColumn = some t) :
    t = wm.program.numColumns ∧ e.isAdaptive t = false := by
  rw [h.grows.epigraphColumn] at ht
  have heq : t = wm.program.numColumns := (h.goal.epigraphColumn t ht).trans h.same.columns
  exact ⟨heq, Bool.eq_false_iff.mpr fun had => (lt_of_isAdaptive h.fits had).ne heq⟩

/-- **What the expanded model says of its columns,** the given one says of numbers that agree with their rules. -/
theorem Stepped.within (slack : Option OracleId → Rat) {x u y : Nat → Rat} (hy : e.Agrees s.auxColumns x u y) :
    ({ s with rows } : WorkingModel Rat ExtRat).HoldsWithin slack (e.slackFor slack) x u
      ↔ wm.HoldsWithin slack (e.slackFor slack) y u ∧ ∀ t, s.epigraphColumn = some t →
        wm.program.objective.sense.PessimisticWithin (slack (some e.defaultOracle)) (x t) (wm.objective.value y u) := by
  have hprogram : s.program.Satisfies (e.slackFor slack) x ↔ wm₂.program.Satisfies (e.slackFor slack) y := by
    rw [h.grows.satisfies_iff,
      satisfies_agrees (fun row hrow => h.rowsFree row (h.goal.tables ▸ hrow)) h.goal.columnsFree hy]
  have hrows : (∀ r ∈ rows, r.HoldsWithin (slack r.oracle) x u) ↔ ∀ r ∈ wm₂.rows, r.HoldsWithin (slack r.oracle) y u := by
    rw [h.holds]
    refine forall₂_congr fun r hr => ?_
    rw [MixedRow.HoldsWithin, MixedRow.HoldsWithin,
      MixedForm.value_congr (fun t ht => (hy t.1 (h.pairs r hr t ht)).symm) fun _ _ => rfl]
  have hsplit : ({ s with rows } : WorkingModel Rat ExtRat).HoldsWithin slack (e.slackFor slack) x u
      ↔ wm₂.HoldsWithin slack (e.slackFor slack) y u :=
    ⟨fun hold => ⟨hprogram.mp hold.program, hrows.mp hold.rows⟩, fun hold => ⟨hprogram.mpr hold.program, hrows.mpr hold.rows⟩⟩
  rw [hsplit, h.goal.holds, h.same.holds, h.same.goal, h.same.objective, ← h.grows.epigraphColumn]
  refine and_congr_right fun _ => forall₂_congr fun t ht => ?_
  rw [hy.eq_of_not_adaptive (h.epigraphColumn ht).2]

/-- An objective without epigraph column is that of numbers that agree with the rules. -/
theorem Stepped.direct (hnone : s.epigraphColumn = none) {x u y : Nat → Rat} (hy : e.Agrees s.auxColumns x u y) :
    s.program.objectiveAt x = wm.objective.value y u := by
  obtain ⟨hnever, hvalue⟩ := h.goal.direct (h.grows.epigraphColumn ▸ hnone)
  rw [LinearProgram.objectiveAt, h.grows.goal]
  rw [h.same.objective] at hnever hvalue
  refine (hvalue x u).trans (MixedForm.value_congr (fun t ht => ?_) fun _ _ => rfl)
  exact (hy.eq_of_not_adaptive (hnever t ht)).symm

/-- **The substitution** gives a model that refines the given one. -/
theorem Stepped.refines : e.Refines wm { s with rows } := by
  refine ⟨fun x u => ?_, fun slack x u => h.within slack (.refl _ x u), fun t ht x => ?_,
    fun hnone x u => h.direct hnone (.refl _ x u), ?_, h.table.pairs, h.table.distinct, fun q hq => ?_, h.table.policy⟩
  · have hexact := h.within (fun _ => 0) (.refl s.auxColumns x u)
    rw [slackFor_zero] at hexact
    rw [WorkingModel.holds_iff_holdsWithin, WorkingModel.holds_iff_holdsWithin, hexact]
    simp only [Sense.pessimisticWithin_zero]
  · rw [LinearProgram.objectiveAt, h.grows.goal]
    exact h.goal.epigraph t (h.grows.epigraphColumn ▸ ht) x
  · rw [h.grows.goal, h.goal.sense, h.same.goal]
  · obtain ⟨hle, hlt⟩ := h.table.range q hq
    refine ⟨h.columns.trans hle, hlt, fun ht => ?_⟩
    have ht : wm₂.epigraphColumn = some q.2 := h.grows.epigraphColumn ▸ ht
    exact absurd (h.goal.epigraphColumn_lt q.2 ht) (not_lt.mpr hle)

/-- What the substitution keeps besides the meaning. -/
theorem Stepped.expanded (horigin : ∀ r ∈ rows, r.form.Fits s.program.numColumns
      ∧ ∃ r₀ ∈ wm₂.rows, r.oracle = r₀.oracle ∧ ∀ k ∈ r.form.parameters, k ∈ r₀.form.parameters ∨ e.Depends k) :
    e.Expanded wm { s with rows } where
  toRefines := h.refines
  agrees slack _ _ _ hy := h.within slack hy
  directAgrees hnone _ _ _ hy := h.direct hnone hy
  integers := h.same.integers.trans (h.goal.integers.trans h.grows.integers)
  epigraphColumn _ ht := (h.epigraphColumn ht).1.ge
  wellFormed := by
    have hle := h.grows.numColumns_le
    refine ⟨h.grows.tables ▸ h.goal.wellFormed.aligned, fun row hrow => ?_, fun r hr => (horigin r hr).1, ?_⟩
    · obtain ⟨hnodup, hlt⟩ := h.goal.wellFormed.coefs row (h.grows.tables ▸ hrow)
      exact ⟨hnodup, fun t ht => (hlt t ht).trans_le hle⟩
    · exact h.grows.objective.symm ▸ h.goal.wellFormed.objective.mono hle
  userColumns := h.grows.userColumns.trans (h.goal.userColumns.trans h.same.userColumns)
  columns := h.columns.trans h.grows.numColumns_le
  origin r hr := by
    obtain ⟨-, r₂, hr₂, horacle, hparameters⟩ := horigin r hr
    rw [horacle]
    rcases h.goal.origin r₂ hr₂ with hr₁ | ⟨hdefault, hobjective⟩
    · rcases h.same.origin r₂ hr₁ with hr₀ | ⟨hdefault, hnone⟩
      · refine ⟨.inr ⟨r₂, hr₀, rfl⟩, fun k hk => (hparameters k hk).imp (fun hk => ⟨r₂, hr₀, hk⟩) .inr⟩
      · refine ⟨.inl hdefault, fun k hk => .inr (.inr ((hparameters k hk).resolve_left fun hk => ?_))⟩
        rw [hnone] at hk
        cases hk
    · rw [h.same.objective] at hobjective
      exact ⟨.inl hdefault, fun k hk => .inr ((hparameters k hk).imp (hobjective ▸ ·) id)⟩

end

theorem Fits.mono {m n : Nat} (hmn : m ≤ n) (he : e.Fits m) : e.Fits n :=
  ⟨fun p hp => (he.columns p hp).trans_le hmn, he.names⟩

/-- **An expansion** gives a model that refines the given one, unless an adaptive column has an uncertain coefficient. -/
theorem steps_ends (h : wm.WellFormed) (haux : wm.auxColumns = []) (hnone : wm.epigraphColumn = none)
    (he : e.Fits wm.program.numColumns) :
    Ends ((∀ r ∈ wm.rows, e.Certain r.form) ∧ e.Certain wm.objective) (steps e) wm fun _ wm' => e.Expanded wm wm' := by
  obtain ⟨wm₁, hrun, hsame, hrows, hcolumns⟩ := run_steps h he
  obtain ⟨wm₂, hrun₂, hgoal⟩ := run_liftObjective (e := e) hsame.wellFormed (hsame.epigraphColumn.trans hnone) hcolumns
  have hcertain : (∀ r ∈ wm₂.rows, e.Certain r.form) ↔ (∀ r ∈ wm.rows, e.Certain r.form) ∧ e.Certain wm.objective := by
    rw [hgoal.certain, hsame.certain, hsame.objective]
  have hle : wm.program.numColumns ≤ wm₂.program.numColumns := hsame.columns ▸ hgoal.columns
  have htable : e.AuxTable wm₂.program.numColumns wm₂ := by
    have hnil : wm₂.auxColumns = [] := hgoal.auxColumns.trans (hsame.auxColumns.trans haux)
    refine ⟨le_rfl, ?_, ?_, ?_, ?_⟩ <;> simp [hnil]
  -- only the substitution can be refused
  have hend : Ends (∀ r ∈ wm₂.rows, e.Certain r.form) (substituteRows e) wm₂ fun _ wm' => e.Expanded wm wm' := by
    unfold substituteRows
    rcases substituteRows_ends (he.mono hle) hgoal.wellFormed.rows htable with
      ⟨hall, rows, s, hmap, hgrows, htable', horigin, hpairs, hholds⟩ | ⟨hall, err, s, hmap, hkind⟩
    · have hstepped : e.Stepped wm wm₁ wm₂ s rows :=
        ⟨he, hsame, hrows, hgoal, hgrows, htable', hpairs, hholds s (.refl s)⟩
      refine .inl ⟨hall, ⟨⟩, _, ?_, hstepped.expanded horigin⟩
      rw [Edit.run_bind_of_ok (Edit.run_get wm₂), Edit.run_bind_of_ok hmap]
      rfl
    · refine .inr ⟨hall, err, s, ?_, hkind⟩
      rw [Edit.run_bind_of_ok (Edit.run_get wm₂), Edit.run_bind_of_error hmap]
  unfold Ends at hend ⊢
  rw [hrun, finish, Edit.run_bind_of_ok hrun₂, ← hcertain]
  exact hend

/-- What an expansion answers. -/
theorem expanded_of_apply {wm' : WorkingModel Rat ExtRat} (h : wm.WellFormed) (haux : wm.auxColumns = [])
    (hnone : wm.epigraphColumn = none) (he : e.Fits wm.program.numColumns) (hok : e.apply wm = .ok wm') :
    e.Expanded wm wm' := by
  rcases steps_ends h haux hnone he with ⟨-, ⟨⟩, s, hrun, hexpanded⟩ | ⟨-, err, s, hrun, -⟩
  · cases (apply_of_ok hrun).symm.trans hok
    exact hexpanded
  · cases (apply_of_error hrun).symm.trans hok

/-- **An expansion keeps the meaning,** and is refused exactly when a rule would make a form quadratic in the parameters. -/
theorem apply_refines (h : wm.WellFormed) (haux : wm.auxColumns = []) (hnone : wm.epigraphColumn = none)
    (he : e.Fits wm.program.numColumns) :
    (∀ wm', e.apply wm = .ok wm' → e.Refines wm wm')
      ∧ ((∃ err, e.apply wm = .error err ∧ err.kind = .nonlinear)
        ↔ (∃ r ∈ wm.rows, e.Quadratic r.form) ∨ e.Quadratic wm.objective)
      ∧ ∀ err, e.apply wm = .error err → err.kind = .nonlinear := by
  have hquadratic : ((∃ r ∈ wm.rows, e.Quadratic r.form) ∨ e.Quadratic wm.objective)
      ↔ ¬((∀ r ∈ wm.rows, e.Certain r.form) ∧ e.Certain wm.objective) := by
    simp only [← not_quadratic_iff]
    push Not
    exact or_iff_not_imp_left.trans (by push Not; rfl)
  refine ⟨fun wm' hok => (expanded_of_apply h haux hnone he hok).toRefines, ?_⟩
  rw [hquadratic]
  rcases steps_ends h haux hnone he with ⟨hcertain, ⟨⟩, wm', hrun, -⟩ | ⟨hcertain, err, wm', hrun, hkind⟩
  · have hok := apply_of_ok hrun
    refine ⟨⟨?_, fun hnot => absurd hcertain hnot⟩, ?_⟩
    · rintro ⟨err, herr, -⟩
      cases hok.symm.trans herr
    · intro err herr
      cases hok.symm.trans herr
  · have herror := apply_of_error hrun
    refine ⟨⟨fun _ => hcertain, fun _ => ⟨err, herror, hkind⟩⟩, fun err' herr' => ?_⟩
    cases herror.symm.trans herr'
    exact hkind

/-- A stock that is refilled: a column for the size of the store, and one for the order, which follows the demand. -/
def stock : WorkingModel Rat ExtRat where
  program :=
    { columns := [⟨finite 0, posInf, false, "store"⟩, ⟨finite 0, finite 9, false, "order"⟩]
      rows := { coefs := [[(0, 1), (1, -1)]], lower := [finite 0], upper := [posInf], names := ["room"] }
      objective := { constant := 0, sense := .minimize } }
  rows := [{ form := { linear := [(1, .ofConstant 1)], constant := { linear := [(0, -1)], constant := 0 } }
             lower := finite 0, upper := posInf, name := some "demand", oracle := some 0 }]
  objective := { linear := [(0, .ofConstant 1), (1, .ofConstant 2)], constant := .ofConstant 0 }
  userColumns := 2

/-- Orders follow the demand. -/
def orders : Expander := { policies := [(1, [0])], defaultOracle := 0, parameterNames := some ["demand"] }

theorem stock_wellFormed : stock.WellFormed where
  aligned := ⟨rfl, rfl, rfl⟩
  coefs := by decide
  rows := List.forall_mem_singleton.mpr ⟨⟨by decide, by decide, by decide⟩, by decide⟩
  objective := ⟨⟨by decide, by decide, by decide⟩, by decide⟩

theorem orders_fits : orders.Fits 2 where
  columns := by decide
  names := List.forall_mem_singleton.mpr (List.forall_mem_singleton.mpr ⟨"demand", rfl⟩)

theorem apply_refines_stock : ∃ wm', orders.apply stock = .ok wm' ∧ wm'.auxColumns = [((1, 0), 3)]
    ∧ wm'.epigraphColumn = some 2 ∧ orders.Refines stock wm' := by
  obtain ⟨hrefines, -⟩ := apply_refines stock_wellFormed rfl rfl orders_fits
  have hok : (orders.apply stock).toOption.map (fun wm => (wm.auxColumns, wm.epigraphColumn))
      = some ([((1, 0), 3)], some 2) := by cbv
  cases happly : orders.apply stock with
  | error err =>
    rw [happly] at hok
    cases hok
  | ok wm' =>
    rw [happly] at hok
    obtain ⟨haux, hepigraph⟩ := Prod.mk.inj (Option.some.inj hok)
    exact ⟨wm', rfl, haux, hepigraph, hrefines wm' happly⟩

end Expander

end RobustLP
