import RobustLP.Proofs.Expand.Lift

/-!
# Lifting the objective

An objective that is uncertain, or mentions an adaptive column, is handed to the program as an *epigraph column* `t`: the
program optimizes `t`, and a mixed row keeps the objective on the right side of it. Any other objective is handed over as it
is.
-/

namespace RobustLP

open ExtRat

namespace Sense

/-- A number bounds an objective on the pessimistic side: from above if it is minimized, from below if it is maximized. -/
def Pessimistic (sense : Sense) (t value : Rat) : Prop :=
  match sense with
  | .minimize => value ≤ t
  | .maximize => t ≤ value

/-- A number bounds an objective on the pessimistic side, up to a slack. -/
def PessimisticWithin (sense : Sense) (d t value : Rat) : Prop :=
  match sense with
  | .minimize => value ≤ t + d
  | .maximize => t ≤ value + d

theorem pessimisticWithin_zero {sense : Sense} {t value : Rat} :
    sense.PessimisticWithin 0 t value ↔ sense.Pessimistic t value := by
  cases sense <;> simp only [PessimisticWithin, Pessimistic, add_zero]

theorem pessimisticWithin_refl {sense : Sense} {d : Rat} (h : 0 ≤ d) (t : Rat) : sense.PessimisticWithin d t t := by
  cases sense with
  | minimize => exact le_add_of_nonneg_right h
  | maximize => exact le_add_of_nonneg_right h

end Sense

namespace Expander

variable {e : Expander} {wm wm' : WorkingModel Rat ExtRat}

/-- A working model after its objective was handed to the program. -/
structure GoalLifted (e : Expander) (wm wm' : WorkingModel Rat ExtRat) : Prop where
  auxColumns : wm'.auxColumns = wm.auxColumns
  userColumns : wm'.userColumns = wm.userColumns
  tables : wm'.program.rows = wm.program.rows
  columns : wm.program.numColumns ≤ wm'.program.numColumns
  epigraphColumn : ∀ t, wm'.epigraphColumn = some t → t = wm.program.numColumns
  epigraphColumn_lt : ∀ t, wm'.epigraphColumn = some t → t < wm'.program.numColumns
  columnsFree : e.ColumnsFree wm'
  wellFormed : wm'.WellFormed
  holds : ∀ slack x u, wm'.HoldsWithin slack (e.slackFor slack) x u
    ↔ wm.HoldsWithin slack (e.slackFor slack) x u ∧ ∀ t, wm'.epigraphColumn = some t →
      wm.program.objective.sense.PessimisticWithin (slack (some e.defaultOracle)) (x t) (wm.objective.value x u)
  sense : wm'.program.objective.sense = wm.program.objective.sense
  direct : wm'.epigraphColumn = none → (∀ t ∈ wm.objective.linear, e.isAdaptive t.1 = false) ∧
    ∀ x u, wm'.program.objectiveAt x = wm.objective.value x u
  epigraph : ∀ t, wm'.epigraphColumn = some t → ∀ x, wm'.program.objectiveAt x = x t
  certain : (∀ r ∈ wm'.rows, e.Certain r.form) ↔ (∀ r ∈ wm.rows, e.Certain r.form) ∧ e.Certain wm.objective
  origin : ∀ r ∈ wm'.rows, r ∈ wm.rows ∨ r.oracle = some e.defaultOracle ∧ r.form.parameters = wm.objective.parameters
  integers : wm.program.SameIntegers wm'.program

/-! ## An objective that is handed over as it is -/

/-- The objective with its certain coefficients. -/
theorem value_of_isDeterministic {f : MixedForm Rat} (h : f.isDeterministic = true) (x u : Nat → Rat) :
    lhs x (f.linear.map fun t => (t.1, t.2.constant)) + f.constant.constant = f.value x u := by
  obtain ⟨hconstant, hlinear⟩ := Bool.and_eq_true_iff.mp h
  rw [MixedForm.value, Form.value_of_isConstant hconstant, lhs, List.map_map]
  congr 2
  refine List.map_congr_left fun t ht => ?_
  rw [Form.value_of_isConstant (List.all_eq_true.mp hlinear t ht)]
  rfl

/-- Handing over an objective as it is. -/
theorem goalLifted_direct (h : wm.WellFormed) (hnone : wm.epigraphColumn = none) (hfree : e.ColumnsFree wm)
    (hcertain : wm.objective.isDeterministic = true) (hnever : ∀ t ∈ wm.objective.linear, e.isAdaptive t.1 = false) :
    e.GoalLifted wm { wm with program := { wm.program with objective :=
      { terms := collect (wm.objective.linear.map fun t => (t.1, t.2.constant))
        constant := wm.objective.constant.constant, sense := wm.program.objective.sense } } } := by
  have hnot : ∀ t, wm.epigraphColumn ≠ some t := by
    intro t ht
    rw [hnone] at ht
    cases ht
  refine ⟨rfl, rfl, rfl, le_rfl, fun t ht => absurd ht (hnot t), fun t ht => absurd ht (hnot t), hfree,
    ⟨h.aligned, h.coefs, h.rows, h.objective⟩, fun slack x u => ?_, rfl, fun _ => ⟨hnever, fun x u => ?_⟩,
    fun t ht => absurd ht (hnot t), ?_, fun r hr => .inl hr, .refl _⟩
  · constructor
    · exact fun hold => ⟨⟨⟨hold.program.rows, hold.program.columns⟩, hold.rows⟩, fun t ht => absurd ht (hnot t)⟩
    · exact fun ⟨hold, _⟩ => ⟨⟨hold.program.rows, hold.program.columns⟩, hold.rows⟩
  · rw [LinearProgram.objectiveAt, lhs_collect]
    exact value_of_isDeterministic hcertain x u
  · refine (and_iff_left fun t ht had => ?_).symm
    rw [hnever t ht] at had
    cases had

/-! ## The epigraph row -/

/-- In the epigraph row the column has coefficient minus one. -/
theorem form_epigraphRow {n : Nat} {f : MixedForm Rat} (h : f.Fits n) (sense : Sense) :
    (e.epigraphRow n f sense : MixedRow Rat ExtRat).form = { f with linear := f.linear ++ [(n, .ofConstant (-1))] } := by
  have hnew : n ∉ keys f.linear := by
    intro hmem
    obtain ⟨t, ht, hn⟩ := List.mem_map.mp hmem
    exact (h.columns t ht).ne hn
  unfold epigraphRow
  dsimp only
  rw [setCoef_eq_upsert, upsert_of_not_mem hnew]
  rfl

theorem fits_epigraphRow {n : Nat} {f : MixedForm Rat} (h : f.Fits n) (sense : Sense) :
    (e.epigraphRow n f sense : MixedRow Rat ExtRat).form.Fits (n + 1) := by
  have hlinear : ∀ t ∈ f.linear ++ [(n, Form.ofConstant (-1))], t ∈ f.linear ∨ t = (n, .ofConstant (-1)) := by
    intro t ht
    rwa [List.mem_append, List.mem_singleton] at ht
  rw [form_epigraphRow h]
  refine ⟨⟨?_, fun t ht => ?_, h.tabular.constant⟩, fun t ht => ?_⟩
  · rw [List.map_append, List.nodup_append]
    refine ⟨h.tabular.columns, List.nodup_singleton n, fun j hj k hk => ?_⟩
    obtain ⟨t, ht, rfl⟩ := List.mem_map.mp hj
    rw [List.mem_singleton.mp hk]
    exact (h.columns t ht).ne
  · rcases hlinear t ht with ht | rfl
    · exact h.tabular.coefs t ht
    · exact Form.tabular_ofConstant _
  · rcases hlinear t ht with ht | rfl
    · exact (h.columns t ht).trans n.lt_succ_self
    · exact n.lt_succ_self

/-- **The epigraph row says that the column bounds the objective on the pessimistic side.** -/
theorem holds_epigraphRow {n : Nat} {f : MixedForm Rat} (h : f.Fits n) {sense : Sense} {d : Rat} {x u : Nat → Rat} :
    (e.epigraphRow n f sense : MixedRow Rat ExtRat).HoldsWithin d x u
      ↔ sense.PessimisticWithin d (x n) (f.value x u) := by
  have hvalue : (e.epigraphRow n f sense : MixedRow Rat ExtRat).form.value x u = f.value x u - x n := by
    rw [form_epigraphRow h]
    simp only [MixedForm.value, List.map_append, List.sum_append, List.map_cons, List.map_nil, List.sum_singleton,
      Form.value_ofConstant]
    ring
  rw [MixedRow.HoldsWithin, hvalue, within_iff]
  cases sense with
  | minimize =>
    have hside : f.value x u - x n - d ≤ 0 ↔ f.value x u ≤ x n + d := by
      rw [sub_sub, sub_nonpos]
    simpa [epigraphRow, Sense.PessimisticWithin] using hside
  | maximize =>
    have hside : 0 ≤ f.value x u - x n + d ↔ x n ≤ f.value x u + d := by
      rw [sub_add_eq_add_sub, sub_nonneg]
    simpa [epigraphRow, Sense.PessimisticWithin] using hside

theorem certain_epigraphRow {n : Nat} {f : MixedForm Rat} (h : f.Fits n) (sense : Sense) :
    e.Certain (e.epigraphRow n f sense : MixedRow Rat ExtRat).form ↔ e.Certain f := by
  rw [form_epigraphRow h]
  constructor
  · exact fun hall t ht => hall t (List.mem_append_left _ ht)
  · intro hall t ht
    rcases List.mem_append.mp ht with ht | ht
    · exact hall t ht
    · rw [List.mem_singleton.mp ht]
      exact fun _ => rfl

theorem parameters_epigraphRow {n : Nat} {f : MixedForm Rat} (h : f.Fits n) (sense : Sense) :
    (e.epigraphRow n f sense : MixedRow Rat ExtRat).form.parameters = f.parameters := by
  rw [form_epigraphRow h, MixedForm.parameters, MixedForm.parameters]
  simp [Form.ofConstant]

/-- Handing over an objective by way of an epigraph column. -/
def withEpigraph (e : Expander) (wm : WorkingModel Rat ExtRat) : WorkingModel Rat ExtRat :=
  { wm with
    epigraphColumn := some wm.program.numColumns
    rows := wm.rows ++ [e.epigraphRow wm.program.numColumns wm.objective wm.program.objective.sense]
    program := { wm.program.withColumn negInf posInf false (some "_epigraph") with
      objective := { terms := collect [(wm.program.numColumns, 1)], constant := 0
                     sense := wm.program.objective.sense } } }

/-- A point is one of the given model, and its epigraph column bounds the objective. -/
theorem holdsWithin_withEpigraph (h : wm.objective.Fits wm.program.numColumns) (slack : Option OracleId → Rat)
    {d : List Nat → Rat} (x u : Nat → Rat) : (e.withEpigraph wm).HoldsWithin slack d x u
      ↔ wm.HoldsWithin slack d x u ∧ ∀ t, (e.withEpigraph wm).epigraphColumn = some t →
        wm.program.objective.sense.PessimisticWithin (slack (some e.defaultOracle)) (x t) (wm.objective.value x u) := by
  have hprogram : (e.withEpigraph wm).program.Satisfies d x ↔ wm.program.Satisfies d x := by
    have hnew : (wm.program.withColumn negInf posInf false (some "_epigraph")).Satisfies d x ↔ wm.program.Satisfies d x :=
      LinearProgram.satisfies_withColumn.trans (and_iff_left (within_free _ _))
    rw [← hnew]
    exact ⟨fun hold => ⟨hold.rows, hold.columns⟩, fun hold => ⟨hold.rows, hold.columns⟩⟩
  have hgoal : (∀ t, (e.withEpigraph wm).epigraphColumn = some t →
      wm.program.objective.sense.PessimisticWithin (slack (some e.defaultOracle)) (x t) (wm.objective.value x u)) ↔
      (e.epigraphRow wm.program.numColumns wm.objective wm.program.objective.sense : MixedRow Rat ExtRat).HoldsWithin
        (slack (some e.defaultOracle)) x u := by
    rw [holds_epigraphRow h]
    exact ⟨fun hall => hall _ rfl, by rintro hpess t ⟨⟩; exact hpess⟩
  rw [hgoal]
  constructor
  · exact fun hold => ⟨⟨hprogram.mp hold.program, fun r hr => hold.rows r (List.mem_append_left _ hr)⟩,
      hold.rows _ (List.mem_append_right _ List.mem_cons_self)⟩
  · rintro ⟨hold, hrow⟩
    refine ⟨hprogram.mpr hold.program, fun r hr => ?_⟩
    rcases List.mem_append.mp hr with hr | hr
    · exact hold.rows r hr
    · rw [List.mem_singleton.mp hr]
      exact hrow

theorem goalLifted_withEpigraph (h : wm.WellFormed) (hfree : e.ColumnsFree wm) : e.GoalLifted wm (e.withEpigraph wm) := by
  have hcolumns : (e.withEpigraph wm).program.numColumns = wm.program.numColumns + 1 :=
    LinearProgram.numColumns_withColumn ..
  have hrow := fits_epigraphRow (e := e) h.objective wm.program.objective.sense
  have hlt : ∀ {j}, j < wm.program.numColumns → j < (e.withEpigraph wm).program.numColumns := by
    intro j hj
    rw [hcolumns]
    exact hj.trans (Nat.lt_succ_self _)
  refine ⟨rfl, rfl, rfl, hcolumns ▸ Nat.le_succ _, ?_, ?_, ?_, ⟨h.aligned, ?_, ?_, ?_⟩, ?_, rfl, ?_, ?_, ?_, ?_, ?_⟩
  · rintro t ⟨⟩
    rfl
  · rintro t ⟨⟩
    rw [hcolumns]
    exact Nat.lt_succ_self _
  · intro j c hc had
    rcases getElem?_snoc_iff.mp hc with hc | ⟨-, rfl⟩
    · exact hfree j c hc had
    · exact ⟨rfl, rfl⟩
  · exact fun row hmem => ⟨(h.coefs row hmem).1, fun t ht => hlt ((h.coefs row hmem).2 t ht)⟩
  · intro r hr
    rcases List.mem_append.mp hr with hr | hr
    · exact (h.rows r hr).mono (hcolumns ▸ Nat.le_succ _)
    · rw [List.mem_singleton.mp hr, hcolumns]
      exact hrow
  · exact h.objective.mono (hcolumns ▸ Nat.le_succ _)
  · exact fun slack x u => holdsWithin_withEpigraph h.objective slack x u
  · intro hnone
    cases hnone
  · rintro t ⟨⟩ x
    rw [LinearProgram.objectiveAt, withEpigraph, lhs_collect]
    simp [lhs]
  · rw [← certain_epigraphRow h.objective wm.program.objective.sense, withEpigraph]
    simp only [List.mem_append, List.mem_singleton, or_imp, forall_and, forall_eq]
  · intro r hr
    rcases List.mem_append.mp hr with hr | hr
    · exact .inl hr
    · rw [List.mem_singleton.mp hr]
      exact .inr ⟨rfl, parameters_epigraphRow h.objective _⟩
  · refine .of_append (fun c hc => ?_) rfl
    rw [List.mem_singleton.mp hc]

/-! ## Both cases -/

/-- **Handing over the objective** keeps the meaning but for the condition on the epigraph column. -/
theorem run_liftObjective (h : wm.WellFormed) (hnone : wm.epigraphColumn = none) (hfree : e.ColumnsFree wm) :
    ∃ wm', (liftObjective e).run wm = (.ok ⟨⟩, wm') ∧ e.GoalLifted wm wm' := by
  unfold liftObjective
  rw [Edit.run_bind_of_ok (Edit.run_get wm), Edit.run_bind_of_ok (Edit.run_get wm)]
  dsimp only
  split
  next hdirect =>
    obtain ⟨hcertain, hadaptive⟩ := Bool.and_eq_true_iff.mp hdirect
    have hin : ∀ t ∈ wm.objective.linear.map (fun t => (t.1, t.2.constant)), t.1 < wm.program.numColumns := by
      intro t ht
      obtain ⟨s, hs, rfl⟩ := List.mem_map.mp ht
      exact h.objective.columns s hs
    have hnever : ∀ t ∈ wm.objective.linear, e.isAdaptive t.1 = false := by
      simpa using hadaptive
    exact ⟨_, WorkingModel.run_editProgram (LinearProgram.run_setObjective hin _ _),
      goalLifted_direct h hnone hfree hcertain hnever⟩
  next =>
    refine ⟨_, ?_, goalLifted_withEpigraph h hfree⟩
    rw [Edit.run_bind_of_ok (WorkingModel.run_editProgram (LinearProgram.run_addFreeColumn false _)),
      Edit.run_bind_of_ok (Edit.run_modify _ _)]
    refine WorkingModel.run_editProgram (LinearProgram.run_setObjective (fun t ht => ?_) _ _)
    rw [List.mem_singleton.mp ht]
    exact (Nat.lt_succ_self _).trans_eq (LinearProgram.numColumns_withColumn ..).symm

end Expander

end RobustLP
