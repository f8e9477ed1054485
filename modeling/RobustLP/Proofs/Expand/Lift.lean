import RobustLP.Proofs.Working

/-!
# Lifting keeps the meaning

Before decision rules are substituted, every place in which an adaptive column occurs is turned into a mixed row: the rows of
the program, the bounds of the columns, and the objective. The first two keep the points of the working model as they are
(`run_liftRows`, `run_liftBounds`); the third one adds the condition that the epigraph column bounds the objective
(`run_liftObjective`).
-/

namespace RobustLP

open ExtRat

namespace Expander

variable {e : Expander}

/-- Every adaptive column has a certain coefficient in a form. -/
def Certain (e : Expander) (f : MixedForm Rat) : Prop := ∀ t ∈ f.linear, e.isAdaptive t.1 = true → t.2.isConstant = true

/-- No row of the program mentions an adaptive column. -/
def RowsFree (e : Expander) (wm : WorkingModel Rat ExtRat) : Prop :=
  ∀ row ∈ wm.program.rows.coefs, ∀ t ∈ row, e.isAdaptive t.1 = false

/-- No adaptive column has a bound. -/
def ColumnsFree (e : Expander) (wm : WorkingModel Rat ExtRat) : Prop :=
  ∀ j c, wm.program.columns[j]? = some c → e.isAdaptive j = true → c.lower = negInf ∧ c.upper = posInf

/-- The slack of a row, or of the bounds of a column: that of new mixed rows if an adaptive column is concerned. -/
def slackFor (e : Expander) (slack : Option OracleId → Rat) (js : List Nat) : Rat :=
  if js.any e.isAdaptive then slack (some e.defaultOracle) else 0

theorem slackFor_adaptive {slack : Option OracleId → Rat} {js : List Nat} {j : Nat} (hj : j ∈ js)
    (had : e.isAdaptive j = true) : e.slackFor slack js = slack (some e.defaultOracle) := by
  rw [slackFor, if_pos (List.any_eq_true.mpr ⟨j, hj, had⟩)]

@[simp] theorem slackFor_zero : e.slackFor (fun _ => 0) = fun _ => 0 := by
  funext js
  rw [slackFor, ite_self]

/-- One working model says the same as another one, about the same columns. -/
structure Same (e : Expander) (wm wm' : WorkingModel Rat ExtRat) : Prop where
  columns : wm'.program.numColumns = wm.program.numColumns
  goal : wm'.program.objective = wm.program.objective
  objective : wm'.objective = wm.objective
  auxColumns : wm'.auxColumns = wm.auxColumns
  epigraphColumn : wm'.epigraphColumn = wm.epigraphColumn
  userColumns : wm'.userColumns = wm.userColumns
  wellFormed : wm'.WellFormed
  holds : ∀ slack x u, wm'.HoldsWithin slack (e.slackFor slack) x u ↔ wm.HoldsWithin slack (e.slackFor slack) x u
  certain : (∀ r ∈ wm'.rows, e.Certain r.form) ↔ ∀ r ∈ wm.rows, e.Certain r.form
  /-- new mixed rows are bound to the default oracle and mention no parameter -/
  origin : ∀ r ∈ wm'.rows, r ∈ wm.rows ∨ r.oracle = some e.defaultOracle ∧ r.form.parameters = []
  integers : wm.program.SameIntegers wm'.program

theorem Same.refl {wm : WorkingModel Rat ExtRat} (h : wm.WellFormed) : e.Same wm wm :=
  ⟨rfl, rfl, rfl, rfl, rfl, rfl, h, fun _ _ _ => Iff.rfl, Iff.rfl, fun _ hr => .inl hr, .refl _⟩

theorem Same.trans {wm wm' wm'' : WorkingModel Rat ExtRat} (h : e.Same wm wm') (h' : e.Same wm' wm'') :
    e.Same wm wm'' where
  columns := h'.columns.trans h.columns
  goal := h'.goal.trans h.goal
  objective := h'.objective.trans h.objective
  auxColumns := h'.auxColumns.trans h.auxColumns
  epigraphColumn := h'.epigraphColumn.trans h.epigraphColumn
  userColumns := h'.userColumns.trans h.userColumns
  wellFormed := h'.wellFormed
  holds slack x u := (h'.holds slack x u).trans (h.holds slack x u)
  certain := h'.certain.trans h.certain
  origin r hr := (h'.origin r hr).elim (h.origin r) .inr
  integers := h.integers.trans h'.integers

/-! ## Rows -/

/-- A row of a program as form. -/
def formOfRow (row : List (Nat × Rat)) : MixedForm Rat :=
  { linear := row.map fun t => (t.1, .ofConstant t.2), constant := .ofConstant 0 }

theorem value_formOfRow (x u : Nat → Rat) (row : List (Nat × Rat)) : (formOfRow row).value x u = lhs x row := by
  simp [formOfRow, MixedForm.value, lhs, List.map_map, Function.comp_def]

theorem fits_formOfRow {n : Nat} {row : List (Nat × Rat)} (h : (keys row).Nodup) (hlt : ∀ t ∈ row, t.1 < n) :
    (formOfRow row).Fits n := by
  have hkeys : (formOfRow row).linear.map (·.1) = keys row := by
    rw [formOfRow, List.map_map]
    rfl
  refine ⟨⟨hkeys ▸ h, fun t ht => ?_, Form.tabular_ofConstant 0⟩, fun t ht => ?_⟩
  · obtain ⟨s, -, rfl⟩ := List.mem_map.mp ht
    exact Form.tabular_ofConstant s.2
  · obtain ⟨s, hs, rfl⟩ := List.mem_map.mp ht
    exact hlt s hs

theorem certain_formOfRow (row : List (Nat × Rat)) : e.Certain (formOfRow row) := by
  intro t ht _
  obtain ⟨s, -, rfl⟩ := List.mem_map.mp ht
  rfl

theorem parameters_formOfRow (row : List (Nat × Rat)) : (formOfRow row).parameters = [] := by
  refine MixedForm.isDeterministic_iff.mp (Bool.and_eq_true_iff.mpr ⟨rfl, List.all_eq_true.mpr fun t ht => ?_⟩)
  obtain ⟨s, -, rfl⟩ := List.mem_map.mp ht
  rfl

/-- The rows that are lifted, with their positions. -/
def lifted (e : Expander) (wm : WorkingModel Rat ExtRat) : List (List (Nat × Rat) × Nat) :=
  wm.program.rows.coefs.zipIdx.filter fun (row, _) => row.any fun t => e.isAdaptive t.1

theorem mem_lifted_iff {wm : WorkingModel Rat ExtRat} {row : List (Nat × Rat)} {i : Nat} :
    (row, i) ∈ e.lifted wm ↔ wm.program.rows.coefs[i]? = some row ∧ ∃ t ∈ row, e.isAdaptive t.1 = true := by
  rw [lifted, List.mem_filter, List.mk_mem_zipIdx_iff_getElem?, List.any_eq_true]

/-- What a lifted row is. -/
theorem liftedRow_eq_ok {wm : WorkingModel Rat ExtRat} {i : Nat} {row : List (Nat × Rat)} {r : MixedRow Rat ExtRat}
    (h : e.liftedRow wm i row = .ok r) : r.form = formOfRow row ∧ r.oracle = some e.defaultOracle
      ∧ wm.program.rows.lower[i]? = some r.lower ∧ wm.program.rows.upper[i]? = some r.upper := by
  obtain ⟨lower, hlower, h⟩ := bind_eq_ok.mp h
  obtain ⟨upper, hupper, h⟩ := bind_eq_ok.mp h
  obtain ⟨name, -, h⟩ := bind_eq_ok.mp h
  cases h
  exact ⟨rfl, rfl, Lookup.ofList_eq_ok_iff.mp hlower, Lookup.ofList_eq_ok_iff.mp hupper⟩

theorem exists_liftedRow {wm : WorkingModel Rat ExtRat} (h : wm.program.rows.Aligned) {i : Nat} {row : List (Nat × Rat)}
    (hi : i < wm.program.rows.coefs.length) : ∃ r, e.liftedRow wm i row = .ok r := by
  have hlower : i < wm.program.rows.lower.length := h.lower ▸ hi
  have hupper : i < wm.program.rows.upper.length := h.upper ▸ hi
  have hnames : i < wm.program.rows.names.length := h.names ▸ hi
  unfold liftedRow
  rw [Lookup.ofList_of_lt hlower, Lookup.ofList_of_lt hupper, Lookup.ofList_of_lt hnames]
  exact ⟨_, rfl⟩

/-- The positions of the rows that are not lifted. -/
def unlifted (e : Expander) (wm : WorkingModel Rat ExtRat) : List Nat :=
  LinearProgram.kept wm.program.numRows ((e.lifted wm).map fun q => (q.2 : Int))

theorem mem_unlifted_iff {wm : WorkingModel Rat ExtRat} {i : Nat} : i ∈ e.unlifted wm ↔
    ∃ row, wm.program.rows.coefs[i]? = some row ∧ ∀ t ∈ row, e.isAdaptive t.1 = false := by
  rw [unlifted, LinearProgram.kept, List.mem_filter, List.mem_range, LinearProgram.numRows]
  constructor
  · rintro ⟨hi, hdrop⟩
    refine ⟨_, List.getElem?_eq_getElem hi, fun t ht => ?_⟩
    by_contra had
    rw [Bool.not_eq_false] at had
    have hmem : (i : Int) ∈ (e.lifted wm).map fun q => (q.2 : Int) :=
      List.mem_map.mpr ⟨_, mem_lifted_iff.mpr ⟨List.getElem?_eq_getElem hi, t, ht, had⟩, rfl⟩
    simp [hmem] at hdrop
  · rintro ⟨row, hrow, hfree⟩
    refine ⟨(List.getElem?_eq_some_iff.mp hrow).1, ?_⟩
    rw [Bool.not_eq_true', List.contains_eq_mem, decide_eq_false_iff_not]
    intro hmem
    obtain ⟨⟨row', i'⟩, hq, hi⟩ := List.mem_map.mp hmem
    obtain rfl : i' = i := Int.ofNat_inj.mp hi
    obtain ⟨hrow', t, ht, had⟩ := mem_lifted_iff.mp hq
    cases hrow.symm.trans hrow'
    rw [hfree t ht] at had
    cases had

/-- Lifting the rows of a program splits them: the others stay, and there is a mixed row for each one with an adaptive
column. -/
theorem run_liftRows_split {wm : WorkingModel Rat ExtRat} (h : wm.program.rows.Aligned) : ∃ rows : List (MixedRow Rat ExtRat),
    (liftRows e).run wm = (.ok ⟨⟩, { wm with
      rows := wm.rows ++ rows
      program := { wm.program with rows := wm.program.rows.keep (e.unlifted wm) } })
    ∧ List.Forall₂ (fun q r => e.liftedRow wm q.2 q.1 = .ok r) (e.lifted wm) rows := by
  have hrows : ∀ q ∈ e.lifted wm, ∃ r,
      (Edit.liftFault (e.liftedRow wm q.2 q.1) : Edit (WorkingModel Rat ExtRat) _).run wm = (.ok r, wm) := by
    intro q hq
    obtain ⟨hi, -⟩ := List.getElem?_eq_some_iff.mp (mem_lifted_iff.mp hq).1
    obtain ⟨r, hr⟩ := exists_liftedRow h hi
    exact ⟨r, Edit.run_liftFault_eq_ok.mpr ⟨hr, rfl⟩⟩
  obtain ⟨rows, hrun, hall⟩ := Edit.run_mapM_of_ok hrows
  refine ⟨rows, ?_, hall.imp fun q r hr => (Edit.run_liftFault_eq_ok.mp hr).1⟩
  have hfold : wm.program.rows.coefs.zipIdx.filter (fun q => q.1.any fun t => e.isAdaptive t.1) = e.lifted wm := rfl
  unfold liftRows
  rw [Edit.run_bind_of_ok (Edit.run_get wm)]
  dsimp only
  rw [hfold, Edit.run_bind_of_ok hrun, Edit.run_bind_of_ok (Edit.run_modify _ _)]
  exact WorkingModel.run_editProgram (LinearProgram.run_removeRows h _)

section

variable {wm : WorkingModel Rat ExtRat} {rows : List (MixedRow Rat ExtRat)}
  (hall : List.Forall₂ (fun q r => e.liftedRow wm q.2 q.1 = .ok r) (e.lifted wm) rows)

include hall

/-- A lifted row is a row of the program with an adaptive column, as form with the same bounds. -/
theorem exists_row_of_lifted {r : MixedRow Rat ExtRat} (hr : r ∈ rows) : ∃ (row : List (Nat × Rat)) (i : Nat),
    (wm.program.rows.coefs[i]? = some row ∧ ∃ t ∈ row, e.isAdaptive t.1 = true) ∧ r.form = formOfRow row
      ∧ r.oracle = some e.defaultOracle ∧ wm.program.rows.lower[i]? = some r.lower
      ∧ wm.program.rows.upper[i]? = some r.upper := by
  obtain ⟨⟨row, i⟩, hq, hlift⟩ := exists_left_of_forall₂ hall hr
  exact ⟨row, i, mem_lifted_iff.mp hq, liftedRow_eq_ok hlift⟩

/-- **The rows of a program hold if and only if those that stay and the lifted ones do.** -/
theorem holds_iff_of_lifted (h : wm.program.rows.Aligned) (slack : Option OracleId → Rat) (x u : Nat → Rat) :
    wm.program.rows.Holds (e.slackFor slack) x ↔ (wm.program.rows.keep (e.unlifted wm)).Holds (e.slackFor slack) x
      ∧ ∀ r ∈ rows, r.HoldsWithin (slack r.oracle) x u := by
  have hin : ∀ i ∈ e.unlifted wm, i < wm.program.rows.coefs.length :=
    fun i hi => List.mem_range.mp (List.mem_filter.mp hi).1
  have hslack : ∀ row : List (Nat × Rat), (∃ t ∈ row, e.isAdaptive t.1 = true) →
      e.slackFor slack (keys row) = slack (some e.defaultOracle) :=
    fun row ⟨t, ht, had⟩ => slackFor_adaptive (mem_keys ht) had
  constructor
  · intro hrows
    refine ⟨(RowTable.holds_keep h hin).mpr fun i _ row lower upper hrow hlower hupper =>
      RowTable.holds_iff.mp hrows i row lower upper hrow hlower hupper, fun r hr => ?_⟩
    obtain ⟨row, i, ⟨hrow, had⟩, hf, horacle, hlower, hupper⟩ := exists_row_of_lifted hall hr
    rw [MixedRow.HoldsWithin, horacle, hf, value_formOfRow, ← hslack row had]
    exact RowTable.holds_iff.mp hrows i row _ _ hrow hlower hupper
  · rintro ⟨hkept, hlifted⟩
    refine RowTable.holds_iff.mpr fun i row lower upper hrow hlower hupper => ?_
    by_cases hfree : ∀ t ∈ row, e.isAdaptive t.1 = false
    · exact (RowTable.holds_keep h hin).mp hkept i (mem_unlifted_iff.mpr ⟨row, hrow, hfree⟩) row lower upper hrow hlower hupper
    · push Not at hfree
      obtain ⟨t, ht, had⟩ := hfree
      rw [Ne, Bool.not_eq_false] at had
      obtain ⟨r, hr, hlift⟩ := exists_right_of_forall₂ hall (mem_lifted_iff.mpr ⟨hrow, t, ht, had⟩)
      obtain ⟨hf, horacle, hl, hu⟩ := liftedRow_eq_ok hlift
      have hr := hlifted r hr
      rw [MixedRow.HoldsWithin, horacle, hf, value_formOfRow, ← hslack row ⟨t, ht, had⟩] at hr
      cases hl.symm.trans hlower
      cases hu.symm.trans hupper
      exact hr

end

/-- **Lifting the rows keeps the meaning,** and afterwards no row of the program mentions an adaptive column. -/
theorem run_liftRows {wm : WorkingModel Rat ExtRat} (h : wm.WellFormed) : ∃ wm',
    (liftRows e).run wm = (.ok ⟨⟩, wm') ∧ e.Same wm wm' ∧ e.RowsFree wm' := by
  obtain ⟨rows, hrun, hall⟩ := run_liftRows_split (e := e) h.aligned
  have hin : ∀ i ∈ e.unlifted wm, i < wm.program.rows.coefs.length :=
    fun i hi => List.mem_range.mp (List.mem_filter.mp hi).1
  have hkept : ∀ row ∈ (wm.program.rows.keep (e.unlifted wm)).coefs, ∃ i ∈ e.unlifted wm,
      wm.program.rows.coefs[i]? = some row := fun row hrow => List.mem_filterMap.mp hrow
  refine ⟨_, hrun, ⟨rfl, rfl, rfl, rfl, rfl, rfl, ⟨h.aligned.keep hin, ?_, ?_, h.objective⟩, ?_, ?_, ?_,
    .refl _⟩, ?_⟩
  · intro row hrow
    obtain ⟨i, -, hrow⟩ := hkept row hrow
    exact h.coefs row (List.mem_of_getElem? hrow)
  · intro r hr
    rcases List.mem_append.mp hr with hr | hr
    · exact h.rows r hr
    · obtain ⟨row, i, ⟨hrow, -⟩, hf, -⟩ := exists_row_of_lifted hall hr
      obtain ⟨hnodup, hlt⟩ := h.coefs row (List.mem_of_getElem? hrow)
      rw [hf]
      exact fits_formOfRow hnodup hlt
  · intro slack x u
    have hsplit := holds_iff_of_lifted hall h.aligned slack x u
    constructor
    · rintro ⟨⟨hrows, hcolumns⟩, hmixed⟩
      obtain ⟨hbefore, hlifted⟩ := List.forall_mem_append.mp hmixed
      exact ⟨⟨hsplit.mpr ⟨hrows, hlifted⟩, hcolumns⟩, hbefore⟩
    · rintro ⟨⟨hrows, hcolumns⟩, hmixed⟩
      obtain ⟨hstay, hlifted⟩ := hsplit.mp hrows
      exact ⟨⟨hstay, hcolumns⟩, List.forall_mem_append.mpr ⟨hmixed, hlifted⟩⟩
  · -- the coefficients of a lifted row are numbers
    have hcertain : ∀ r ∈ rows, e.Certain r.form := by
      intro r hr
      obtain ⟨row, i, -, hf, -⟩ := exists_row_of_lifted hall hr
      rw [hf]
      exact certain_formOfRow row
    constructor
    · exact fun hall r hr => hall r (List.mem_append_left _ hr)
    · exact fun hall => List.forall_mem_append.mpr ⟨hall, hcertain⟩
  · intro r hr
    rcases List.mem_append.mp hr with hr | hr
    · exact .inl hr
    · obtain ⟨row, i, -, hf, horacle, -⟩ := exists_row_of_lifted hall hr
      exact .inr ⟨horacle, hf ▸ parameters_formOfRow row⟩
  · intro row hrow t ht
    obtain ⟨i, hi, hrow⟩ := hkept row hrow
    obtain ⟨row', hrow', hfree⟩ := mem_unlifted_iff.mp hi
    cases hrow.symm.trans hrow'
    exact hfree t ht

/-! ## Bounds -/

theorem isAdaptive_iff {j : Nat} : e.isAdaptive j = true ↔ j ∈ keys e.policies := any_key_iff

/-- What lifting the bounds of one column leaves. -/
def freed (e : Expander) (j : Nat) (c : Column ExtRat) (wm : WorkingModel Rat ExtRat) : WorkingModel Rat ExtRat :=
  { wm with
    rows := wm.rows ++ if Bound.isLower c.lower || Bound.isUpper c.upper then [e.boundsRow j c] else []
    program := { wm.program with
      columns := wm.program.columns.set j { c with lower := negInf, upper := posInf } } }

theorem run_liftBoundsOf {wm : WorkingModel Rat ExtRat} {j : Nat} {c : Column ExtRat}
    (hc : wm.program.columns[j]? = some c) : (e.liftBoundsOf j).run wm = (.ok ⟨⟩, e.freed j c wm) := by
  unfold liftBoundsOf freed
  rw [Edit.run_bind_of_ok (Edit.run_get wm), hc]
  dsimp only
  split
  next => rw [Edit.run_bind_of_ok (Edit.run_modify _ _)]; rfl
  next => rw [List.append_nil]; rfl

/-- The row of the bounds of a column says what the bounds say. -/
theorem holds_boundsRow {j : Nat} {c : Column ExtRat} {d : Rat} {x u : Nat → Rat} :
    (e.boundsRow j c : MixedRow Rat ExtRat).HoldsWithin d x u ↔ Within d c.lower c.upper (x j) := by
  have hvalue : (e.boundsRow j c : MixedRow Rat ExtRat).form.value x u = x j := by
    simp [boundsRow, MixedForm.value]
  rw [MixedRow.HoldsWithin, hvalue]
  exact Iff.rfl

/-- The rows that are added for a column hold exactly when the column lies within its bounds. -/
theorem forall_boundsRow_iff {j : Nat} {c : Column ExtRat} {slack : Option OracleId → Rat} {x u : Nat → Rat} :
    (∀ r ∈ (if Bound.isLower c.lower || Bound.isUpper c.upper then [(e.boundsRow j c : MixedRow Rat ExtRat)] else []),
      r.HoldsWithin (slack r.oracle) x u) ↔ Within (slack (some e.defaultOracle)) c.lower c.upper (x j) := by
  split
  next =>
    rw [List.forall_mem_singleton]
    exact holds_boundsRow
  next h =>
    rw [Bool.or_eq_true, isLower_iff, isUpper_iff, not_or, not_not, not_not] at h
    refine iff_of_true (fun _ hr => absurd hr List.not_mem_nil) ?_
    rw [h.1, h.2]
    exact within_free _ _

/-- The row for the bounds of a column stands for its bounds. -/
theorem holdsWithin_freed {wm : WorkingModel Rat ExtRat} {j : Nat} {c : Column ExtRat} (hc : wm.program.columns[j]? = some c)
    (had : e.isAdaptive j = true) (slack : Option OracleId → Rat) (x u : Nat → Rat) :
    (e.freed j c wm).HoldsWithin slack (e.slackFor slack) x u ↔ wm.HoldsWithin slack (e.slackFor slack) x u := by
  have hj : j < wm.program.columns.length := (List.getElem?_eq_some_iff.mp hc).1
  have hslack : e.slackFor slack [j] = slack (some e.defaultOracle) := slackFor_adaptive List.mem_cons_self had
  constructor
  · rintro ⟨⟨hprogram, hbounds⟩, hmixed⟩
    refine ⟨⟨hprogram, fun i c' hc' => ?_⟩, fun r hr => hmixed r (List.mem_append_left _ hr)⟩
    by_cases hi : i = j
    · subst hi
      cases hc.symm.trans hc'
      rw [hslack]
      exact forall_boundsRow_iff.mp fun r hr => hmixed r (List.mem_append_right _ hr)
    · refine hbounds i c' ?_
      rw [freed, List.getElem?_set_ne (Ne.symm hi)]
      exact hc'
  · rintro ⟨⟨hprogram, hbounds⟩, hmixed⟩
    refine ⟨⟨hprogram, fun i c' hc' => ?_⟩, fun r hr => ?_⟩
    · rw [freed] at hc'
      by_cases hi : i = j
      · rw [hi, List.getElem?_set_self hj] at hc'
        cases hc'
        exact within_free _ _
      · rw [List.getElem?_set_ne (Ne.symm hi)] at hc'
        exact hbounds i c' hc'
    · rcases List.mem_append.mp hr with hr | hr
      · exact hmixed r hr
      · exact forall_boundsRow_iff.mpr (hslack ▸ hbounds j c hc) r hr

theorem same_freed {wm : WorkingModel Rat ExtRat} (h : wm.WellFormed) {j : Nat} {c : Column ExtRat}
    (hc : wm.program.columns[j]? = some c) (had : e.isAdaptive j = true) : e.Same wm (e.freed j c wm) := by
  have hcolumns : (e.freed j c wm).program.numColumns = wm.program.numColumns := List.length_set
  have hj : j < wm.program.columns.length := (List.getElem?_eq_some_iff.mp hc).1
  have hform : (e.boundsRow j c : MixedRow Rat ExtRat).form = formOfRow [(j, 1)] := rfl
  have hrows : ∀ r ∈ (e.freed j c wm).rows, r ∈ wm.rows ∨ r = e.boundsRow j c := by
    intro r hr
    rcases List.mem_append.mp hr with hr | hr
    · exact .inl hr
    · split at hr
      next => exact .inr (List.mem_singleton.mp hr)
      next => cases hr
  refine ⟨hcolumns, rfl, rfl, rfl, rfl, rfl, ⟨h.aligned, hcolumns ▸ h.coefs, fun r hr => ?_, hcolumns ▸ h.objective⟩, ?_, ?_, ?_,
    .of_set hc rfl rfl⟩
  · rw [hcolumns]
    rcases hrows r hr with hr | rfl
    · exact h.rows r hr
    · rw [hform]
      exact fits_formOfRow (List.nodup_singleton j) (List.forall_mem_singleton.mpr hj)
  · exact fun slack x u => holdsWithin_freed hc had slack x u
  · constructor
    · exact fun hall r hr => hall r (List.mem_append_left _ hr)
    · intro hall r hr
      rcases hrows r hr with hr | rfl
      · exact hall r hr
      · rw [hform]
        exact certain_formOfRow _
  · intro r hr
    rcases hrows r hr with hr | rfl
    · exact .inl hr
    · exact .inr ⟨rfl, hform ▸ parameters_formOfRow _⟩

/-- The policies of a working model: each one is for a column, and its parameters have names. -/
structure Fits (e : Expander) (n : Nat) : Prop where
  columns : ∀ p ∈ e.policies, p.1 < n
  names : ∀ p ∈ e.policies, ∀ k ∈ p.2, ∃ name, namesOr "_unc" e.parameterNames k = .ok name

theorem lt_of_isAdaptive {n : Nat} (he : e.Fits n) {j : Nat} (had : e.isAdaptive j = true) : j < n := by
  obtain ⟨p, hp, rfl⟩ := List.mem_map.mp (isAdaptive_iff.mp had)
  exact he.columns p hp

/-- **Lifting the bounds keeps the meaning,** and afterwards no adaptive column has a bound. -/
theorem run_liftBounds {wm : WorkingModel Rat ExtRat} (h : wm.WellFormed) (he : e.Fits wm.program.numColumns) : ∃ wm',
    (liftBounds e).run wm = (.ok ⟨⟩, wm') ∧ e.Same wm wm' ∧ wm'.program.rows = wm.program.rows ∧ e.ColumnsFree wm' := by
  -- the columns that are still to be freed are those of the rest of the list
  let I (rest : List Nat) (s : WorkingModel Rat ExtRat) : Prop := e.Same wm s ∧ s.program.rows = wm.program.rows
    ∧ (∀ j ∈ rest, e.isAdaptive j = true)
    ∧ ∀ j c, s.program.columns[j]? = some c → e.isAdaptive j = true → j ∈ rest ∨ c.lower = negInf ∧ c.upper = posInf
  have hstart : I ((e.policies.map (·.1)).mergeSort (· ≤ ·)) wm := by
    refine ⟨.refl h, rfl, fun j hj => ?_, fun j c _ had => .inl ?_⟩
    · exact isAdaptive_iff.mpr (List.mem_mergeSort.mp hj)
    · exact List.mem_mergeSort.mpr (isAdaptive_iff.mp had)
  have hstep : ∀ (j : Nat) (rest : List Nat) (s : WorkingModel Rat ExtRat), I (j :: rest) s →
      ∃ s', (e.liftBoundsOf j).run s = (.ok ⟨⟩, s') ∧ I rest s' := by
    rintro j rest s ⟨hsame, hrows, hrest, hfree⟩
    have hadaptive := hrest j List.mem_cons_self
    have hj : j < s.program.columns.length := (lt_of_isAdaptive he hadaptive).trans_eq hsame.columns.symm
    have hc := List.getElem?_eq_getElem hj
    refine ⟨_, run_liftBoundsOf hc, hsame.trans (same_freed hsame.wellFormed hc hadaptive), hrows,
      fun i hi => hrest i (List.mem_cons_of_mem _ hi), fun i c hi had => ?_⟩
    rw [freed] at hi
    by_cases hij : i = j
    · rw [hij, List.getElem?_set_self hj] at hi
      cases hi
      exact .inr ⟨rfl, rfl⟩
    · rw [List.getElem?_set_ne (Ne.symm hij)] at hi
      rcases hfree i c hi had with hmem | hbounds
      · exact .inl ((List.mem_cons.mp hmem).resolve_left hij)
      · exact .inr hbounds
  obtain ⟨wm', hrun, hsame, hrows, -, hfree⟩ := Edit.run_forM_of_invariant hstart hstep
  exact ⟨wm', hrun, hsame, hrows, fun j c hc had => (hfree j c hc had).resolve_left List.not_mem_nil⟩

end Expander

end RobustLP
