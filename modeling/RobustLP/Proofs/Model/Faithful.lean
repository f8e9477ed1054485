import RobustLP.Proofs.Model.Built
import RobustLP.Proofs.Model.Meets

/-!
# The working model of a model that calls have built

The working model can always be made (`WorkingModel.exists_ofModel`), and it means what the model means
(`WorkingModel.ofModel_faithful`): numbers of the variables and parameters satisfy the program and the mixed rows exactly when they
satisfy the bounds and constraints of the model (`Model.Holds`), the objectives have the same value, and rows, oracles and integer
columns are those of the constraints and variables, one by one.
-/

namespace RobustLP

open ExtRat UncertaintySet

/-! ## Making the working model -/

namespace Expr

/-- The text of an expression can be written in exact arithmetic. -/
theorem exists_text (naming : Naming) (showConstant : Bool) (e : Expr Rat) :
    ∃ t, Print.expr naming showConstant e = .ok t := by
  cases e with
  | linear e => exact ⟨_, by rw [Print.expr, Affine.normalized_eq]; rfl⟩
  | uncertain e => exact ⟨_, by rw [Print.expr, Affine.normalized_eq]; rfl⟩
  | full e => exact ⟨_, by rw [Print.expr, Full.normalized_eq]; rfl⟩

/-- An expression in the variables alone has a form. -/
theorem exists_linearForm (naming : Naming) {e : Expr Rat} (h : e.kind = .linear) :
    ∃ f, Quantity.linearForm naming (.expr e) = .ok f := by
  unfold Quantity.linearForm
  dsimp only
  rw [normalized_eq]
  cases e with
  | linear e => exact ⟨_, rfl⟩
  | uncertain e => cases h
  | full e => cases h

end Expr

theorem Constraint.exists_text (naming : Naming) (c : Constraint Rat ExtRat) :
    ∃ t, c.text naming = .ok t := by
  obtain ⟨t, ht⟩ := c.body.exists_text naming true
  exact ⟨_, by rw [Constraint.text, ht]; rfl⟩

namespace WorkingModel

variable {naming : Naming} {m : Model Rat ExtRat}

/-- The row of a deterministic constraint can be added to a program with a column for each variable. -/
theorem exists_rowOf (naming : Naming) {c : Constraint Rat ExtRat} (hkind : c.kind = .linear) {p : LinearProgram Rat ExtRat}
    (hc : ∀ j ∈ c.body.columns, j < p.numColumns) :
    ∃ p', (rowOf naming c).run p = (.ok ⟨⟩, p') ∧ p'.columns = p.columns := by
  obtain ⟨form, hform⟩ := Expr.exists_linearForm naming hkind
  obtain ⟨text, htext⟩ := c.exists_text naming
  obtain ⟨-, hcolumns, -⟩ := Expr.linearForm_spec hform
  have hread : readTerms p.numColumns (LinearProgram.given form.linear) = .ok form.linear :=
    LinearProgram.readTerms_given fun t ht => hc _ (hcolumns t ht)
  have hrun := LinearProgram.run_addRow (p := p) (LinearProgram.given form.linear) (Scalar.shift c.lower form.constant)
    (Scalar.shift c.upper form.constant) (some text)
  rw [hread] at hrun
  unfold rowOf
  rw [hform, htext]
  exact ⟨_, Edit.run_bind_of_ok hrun, rfl⟩

/-- The mixed row of an uncertain constraint can be made. -/
theorem exists_mixedRowOf (naming : Naming) (m : Model Rat ExtRat) (c : Constraint Rat ExtRat × Option OracleId) (i : Nat) :
    ∃ r, mixedRowOf naming m c i = .ok r := by
  obtain ⟨form, hform, -⟩ := c.1.body.exists_mixedForm
  obtain ⟨text, htext⟩ := c.1.exists_text naming
  exact ⟨_, by rw [mixedRowOf, hform, htext]; rfl⟩

/-- The deterministic rows of a model that calls have built can be made. -/
theorem exists_addModelRows (naming : Naming) (hm : m.Built) {p : LinearProgram Rat ExtRat}
    (hp : p.numColumns = m.decisions.length) :
    ∃ p', (LinearProgram.addModelRows naming m).run p = (.ok ⟨⟩, p') := by
  have hall : ∀ c ∈ m.constraints, c.kind = .linear ∧ ∀ j ∈ c.body.columns, j < m.decisions.length :=
    fun c hc => ⟨hm.certain c hc, (hm.constraints c hc).columns⟩
  obtain ⟨p', hrun, -⟩ := Edit.run_forM_of_invariant (f := rowOf naming) (l := m.constraints)
    (I := fun rest q => (∀ c ∈ rest, c.kind = .linear ∧ ∀ j ∈ c.body.columns, j < m.decisions.length)
      ∧ q.numColumns = m.decisions.length) ⟨hall, hp⟩ (by
      rintro c rest q ⟨hrest, hq⟩
      obtain ⟨hkind, hcolumns⟩ := hrest c List.mem_cons_self
      obtain ⟨q', hrun, heq⟩ := exists_rowOf naming hkind (p := q) fun j hj => (hcolumns j hj).trans_eq hq.symm
      refine ⟨q', hrun, fun d hd => hrest d (List.mem_cons_of_mem _ hd), ?_⟩
      rw [LinearProgram.numColumns, heq]
      exact hq)
  exact ⟨p', hrun⟩

/-- **A model that calls have built has a working model.** -/
theorem exists_ofModel (naming : Naming) (hm : m.Built) : ∃ wm, WorkingModel.ofModel naming m = .ok wm := by
  have hcolumns : (LinearProgram.addModelColumns m (LinearProgram.empty (some m.name))).numColumns = m.decisions.length := by
    rw [m.addModelColumns_eq, LinearProgram.numColumns]
    exact m.length_columnTable
  obtain ⟨p, hrows⟩ := exists_addModelRows naming hm hcolumns
  unfold WorkingModel.ofModel
  dsimp only
  split
  next err q hrun =>
    have hok := hrun.symm.trans ((Edit.run_bind_of_ok (Edit.run_modify _ _)).trans (Edit.run_bind_of_ok hrows))
    cases hok
  next q hrun =>
    obtain ⟨rows, hmixed⟩ := exists_mapM_ok_iff.mpr fun e (_ : e ∈ m.uncertain.zipIdx) =>
      exists_mixedRowOf naming m e.1 e.2
    obtain ⟨objective, hobjective, -⟩ := m.objective.exists_mixedForm
    exact ⟨_, bind_eq_ok.mpr ⟨rows, hmixed, bind_eq_ok.mpr ⟨objective, by rw [hobjective]; rfl, rfl⟩⟩⟩

/-! ## Rows and constraints, one by one -/

/-- The mixed rows of a working model are those of the uncertain constraints, in order. -/
theorem rows_ofModel {wm : WorkingModel Rat ExtRat} (h : WorkingModel.ofModel naming m = .ok wm) :
    List.Forall₂ (fun e r => mixedRowOf naming m e.1 e.2 = .ok r) m.uncertain.zipIdx wm.rows := by
  unfold WorkingModel.ofModel at h
  dsimp only at h
  split at h
  next => cases h
  next program hbuild =>
    obtain ⟨rows, hmixed, hrest⟩ := bind_eq_ok.mp h
    obtain ⟨objective, -, hpure⟩ := bind_eq_ok.mp hrest
    cases hpure
    exact mapM_eq_ok_iff.mp hmixed

theorem source_mixedRowOf {c : Constraint Rat ExtRat × Option OracleId} {i : Nat} {r : MixedRow Rat ExtRat}
    (h : mixedRowOf naming m c i = .ok r) : r.source = .index i := by
  obtain ⟨form, -, hrest⟩ := bind_eq_ok.mp h
  obtain ⟨name, -, hpure⟩ := bind_eq_ok.mp hrest
  cases hpure
  rfl

/-- **A mixed row and the constraint at its position.** -/
theorem rowFor_at {wm : WorkingModel Rat ExtRat} (h : WorkingModel.ofModel naming m = .ok wm) {i : Nat}
    {c : Constraint Rat ExtRat × Option OracleId} (hc : m.uncertain[i]? = some c) :
    ∃ r, wm.rows[i]? = some r ∧ RowFor m c r ∧ r.source = .index i := by
  have hrows := rows_ofModel h
  have hzip : m.uncertain.zipIdx[i]? = some (c, i) := by
    rw [List.getElem?_zipIdx, hc, Nat.zero_add]
    rfl
  obtain ⟨hlt, hget⟩ := List.getElem?_eq_some_iff.mp hzip
  have hlt' : i < wm.rows.length := hrows.length_eq ▸ hlt
  have hrow := hrows.get hlt hlt'
  rw [List.get_eq_getElem, List.get_eq_getElem, hget] at hrow
  exact ⟨_, List.getElem?_eq_getElem hlt', rowFor_mixedRowOf hrow, source_mixedRowOf hrow⟩

theorem length_rows_ofModel {wm : WorkingModel Rat ExtRat} (h : WorkingModel.ofModel naming m = .ok wm) :
    wm.rows.length = m.uncertain.length := by
  rw [← (rows_ofModel h).length_eq, List.length_zipIdx]

theorem exists_constraint_of_row {wm : WorkingModel Rat ExtRat} (h : WorkingModel.ofModel naming m = .ok wm)
    {r : MixedRow Rat ExtRat} (hr : r ∈ wm.rows) : ∃ c ∈ m.uncertain, RowFor m c r := by
  obtain ⟨e, he, hrow⟩ := exists_left_of_forall₂ (rows_ofModel h) hr
  exact ⟨e.1, List.fst_mem_of_mem_zipIdx he, rowFor_mixedRowOf hrow⟩

end WorkingModel

/-! ## Points -/

/-- **Decisions and numbers of the parameters satisfy a model:** its bounds, its deterministic constraints and its uncertain ones,
evaluated there. -/
structure Model.Holds (m : Model Rat ExtRat) (x u : List Rat) : Prop where
  bounds : ∀ j d, m.decisions[j]? = some d → Between d.lower.value d.upper.value (entries x j)
  constraints : ∀ c ∈ m.constraints, c.HoldsWithin 0 (Lookup.ofList u) (Lookup.ofList x)
  uncertain : ∀ c ∈ m.uncertain, c.1.HoldsWithin 0 (Lookup.ofList u) (Lookup.ofList x)

namespace WorkingModel

/-- **Numbers of the columns and parameters satisfy a working model:** the columns and rows of its program, and its mixed rows,
evaluated there. -/
structure HoldsAt (wm : WorkingModel Rat ExtRat) (x u : List Rat) : Prop where
  program : wm.program.Feasible (entries x)
  rows : ∀ r ∈ wm.rows, ∃ q, r.form.evaluate (Lookup.ofList x) (Lookup.ofList u) = .ok q ∧ Between r.lower r.upper q

section

variable {naming : Naming} {m : Model Rat ExtRat} {wm : WorkingModel Rat ExtRat} {x u : List Rat}

theorem evaluate_entries {e : Expr Rat} (he : m.Declares e) (hx : x.length = m.decisions.length)
    (hu : u.length = m.parameters.length) :
    e.evaluate (fun k => Lookup.ofList u k.index) (fun v => Lookup.ofList x v.index)
      = .ok (e.value (entries x) (entries u)) := by
  refine Model.evaluate_eq_value (m := m) he hu fun j hj => ?_
  have hlt := hj.trans_eq hx.symm
  rw [Lookup.ofList_of_lt hlt, entries, List.getElem?_eq_getElem hlt]
  rfl

/-- **A form says what its expression says,** also where it is evaluated. -/
theorem evaluate_hasForm {e : Expr Rat} {f : MixedForm Rat} (he : m.Declares e) (hf : e.HasForm f)
    (hx : x.length = m.decisions.length) (hu : u.length = m.parameters.length) :
    f.evaluate (Lookup.ofList x) (Lookup.ofList u) = .ok (e.value (entries x) (entries u)) := by
  rw [MixedForm.evaluate_eq_ok, number_ofList, number_ofList, hf.value]
  · exact fun t ht => ⟨_, Lookup.ofList_of_lt ((he.columns _ (hf.columns t ht)).trans_eq hx.symm)⟩
  · exact fun k hk => ⟨_, Lookup.ofList_of_lt ((he.positions k (hf.positions k hk)).trans_eq hu.symm)⟩

/-- A constraint holds exactly when its body lies between its bounds. -/
theorem holdsWithin_iff {c : Constraint Rat ExtRat} (hc : m.Declares c.body) (hx : x.length = m.decisions.length)
    (hu : u.length = m.parameters.length) : c.HoldsWithin 0 (Lookup.ofList u) (Lookup.ofList x)
      ↔ Between c.lower c.upper (c.body.value (entries x) (entries u)) := by
  rw [Constraint.HoldsWithin, evaluate_entries hc hx hu]
  simp only [Except.ok.injEq, exists_eq_left', within_zero]

/-- **The points of the working model are those of the model.** -/
theorem holdsAt_iff (hm : m.Built) (h : WorkingModel.ofModel naming m = .ok wm) (hx : x.length = m.decisions.length)
    (hu : u.length = m.parameters.length) : wm.HoldsAt x u ↔ m.Holds x u := by
  have hwm := mirrors_ofModel hm.toWellFormed h
  constructor
  · rintro ⟨hprogram, hrows⟩
    refine ⟨fun j d hd => ?_, fun c hc => ?_, fun c hc => ?_⟩
    · exact within_zero.mp (hprogram.columns j _ (hwm.columns ▸ Model.mem_columnTable.mpr ⟨d, hd, rfl⟩))
    · rw [holdsWithin_iff (hm.constraints c hc) hx hu]
      exact within_zero.mp (hwm.constraints (fun _ => 0) (fun _ _ _ => le_rfl) (entries x) (entries u) hprogram c hc)
    · obtain ⟨i, hi⟩ := List.mem_iff_getElem?.mp hc
      obtain ⟨r, hr, hrow, -⟩ := rowFor_at h hi
      obtain ⟨q, hq, hbetween⟩ := hrows r (List.mem_of_getElem? hr)
      rw [evaluate_hasForm (hm.uncertain c hc) hrow.form hx hu] at hq
      cases hq
      rw [holdsWithin_iff (hm.uncertain c hc) hx hu, ← hrow.lower, ← hrow.upper]
      exact hbetween
  · rintro ⟨hbounds, hconstraints, huncertain⟩
    have hholds : wm.Holds (entries x) (entries u) := hwm.complete _ _ hbounds
      (fun c hc => (holdsWithin_iff (hm.constraints c hc) hx hu).mp (hconstraints c hc))
      fun c hc => (holdsWithin_iff (hm.uncertain c hc) hx hu).mp (huncertain c hc)
    refine ⟨(holds_iff_holdsWithin.mp hholds).program, fun r hr => ?_⟩
    obtain ⟨c, hc, hrow⟩ := exists_constraint_of_row h hr
    refine ⟨_, evaluate_hasForm (hm.uncertain c hc) hrow.form hx hu, ?_⟩
    rw [← hrow.form.value]
    exact hholds.rows r hr

/-- **The working model means what the model means.** For every model that calls lead to, the working model can be made; it has the
same points as the model, and its objective the same value and sense; the mixed rows are those of the uncertain constraints, with
their positions and oracles; and its columns are integers where the variables are. -/
theorem ofModel_faithful {self : ModelId} (hm : m.Reached self (Model.Call.Fits self)) (naming : Naming) :
    ∃ wm, WorkingModel.ofModel naming m = .ok wm
      ∧ (∀ x u : List Rat, x.length = m.decisions.length → u.length = m.parameters.length →
        (wm.HoldsAt x u ↔ m.Holds x u)
        ∧ ∃ q, wm.objective.evaluate (Lookup.ofList x) (Lookup.ofList u) = .ok q
          ∧ m.objective.evaluate (fun k => Lookup.ofList u k.index) (fun v => Lookup.ofList x v.index) = .ok q)
      ∧ wm.program.objective.sense = m.sense
      ∧ wm.rows.length = m.uncertain.length
      ∧ (∀ (i : Nat) (c : Constraint Rat ExtRat × Option OracleId), m.uncertain[i]? = some c →
        ∃ r : MixedRow Rat ExtRat, wm.rows[i]? = some r ∧ r.source = .index i ∧ r.oracle = some (c.2.getD m.defaultOracle))
      ∧ wm.program.columns.map (·.integer) = m.decisions.map (·.domain.isInteger) := by
  have hbuilt := hm.built
  obtain ⟨wm, h⟩ := exists_ofModel naming hbuilt
  have hwm := mirrors_ofModel hbuilt.toWellFormed h
  refine ⟨wm, h, fun x u hx hu => ⟨holdsAt_iff hbuilt h hx hu, _, ?_, evaluate_entries hbuilt.objective hx hu⟩, hwm.sense,
    length_rows_ofModel h, fun i c hc => ?_, ?_⟩
  · exact evaluate_hasForm hbuilt.objective hwm.objective hx hu
  · obtain ⟨r, hr, hrow, hsource⟩ := rowFor_at h hc
    exact ⟨r, hr, hsource, hrow.oracle⟩
  · conv_rhs => rw [← List.zipIdx_map_fst 0 m.decisions]
    rw [hwm.columns, Model.columnTable, List.map_map, List.map_map]
    rfl

/-- An integer variable times a parameter is at most six: two is a point where the parameter is three. -/
theorem ofModel_faithful_product : ∃ (m : Model Rat ExtRat) (wm : WorkingModel Rat ExtRat),
    WorkingModel.ofModel (Catalog.naming ([] : Catalog Rat ExtRat)) m = .ok wm ∧ wm.HoldsAt [2] [3]
      ∧ (∃ r : MixedRow Rat ExtRat, wm.rows[0]? = some r ∧ r.source = .index 0 ∧ r.oracle = some 5)
      ∧ wm.program.columns.map (·.integer) = [true] := by
  let naming : Naming := Catalog.naming ([] : Catalog Rat ExtRat)
  let P : Model Rat ExtRat → Model.Call Rat ExtRat → Prop := Model.Call.Fits 0
  let product : Full Rat :=
    { terms := [({ model := 0, index := 0 }, .ofSymbol { model := 0, index := 0 })], constant := .ofConstant 0, owner := some 0 }
  let c : Constraint Rat ExtRat := { body := .full product, lower := negInf, upper := finite 6 }
  have hvariable : Model.Reached 0 P _ := .call naming (.addVariable { domain := .ok .integers }) (.start "m" true 5) trivial
  have hparameter : Model.Reached 0 P _ := .call naming (.addParameter {}) hvariable trivial
  have hm : Model.Reached 0 P _ := .call naming (.addConstraint (.constraint c) none) hparameter
    fun _ => ⟨List.forall_mem_singleton.mpr Nat.zero_lt_one, List.forall_mem_singleton.mpr Nat.zero_lt_one⟩
  obtain ⟨wm, hwm, hpoints, -, -, hrows, hinteger⟩ := ofModel_faithful hm naming
  obtain ⟨r, hr, hsource, horacle⟩ := hrows 0 (c, none) rfl
  refine ⟨_, wm, hwm, ((hpoints [2] [3] rfl rfl).1).mpr ⟨fun j d hd => ?_, List.forall_mem_nil _, ?_⟩,
    ⟨r, hr, hsource, horacle⟩, hinteger⟩
  · cases j with
    | zero =>
      cases hd
      exact ⟨rfl, rfl⟩
    | succ j => cases hd
  · refine List.forall_mem_singleton.mpr ⟨6, ?_, rfl, by decide +kernel⟩
    cbv

end

end WorkingModel

end RobustLP
