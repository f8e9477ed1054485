import RobustLP.Proofs.Outcome
import RobustLP.Working

/-!
# Programs that grow

Cuts and reformulations only ever add to a program: columns behind the earlier ones, rows behind the earlier ones, and nothing
else is touched. `LinearProgram.grow` is the program that is left, so that one equation says both what was added and that the
rest stayed as it was. This holds for any numbers, and it does not depend on what the rows mean.
-/

namespace RobustLP

variable {K B : Type}

/-- A row with its bounds and its name. -/
structure TableRow (K B : Type) where
  coefs : List (Nat × K)
  lower : B
  upper : B
  name : String

/-- A table with more rows. -/
def RowTable.append (t : RowTable K B) (rows : List (TableRow K B)) : RowTable K B where
  coefs := t.coefs ++ rows.map (·.coefs)
  lower := t.lower ++ rows.map (·.lower)
  upper := t.upper ++ rows.map (·.upper)
  names := t.names ++ rows.map (·.name)

namespace LinearProgram

/-- A program with more columns and rows. -/
def grow (p : LinearProgram K B) (columns : List (Column B)) (rows : List (TableRow K B)) : LinearProgram K B :=
  { p with columns := p.columns ++ columns, rows := p.rows.append rows }

@[simp] theorem grow_nil (p : LinearProgram K B) : p.grow [] [] = p := by
  simp [grow, RowTable.append]

@[simp] theorem grow_grow (p : LinearProgram K B) (columns columns' : List (Column B)) (rows rows' : List (TableRow K B)) :
    (p.grow columns rows).grow columns' rows' = p.grow (columns ++ columns') (rows ++ rows') := by
  simp [grow, RowTable.append]

theorem numColumns_grow (p : LinearProgram K B) (columns : List (Column B)) (rows : List (TableRow K B)) :
    (p.grow columns rows).numColumns = p.numColumns + columns.length := List.length_append

theorem numNames_grow (p : LinearProgram K B) (columns : List (Column B)) (rows : List (TableRow K B)) :
    (p.grow columns rows).rows.names.length = p.rows.names.length + rows.length := by
  simp only [grow, RowTable.append, List.length_append, List.length_map]

theorem withColumn_eq_grow (p : LinearProgram K B) (lower upper : B) (integer : Bool) (name : Option String) :
    p.withColumn lower upper integer name
      = p.grow [{ lower, upper, integer, name := name.getD s!"_col{p.numColumns}" }] [] := by
  simp only [withColumn, grow, RowTable.append, List.map_nil, List.append_nil]

variable [Bound B] [Scalar K B] {p p' : LinearProgram K B}

/-! ## Rows -/

/-- Reading given numbers answers them. -/
theorem eq_of_readTerms_given {n : Nat} {terms coefs : List (Nat × K)} (h : readTerms n (given terms) = .ok coefs) :
    coefs = terms := by
  unfold readTerms given at h
  rw [List.mapM_map] at h
  refine (eq_map_of_mapM_ok (g := id) (fun t _ c hc => ?_) h).trans (List.map_id terms)
  simp only [Function.comp_apply, bind, Except.bind] at hc
  split at hc
  next =>
    cases hc
    rfl
  next => cases hc

/-- **A row that was added** is the last one, and has the coefficients that were read. -/
theorem eq_grow_of_run_addRow {terms : List (GivenTerm K)} {lower upper : B} {name : Option String} {i : Nat}
    (h : (addRow terms (some (.ok lower)) (some (.ok upper)) name).run p = (.ok i, p')) :
    ∃ coefs row, readTerms p.numColumns terms = .ok coefs ∧ p' = p.grow [] [row] ∧ row.coefs = collect coefs
      ∧ row.lower = lower ∧ row.upper = upper ∧ ∀ n, name = some n → row.name = n := by
  unfold addRow at h
  rw [Edit.run_bind_of_ok (Edit.run_get p)] at h
  obtain ⟨coefs, q, hlift, hchanges⟩ := Edit.run_bind_eq_ok.mp h
  obtain ⟨hread, hq⟩ := Edit.run_lift_eq_ok.mp hlift
  rw [hq] at hchanges
  refine ⟨coefs, ⟨collect coefs, lower, upper, name.getD s!"_row{p.rows.names.length}"⟩, hread, ?_, rfl, rfl, rfl, ?_⟩
  · -- what follows the reading is a sequence of changes none of which can fail
    cases hchanges
    simp only [grow, RowTable.append, List.map_cons, List.map_nil, List.append_nil]
  · rintro n rfl
    rfl

end LinearProgram

/-! ## Cuts and reformulations -/

/-- The column that an auxiliary one becomes at position `j`. -/
def AuxVariable.column (v : AuxVariable B) (j : Nat) : Column B where
  lower := v.lower
  upper := v.upper
  integer := false
  name := v.name.getD s!"_col{j}"

/-- The columns that auxiliary ones become, the first one at position `n`. -/
def auxiliaryColumns (n : Nat) (vs : List (AuxVariable B)) : List (Column B) := (vs.zipIdx n).map fun v => v.1.column v.2

theorem length_auxiliaryColumns (n : Nat) (vs : List (AuxVariable B)) : (auxiliaryColumns n vs).length = vs.length := by
  rw [auxiliaryColumns, List.length_map, List.length_zipIdx]

theorem getElem?_auxiliaryColumns (n : Nat) (vs : List (AuxVariable B)) (i : Nat) :
    (auxiliaryColumns n vs)[i]? = vs[i]?.map fun v => v.column (n + i) := by
  rw [auxiliaryColumns, List.getElem?_map, List.getElem?_zipIdx, Option.map_map]
  rfl

section

variable [Bound B] [Scalar K B] {p p' : LinearProgram K B}

/-- A row is a mixed row at a point of the parameters. -/
def MixedRow.At (row : MixedRow K B) (point : Lookup K) (t : TableRow K B) : Prop :=
  ∃ terms, row.specialize point = .ok (terms, t.lower, t.upper) ∧ t.coefs = collect terms

namespace WorkingModel

/-- **Adding a mixed row at a point** adds one row, which is the mixed row at that point. -/
theorem eq_grow_of_run_addCutTo {row : MixedRow K B} {point : Lookup K} {name : Option String} {i : Nat}
    (h : (addCutTo row point name).run p = (.ok i, p')) :
    ∃ t, p' = p.grow [] [t] ∧ row.At point t ∧ ∀ n, name = some n → t.name = n := by
  obtain ⟨⟨terms, lower, upper⟩, q, hlift, hpush⟩ := Edit.run_bind_eq_ok.mp h
  obtain ⟨hspecialize, hq⟩ := Edit.run_liftFault_eq_ok.mp hlift
  rw [hq] at hpush
  obtain ⟨coefs, t, hread, hp, hc, hl, hu, hn⟩ := LinearProgram.eq_grow_of_run_addRow hpush
  refine ⟨t, hp, ⟨terms, ?_, ?_⟩, hn⟩
  · rw [hspecialize, hl, hu]
  · rw [hc, LinearProgram.eq_of_readTerms_given hread]

omit [Scalar K B] in
/-- **Auxiliary columns** are added in order, behind the columns that exist. -/
theorem run_injectVariables_eq_grow : ∀ (vs : List (AuxVariable B)) (p : LinearProgram K B), (injectVariables vs).run p
    = (.ok (List.range' p.numColumns vs.length), p.grow (auxiliaryColumns p.numColumns vs) [])
  | [], p => congrArg (Prod.mk _) p.grow_nil.symm
  | v :: vs, p => by
    have hfirst : (LinearProgram.addColumn (some (.ok v.lower)) (some (.ok v.upper)) false v.name).run p
        = (.ok p.numColumns, p.grow [v.column p.numColumns] []) :=
      congrArg (Prod.mk _) (p.withColumn_eq_grow v.lower v.upper false v.name)
    have ih := run_injectVariables_eq_grow vs (p.grow [v.column p.numColumns] [])
    have hcount := p.numColumns_grow [v.column p.numColumns] []
    rw [injectVariables] at ih ⊢
    rw [List.mapM_cons, Edit.run_bind_of_ok hfirst, Edit.run_bind_of_ok ih, hcount, LinearProgram.grow_grow]
    rfl

omit [Scalar K B] in
theorem eq_grow_of_run_injectVariables {vs : List (AuxVariable B)} {cols : List Nat} (h : (injectVariables vs).run p = (.ok cols, p')) :
    ∃ columns, columns.length = vs.length ∧ p' = p.grow columns [] := by
  rw [run_injectVariables_eq_grow] at h
  cases h
  exact ⟨_, length_auxiliaryColumns .., rfl⟩

theorem eq_grow_of_run_injectRow {cols : List Nat} {r : AuxRow K B} (h : (injectRow cols r).run p = (.ok ⟨⟩, p')) :
    ∃ t, p' = p.grow [] [t] := by
  obtain ⟨terms, s, hterms, h⟩ := Edit.run_bind_eq_ok.mp h
  obtain ⟨i, s', hrow, h⟩ := Edit.run_bind_eq_ok.mp h
  cases h
  -- resolving columns reads the positions only
  have hs : s = p := by
    refine (Edit.forall₂_of_run_mapM (R := fun _ _ => True) (fun t b q q' hb => ?_) hterms).1
    obtain ⟨j, q₁, hj, hpure⟩ := Edit.run_bind_eq_ok.mp hb
    obtain ⟨-, hq₁⟩ := Edit.run_lift_eq_ok.mp hj
    rw [hq₁] at hpure
    cases hpure
    exact ⟨rfl, trivial⟩
  obtain ⟨-, t, -, hp, -⟩ := LinearProgram.eq_grow_of_run_addRow hrow
  exact ⟨t, hs ▸ hp⟩

theorem eq_grow_of_run_injectRows {cols : List Nat} : ∀ {rs : List (AuxRow K B)} {p p' : LinearProgram K B},
    (rs.forM (injectRow cols)).run p = (.ok ⟨⟩, p') → ∃ rows, rows.length = rs.length ∧ p' = p.grow [] rows := by
  intro rs
  induction rs with
  | nil =>
    intro p p' h
    cases h
    exact ⟨[], rfl, p.grow_nil.symm⟩
  | cons r rs ih =>
    intro p p' h
    have hsteps : (injectRow cols r >>= fun _ => rs.forM (injectRow cols)).run p = (.ok ⟨⟩, p') := h
    obtain ⟨⟨⟩, q, hfirst, hrest⟩ := Edit.run_bind_eq_ok.mp hsteps
    obtain ⟨t, rfl⟩ := eq_grow_of_run_injectRow hfirst
    obtain ⟨rows, hlength, rfl⟩ := ih hrest
    exact ⟨t :: rows, by simp [hlength], LinearProgram.grow_grow ..⟩

/-- **Adding a reformulation** adds its columns and its rows. -/
theorem eq_grow_of_run_injectInto {f : Reformulation K B} {cols : List Nat}
    (h : (injectInto f).run p = (.ok cols, p')) : ∃ columns rows, columns.length = f.auxiliaries.length
      ∧ rows.length = f.constraints.length ∧ p' = p.grow columns rows := by
  obtain ⟨js, q, hcolumns, h⟩ := Edit.run_bind_eq_ok.mp h
  obtain ⟨⟨⟩, q', hrows, h⟩ := Edit.run_bind_eq_ok.mp h
  cases h
  obtain ⟨columns, hcount, rfl⟩ := eq_grow_of_run_injectVariables hcolumns
  obtain ⟨rows, hlength, rfl⟩ := eq_grow_of_run_injectRows hrows
  refine ⟨columns, rows, hcount, hlength, ?_⟩
  rw [LinearProgram.grow_grow, List.append_nil, List.nil_append]

end WorkingModel

end

end RobustLP
