import RobustLP.Proofs.Model.Built
import RobustLP.Proofs.Set.Program

/-!
# The views of an uncertainty set

What a model declares of its parameters can be read in three ways: as bounds and constraints over the parameters
(`Model.Realizes`), as a set with its test of points (`UncertaintySet.ofModel`, `UncertaintySet.contains`), and as a linear program
(`UncertaintySet.toProgram`). For a model that calls have built, the set and the program can always be made
(`UncertaintySet.exists_ofModel`, `UncertaintySet.exists_toProgram`), and all three describe the same points
(`UncertaintySet.views_agree`).
-/

namespace RobustLP

open ExtRat UncertaintySet

/-- A fold whose steps succeed succeeds. -/
theorem exists_foldlM_ok {ε α β : Type} {f : β → α → Except ε β} : ∀ {l : List α}, (∀ b, ∀ a ∈ l, ∃ b', f b a = .ok b') →
    ∀ b, ∃ b', l.foldlM f b = .ok b'
  | [], _, b => ⟨b, rfl⟩
  | a :: l, h, b => by
    obtain ⟨b₁, hfirst⟩ := h b a List.mem_cons_self
    obtain ⟨b', hrest⟩ := exists_foldlM_ok (fun b c hc => h b c (List.mem_cons_of_mem _ hc)) b₁
    exact ⟨b', by rw [List.foldlM_cons, hfirst]; exact hrest⟩

/-- An expression in the parameters alone has a form. -/
theorem Expr.exists_uncertainForm [Written Rat] (naming : Naming) {e : Expr Rat} (h : e.kind = .uncertain) :
    ∃ f, Quantity.uncertainForm naming (.expr e) = .ok f := by
  unfold Quantity.uncertainForm
  dsimp only
  rw [normalized_eq]
  cases e with
  | uncertain e => exact ⟨_, rfl⟩
  | linear e => cases h
  | full e => cases h

namespace UncertaintySet

variable {s : UncertaintySet Rat ExtRat}

/-! ## Making the set -/

/-- Bounds that do not contradict each other are accepted. -/
theorem checkBounds_ok {B : Type} [Bound B] [Written B] {ds : List (Declared B)}
    (h : ∀ d ∈ ds, Bound.lt d.upper.value d.lower.value = false) :
    checkBounds (ds.map (·.lower.value)) (ds.map (·.upper.value)) = .ok () := by
  have hnone : firstContradiction (ds.map (·.lower.value)) (ds.map (·.upper.value)) = none := by
    unfold firstContradiction
    rw [Option.map_eq_none_iff, List.find?_eq_none, List.zip_map']
    rintro ⟨b, k⟩ hb
    obtain ⟨d, hd, rfl⟩ := List.mem_map.mp (List.fst_mem_of_mem_zipIdx hb)
    simpa using h d hd
  unfold checkBounds
  rw [List.length_map, List.length_map, if_neg (not_not.mpr rfl), hnone]
  rfl

/-- **A model that calls have built has an uncertainty set.** -/
theorem exists_ofModel [Written Rat] [Written ExtRat] (naming : Naming) {m : Model Rat ExtRat} (hm : m.Built) :
    ∃ s, UncertaintySet.ofModel naming m = .ok s := by
  unfold ofModel
  obtain ⟨s, hs⟩ := exists_foldlM_ok (f := fun s c => do
    let f ← Quantity.uncertainForm naming (.expr c.body)
    return addConstraint s (denseForm m.parameters.length f) (Scalar.shift c.lower f.constant)
      (Scalar.shift c.upper f.constant)) (l := m.setConstraints) (fun s c hc => by
    obtain ⟨f, hf⟩ := Expr.exists_uncertainForm naming (hm.ofSet c hc)
    exact ⟨_, by rw [hf]; rfl⟩) (ofBounds m)
  exact ⟨s, bind_eq_ok.mpr ⟨s, hs, bind_eq_ok.mpr ⟨(), checkBounds_ok hm.ordered, rfl⟩⟩⟩

/-! ## Making the program -/

theorem lt_length_of_mem_sparseRow {row : List Rat} {t : Nat × Rat} (ht : t ∈ sparseRow row) : t.1 < row.length := by
  obtain ⟨⟨a, k⟩, hmem, heq⟩ := List.mem_filterMap.mp ht
  have hk := (List.getElem?_eq_some_iff.mp (List.mk_mem_zipIdx_iff_getElem?.mp hmem)).1
  dsimp only at heq
  split at heq
  next => cases heq
  next =>
    cases heq
    exact hk

/-- A row of the set can be added to a program with a column for each parameter. -/
theorem run_addRow_sparseRow {row : List Rat} {p : LinearProgram Rat ExtRat} (hrow : row.length = p.numColumns)
    (lower upper : ExtRat) : ∃ p', (discard (LinearProgram.addRow (LinearProgram.given (sparseRow row)) (some (.ok lower))
      (some (.ok upper)) none)).run p = (.ok ⟨⟩, p') ∧ p'.columns = p.columns := by
  have hread : readTerms p.numColumns (LinearProgram.given (sparseRow row)) = .ok (sparseRow row) :=
    LinearProgram.readTerms_given fun t ht => (lt_length_of_mem_sparseRow ht).trans_eq hrow
  have hrun := LinearProgram.run_addRow (p := p) (LinearProgram.given (sparseRow row)) lower upper none
  rw [hread] at hrun
  exact ⟨_, Edit.run_bind_of_ok hrun, rfl⟩

/-- Rows of the set can be added one after the other. -/
theorem run_forM_sparseRow {rows : List (List Rat × ExtRat)} {f : List Rat × ExtRat → Edit (LinearProgram Rat ExtRat) PUnit}
    {n : Nat} (hrows : ∀ b ∈ rows, b.1.length = n)
    (hf : ∀ b p, b.1.length = p.numColumns → ∃ p', (f b).run p = (.ok ⟨⟩, p') ∧ p'.columns = p.columns)
    {p : LinearProgram Rat ExtRat} (hp : p.numColumns = n) :
    ∃ p', (rows.forM f).run p = (.ok ⟨⟩, p') ∧ p'.numColumns = n := by
  obtain ⟨p', hrun, -, hp'⟩ := Edit.run_forM_of_invariant (f := f)
    (I := fun rest q => (∀ b ∈ rest, b.1.length = n) ∧ q.numColumns = n) ⟨hrows, hp⟩ (by
      rintro b rest q ⟨hrest, hq⟩
      obtain ⟨q', hrun, hcolumns⟩ := hf b q ((hrest b List.mem_cons_self).trans hq.symm)
      refine ⟨q', hrun, fun c hc => hrest c (List.mem_cons_of_mem _ hc), ?_⟩
      rw [LinearProgram.numColumns, hcolumns]
      exact hq)
  exact ⟨p', hrun, hp'⟩

/-- **A set whose rows have an entry for each parameter is a program.** -/
theorem exists_toProgram (hs : s.WellFormed) (name : Option String) : ∃ p, s.toProgram name = .ok p := by
  have hatMost : ∀ b ∈ s.atMostRows.zip s.atMostBounds, b.1.length = s.numParameters :=
    fun b hb => hs.width b.1 (List.mem_append_left _ (List.of_mem_zip hb).1)
  have hequal : ∀ b ∈ s.equalRows.zip s.equalBounds, b.1.length = s.numParameters :=
    fun b hb => hs.width b.1 (List.mem_append_right _ (List.of_mem_zip hb).1)
  have hstart : ({ LinearProgram.empty name with columns := s.columnsOf } : LinearProgram Rat ExtRat).numColumns
      = s.numParameters := by
    rw [LinearProgram.numColumns, columnsOf, List.length_map, List.length_range]
  obtain ⟨p₁, hrun₁, hp₁⟩ := run_forM_sparseRow hatMost (fun b p hb => run_addRow_sparseRow hb negInf b.2) hstart
  obtain ⟨p₂, hrun₂, -⟩ := run_forM_sparseRow hequal (fun b p hb => run_addRow_sparseRow hb b.2 b.2) hp₁
  unfold toProgram
  dsimp only
  split
  next q hrun => exact ⟨q, rfl⟩
  next err q hrun =>
    have hok := hrun.symm.trans ((Edit.run_bind_of_ok hrun₁).trans hrun₂)
    cases hok

/-! ## One meaning -/

/-- The points of the program are those of the set. -/
theorem admits_iff_feasible (hs : s.WellFormed) {name : Option String} {p : LinearProgram Rat ExtRat}
    (h : s.toProgram name = .ok p) {u : List Rat} :
    s.Admits u ↔ u.length = p.numColumns ∧ p.Feasible (entries u) ∧ p.Integral (entries u) := by
  obtain ⟨hcolumns, hpoints⟩ := points_toProgram h
  have hnum : p.numColumns = s.numParameters := by
    rw [LinearProgram.numColumns, hcolumns, columnsOf, List.length_map, List.length_range]
  constructor
  · intro hu
    exact ⟨hu.size.trans hnum.symm, (hpoints _).mpr hu.solves, integral_of_columnsOf hcolumns hu.integral⟩
  · rintro ⟨hsize, hfeasible, hintegral⟩
    exact ⟨hsize.trans hnum, (hpoints _).mp hfeasible, integral_of_integral_columnsOf hs hcolumns hintegral⟩

/-- **The uncertainty set has one meaning in all its views.** For every model that calls lead to, the set and its program can be
made, and of every point the three views say the same: it satisfies what the model declares, the test of points without tolerance
says yes, and it satisfies the columns and rows of the program. The test answers for every point of the right size. -/
theorem views_agree {self : ModelId} {m : Model Rat ExtRat} (hm : m.Reached self (Model.Call.Fits self)) (naming : Naming)
    (name : Option String) : ∃ s p, UncertaintySet.ofModel naming m = .ok s ∧ s.toProgram name = .ok p
      ∧ p.numColumns = m.parameters.length
      ∧ ∀ u : List Rat, (m.Realizes u ↔ s.contains 0 u = .ok true)
        ∧ (s.contains 0 u = .ok true ↔ u.length = p.numColumns ∧ p.Feasible (entries u) ∧ p.Integral (entries u))
        ∧ (u.length = m.parameters.length → ∃ b, s.contains 0 u = .ok b) := by
  have hbuilt := hm.built
  obtain ⟨s, hs⟩ := exists_ofModel naming hbuilt
  have hnarrowed := hbuilt.narrowed hs
  have hwell := hnarrowed.wellFormed
  have hsize : s.numParameters = m.parameters.length := numParameters_of_narrowed hnarrowed
  obtain ⟨p, hp⟩ := exists_toProgram hwell name
  refine ⟨s, p, hs, hp, ?_, fun u => ⟨?_, ?_, fun hu => ⟨_, contains_eq hwell 0 (hu.trans hsize.symm)⟩⟩⟩
  · rw [LinearProgram.numColumns, (points_toProgram hp).1, columnsOf, List.length_map, List.length_range, hsize]
  · rw [contains_zero_iff hwell]
    exact ⟨hbuilt.admits hs, hbuilt.realizes hs⟩
  · rw [contains_zero_iff hwell]
    exact admits_iff_feasible hwell hp

/-- One integer parameter between zero and three, and a ranged constraint that lets it be one or two. -/
theorem views_agree_ranged : ∃ (m : Model Rat ExtRat) (s : UncertaintySet Rat ExtRat) (p : LinearProgram Rat ExtRat),
    m.setConstraints.length = 1 ∧ UncertaintySet.ofModel (Catalog.naming ([] : Catalog Rat ExtRat)) m = .ok s
      ∧ s.toProgram none = .ok p ∧ s.contains 0 [2] = .ok true ∧ p.Feasible (entries [2]) ∧ p.Integral (entries [2]) := by
  let naming : Naming := Catalog.naming ([] : Catalog Rat ExtRat)
  let P : Model Rat ExtRat → Model.Call Rat ExtRat → Prop := Model.Call.Fits 0
  let c : Constraint Rat ExtRat :=
    { body := .uncertain (.ofSymbol { model := 0, index := 0 }), lower := finite (1 / 2), upper := finite 2 }
  have hparameter : Model.Reached 0 P _ := .call naming
    (.addParameter { lower := some (.ok (finite 0)), upper := some (.ok (finite 3)), domain := .ok .integers })
    (.start "m" true 0) trivial
  have hm : Model.Reached 0 P _ := .call naming (.addConstraint (.constraint c) none) hparameter
    fun _ => ⟨List.forall_mem_nil _, List.forall_mem_singleton.mpr Nat.zero_lt_one⟩
  obtain ⟨s, p, hs, hp, -, hviews⟩ := views_agree hm naming none
  obtain ⟨htest, hprogram, -⟩ := hviews [2]
  have hcontains : s.contains 0 [2] = .ok true := by
    refine htest.mp ⟨rfl, fun k d hd => ?_, fun k d hd _ => ?_, List.forall_mem_singleton.mpr ⟨2, ?_, ?_⟩⟩
    · cases k with
      | zero =>
        cases hd
        exact ⟨by decide, by decide⟩
      | succ k => cases hd
    · cases k with
      | zero => exact ⟨2, rfl⟩
      | succ k => cases hd
    · cbv
    · exact ⟨by decide +kernel, by decide +kernel⟩
  exact ⟨_, s, p, rfl, hs, hp, hcontains, (hprogram.mp hcontains).2⟩

end UncertaintySet

end RobustLP
