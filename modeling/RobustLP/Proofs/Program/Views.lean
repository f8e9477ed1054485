import RobustLP.Proofs.Backend.Answer
import RobustLP.Proofs.Program.Calls

/-!
# What a program shows of the rows that it was given

A program keeps rows in another form than they were given in: coefficients of one column are summed, those that are zero are
dropped, rows are renumbered when others are removed. A `LinearProgram.Ledger` keeps what was given. In exact arithmetic a program that
was built by calls that succeeded shows just that (`LinearProgram.views_faithful`): the values of its rows and of its objective
are the sums over the pairs as they were given, and its largest violation is the least slack with which all rows and columns lie
within their bounds.

The ledger is carried through the calls by `LinearProgram.Call.Done.records`, and each view is read off it.
-/

namespace RobustLP

open ExtRat UncertaintySet

namespace LinearProgram

/-! ## What was given -/

/-- A row as it was given. -/
structure GivenRow where
  terms : List (Nat × Rat)
  lower : ExtRat
  upper : ExtRat

/-- The rows that were given and not removed, and the last objective. -/
structure Ledger where
  rows : List GivenRow := []
  terms : List (Nat × Rat) := []
  constant : Rat := 0

/-- The pairs of columns and numbers among what was given. -/
def pairs (terms : List (GivenTerm Rat)) : List (Nat × Rat) :=
  terms.filterMap fun
    | (.ok j, .ok c) => some (j.toNat, c)
    | _ => none

/-- The bound that was given; the one for none if it is no number. -/
def limit (absent : ExtRat) (b : GivenBound ExtRat) : ExtRat := ((b.getD (.ok absent)).toOption).getD absent

/-- Enters a call. -/
def Ledger.enter (l : Ledger) : Call Rat ExtRat → Ledger
  | .addColumn .. => l
  | .addRow terms lower upper _ =>
    { l with rows := l.rows ++ [{ terms := pairs terms, lower := limit negInf lower, upper := limit posInf upper }] }
  | .removeRows drop => { l with rows := (kept l.rows.length drop).filterMap (l.rows[·]?) }
  | .setObjective terms constant _ => { l with terms := pairs terms, constant := constant.toOption.getD 0 }

/-- **A program records what a ledger says:** each row as it was given, but collected. -/
structure Records (l : Ledger) (p : LinearProgram Rat ExtRat) : Prop where
  coefs : p.rows.coefs = l.rows.map fun r => collect r.terms
  lower : p.rows.lower = l.rows.map (·.lower)
  upper : p.rows.upper = l.rows.map (·.upper)
  names : p.rows.names.length = l.rows.length
  terms : p.objective.terms = collect l.terms
  constant : p.objective.constant = l.constant

variable {l : Ledger} {p q : LinearProgram Rat ExtRat} {c : Call Rat ExtRat}

theorem Records.aligned (h : p.Records l) : p.rows.Aligned where
  lower := by rw [h.lower, h.coefs, List.length_map, List.length_map]
  upper := by rw [h.upper, h.coefs, List.length_map, List.length_map]
  names := by rw [h.names, h.coefs, List.length_map]

theorem eq_pairs_of_readTerms {n : Nat} : ∀ {terms : List (GivenTerm Rat)} {coefs : List (Nat × Rat)},
    readTerms n terms = .ok coefs → coefs = pairs terms
  | [], coefs, h => by
    cases h
    rfl
  | (column, coef) :: terms, coefs, h => by
    rw [readTerms, List.mapM_cons] at h
    obtain ⟨t, ht, h⟩ := bind_eq_ok.mp h
    obtain ⟨ts, hts, h⟩ := bind_eq_ok.mp h
    cases h
    obtain ⟨j, hj, ht⟩ := bind_eq_ok.mp ht
    split at ht
    next =>
      obtain ⟨k, hk, ht⟩ := bind_eq_ok.mp ht
      cases ht
      have ih := eq_pairs_of_readTerms (n := n) hts
      unfold pairs at ih ⊢
      rw [hj, hk, List.filterMap_cons, ih]
    next => cases ht

theorem limit_of_getD {absent low : ExtRat} {b : GivenBound ExtRat} (h : b.getD (.ok absent) = .ok low) :
    limit absent b = low := by
  rw [limit, h]
  rfl

theorem records_empty (name : Option String) : (empty name : LinearProgram Rat ExtRat).Records {} :=
  ⟨rfl, rfl, rfl, rfl, rfl, rfl⟩

/-- **A call that succeeds** changes a program as it changes the ledger. -/
theorem Call.Done.records (h : c.Done p q) (hp : p.Records l) : q.Records (l.enter c) := by
  cases h with
  | addColumn => exact ⟨hp.coefs, hp.lower, hp.upper, hp.names, hp.terms, hp.constant⟩
  | addRow hread hlower hupper =>
    obtain rfl := eq_pairs_of_readTerms hread
    refine ⟨?_, ?_, ?_, ?_, hp.terms, hp.constant⟩
    · rw [Ledger.enter, List.map_append, ← hp.coefs]
      rfl
    · rw [Ledger.enter, List.map_append, ← hp.lower]
      exact congrArg (p.rows.lower ++ [·]) (limit_of_getD hlower).symm
    · rw [Ledger.enter, List.map_append, ← hp.upper]
      exact congrArg (p.rows.upper ++ [·]) (limit_of_getD hupper).symm
    · simp [RowTable.push, Ledger.enter, hp.names]
  | @removeRows drop =>
    have hnum : p.numRows = l.rows.length := by rw [numRows, hp.coefs, List.length_map]
    have hmap : ∀ {α : Type} (f : GivenRow → α), (kept p.numRows drop).filterMap ((l.rows.map f)[·]?)
        = (l.enter (.removeRows drop)).rows.map f := by
      intro α f
      rw [Ledger.enter, List.map_filterMap, hnum]
      simp only [List.getElem?_map]
    refine ⟨?_, ?_, ?_, ?_, hp.terms, hp.constant⟩
    · rw [← hmap, ← hp.coefs]
      rfl
    · rw [← hmap, ← hp.lower]
      rfl
    · rw [← hmap, ← hp.upper]
      rfl
    · have hlength := congrArg List.length (hmap fun r => collect r.terms)
      rw [← hp.coefs, List.length_map] at hlength
      exact (hp.aligned.keep fun i hi => lt_of_mem_kept hi).names.trans hlength
  | setObjective hread =>
    obtain rfl := eq_pairs_of_readTerms hread
    exact ⟨hp.coefs, hp.lower, hp.upper, hp.names, rfl, rfl⟩

/-- **Calls that succeed,** one after the other, lead to a program that records what the ledger of the calls says. -/
theorem records_of_run {history : List (Call Rat ExtRat)} {name : Option String}
    (hrun : (history.forM Call.edit).run (empty name) = (.ok ⟨⟩, p)) :
    p.Clean ∧ p.Records (history.foldl Ledger.enter {}) := by
  -- what is still to be entered is entered into the ledger of what has been run
  have hstep : ∀ c rest (p q : LinearProgram Rat ExtRat), (Call.edit c).run p = (.ok ⟨⟩, q) →
      (∃ l, p.Clean ∧ p.Records l ∧ (c :: rest).foldl Ledger.enter l = history.foldl Ledger.enter {}) →
      ∃ l, q.Clean ∧ q.Records l ∧ rest.foldl Ledger.enter l = history.foldl Ledger.enter {} := by
    rintro c rest p q hedit ⟨l, hclean, hrecords, hledger⟩
    have hdone := (c.ends p).done ⟨⟩ q hedit
    exact ⟨l.enter c, hdone.clean hclean, hdone.records hrecords, hledger⟩
  obtain ⟨l, hclean, hrecords, hledger⟩ := Edit.invariant_of_run_forM
    (I := fun rest p => ∃ l, p.Clean ∧ p.Records l ∧ rest.foldl Ledger.enter l = history.foldl Ledger.enter {}) hstep hrun
    ⟨{}, clean_empty name, records_empty name, rfl⟩
  exact ⟨hclean, hledger ▸ hrecords⟩

/-! ## Values of rows -/

theorem Clean.wellFormed (h : p.Clean) (haligned : p.rows.Aligned) : p.WellFormed :=
  ⟨haligned.lower.le, fun row hrow => ⟨(h.rows row hrow).1, fun t ht => ((h.rows row hrow).2 t ht).1⟩,
    h.objective.1, fun t ht => (h.objective.2 t ht).1⟩

/-- The value of a row is the sum over its coefficients, in whatever order they are added. -/
theorem rowActivity_eq {x : List Rat} {row : List (Nat × Rat)} (h : ∀ t ∈ row, t.1 < x.length) :
    rowActivity x row = .ok (lhs (entries x) row) := by
  have hperm := List.mergeSort_perm row fun s t => decide (s.1 ≤ t.1)
  have hproducts : (row.mergeSort fun s t => decide (s.1 ≤ t.1)).mapM
      (fun t => (do return t.2 * (← Lookup.ofList x t.1) : Except Fault Rat))
        = .ok ((row.mergeSort fun s t => decide (s.1 ≤ t.1)).map fun t => t.2 * entries x t.1) := by
    refine mapM_ok_map fun t ht => ?_
    have hlt := h t (hperm.mem_iff.mp ht)
    rw [Lookup.ofList_of_lt hlt, entries, List.getElem?_eq_getElem hlt]
    rfl
  unfold rowActivity
  rw [hproducts]
  refine congrArg Except.ok ?_
  rw [total, exact_zero, ← List.sum_eq_foldl, (hperm.map _).sum_eq]
  rfl

theorem Records.activity_eq (h : p.Records l) (hclean : p.Clean) {x : List Rat} (hx : x.length = p.numColumns) :
    p.activity x = .ok (l.rows.map fun r => lhs (entries x) r.terms) := by
  have hrows : p.rows.coefs.mapM (rowActivity x) = .ok (p.rows.coefs.map (lhs (entries x))) :=
    mapM_ok_map fun row hrow => rowActivity_eq fun t ht => hx.symm ▸ ((hclean.rows row hrow).2 t ht).1
  rw [activity, if_pos hx, hrows, h.coefs, List.map_map]
  simp only [Function.comp_def, lhs_collect]

theorem Records.objectiveValue_eq (h : p.Records l) (hclean : p.Clean) {x : List Rat} (hx : x.length = p.numColumns) :
    p.objectiveValue x = .ok (lhs (entries x) l.terms + l.constant) := by
  rw [BackendAnswer.objectiveValue_eq (hclean.wellFormed h.aligned) hx, objectiveAt, h.terms, h.constant, lhs_collect]

/-! ## Violations -/

theorem greaterOf_eq_max (a b : ExtRat) : greaterOf a b = Bound.max a b := by
  have hself : ∀ c : ExtRat, Bound.beq c c = true := fun c => beq_self_eq_true c
  rw [greaterOf, hself, hself]
  rfl

theorem foldl_greaterOf_le_iff {c : ExtRat} : ∀ {bs : List ExtRat} {b : ExtRat},
    le (bs.foldl greaterOf b) c = true ↔ le b c = true ∧ ∀ a ∈ bs, le a c = true
  | [], b => by simp
  | a :: bs, b => by
    rw [List.foldl_cons, foldl_greaterOf_le_iff, greaterOf_eq_max, ExtRat.max_le_iff, List.forall_mem_cons, and_assoc]

/-- The largest of some bounds. -/
theorem exists_largest {bs : List ExtRat} (h : bs ≠ []) :
    ∃ b, largest bs = .ok b ∧ ∀ c, le b c = true ↔ ∀ a ∈ bs, le a c = true := by
  cases bs with
  | nil => exact absurd rfl h
  | cons b bs => exact ⟨_, rfl, fun c => by rw [foldl_greaterOf_le_iff, List.forall_mem_cons]⟩

theorem pairUp_map {α β γ : Type} (f : α → β) (g : α → γ) (xs : List α) :
    pairUp (xs.map f) (xs.map g) = .ok (xs.map fun x => (f x, g x)) := by
  unfold pairUp
  rw [if_pos (by rw [List.length_map, List.length_map]), List.zip_map']

/-- **The largest violations** of some bounds below and above are the least slack with which all values lie within them. -/
theorem exists_worstViolation {α : Type} (lower upper : α → ExtRat) (value : α → Rat) {rs : List α} (h : rs ≠ []) :
    ∃ below above, worstViolation (rs.map lower) (rs.map upper) (rs.map value) = .ok (below, above) ∧
      ∀ t, le below (finite t) = true ∧ le above (finite t) = true ↔ ∀ r ∈ rs, Within t (lower r) (upper r) (value r) := by
  have hne : ∀ f : α → ExtRat, rs.map f ≠ [] := fun f => mt List.map_eq_nil_iff.mp h
  obtain ⟨below, hbelow, hbelowLe⟩ := exists_largest (hne fun r => Scalar.shift (lower r) (value r))
  obtain ⟨above, habove, haboveLe⟩ := exists_largest (hne fun r => Scalar.excess (value r) (upper r))
  refine ⟨below, above, ?_, fun t => ?_⟩
  · unfold worstViolation
    rw [pairUp_map, pairUp_map]
    simp only [bind, Except.bind, List.map_map, Function.comp_def]
    rw [hbelow, habove]
    rfl
  · rw [hbelowLe, haboveLe, List.forall_mem_map, List.forall_mem_map, ← forall₂_and]
    refine forall₂_congr fun r _ => ?_
    rw [Run.excess_le_iff, exact_shift, Run.shift_le_iff]
    rfl

/-- The larger one of a number and two violations. -/
theorem max_max_le_iff {v below above c : ExtRat} : le (Bound.max (Bound.max v below) above) c = true ↔
    le v c = true ∧ le below c = true ∧ le above c = true := by
  rw [ExtRat.max_le_iff, ExtRat.max_le_iff, and_assoc]

/-- The largest violation of the bounds of columns. -/
theorem exists_columnViolation {columns : List (Column ExtRat)} {x : List Rat} (hx : x.length = columns.length)
    (hne : columns ≠ []) : ∃ below above, worstViolation (columns.map (·.lower)) (columns.map (·.upper)) x = .ok (below, above) ∧
      ∀ t, le below (finite t) = true ∧ le above (finite t) = true ↔
        ∀ q ∈ columns.zip x, Within t q.1.lower q.1.upper q.2 := by
  have hmap : ∀ f : Column ExtRat → ExtRat, columns.map f = (columns.zip x).map fun q => f q.1 := by
    intro f
    conv_lhs => rw [← List.map_fst_zip hx.ge, List.map_map]
    rfl
  have hvalues : x = (columns.zip x).map (·.2) := (List.map_snd_zip hx.le).symm
  have hzip : columns.zip x ≠ [] := by
    intro hnil
    have hlength := congrArg List.length hnil
    rw [List.length_zip, hx, Nat.min_self] at hlength
    exact hne (List.length_eq_zero_iff.mp hlength)
  obtain ⟨below, above, hworst, hle⟩ := exists_worstViolation (fun q : Column ExtRat × Rat => q.1.lower)
    (fun q => q.1.upper) (fun q => q.2) hzip
  refine ⟨below, above, ?_, hle⟩
  rw [hmap, hmap]
  rw [← hvalues] at hworst
  exact hworst

/-- **The largest violation** is the least slack with which all rows and columns lie within their bounds. -/
theorem Records.exists_maxViolation (h : p.Records l) (hclean : p.Clean) {x : List Rat} (hx : x.length = p.numColumns) :
    ∃ v, p.maxViolation x = .ok v ∧ ∀ t, 0 ≤ t → (le v (finite t) = true ↔
      (∀ r ∈ l.rows, Within t r.lower r.upper (lhs (entries x) r.terms)) ∧
        ∀ q ∈ p.columns.zip x, Within t q.1.lower q.1.upper q.2) := by
  -- the columns are looked at last, whatever the rows gave
  have hcolumns : ∀ v : ExtRat, ∃ w, (if p.numColumns = 0 then pure v else do
      let worst ← worstViolation (p.columns.map (·.lower)) (p.columns.map (·.upper)) x
      pure (Bound.max (Bound.max v worst.1) worst.2) : Except Fault ExtRat) = .ok w ∧
        ∀ c, le w (finite c) = true ↔ le v (finite c) = true ∧ ∀ q ∈ p.columns.zip x, Within c q.1.lower q.1.upper q.2 := by
    intro v
    by_cases hnone : p.numColumns = 0
    · rw [if_pos hnone, List.length_eq_zero_iff.mp hnone]
      exact ⟨v, rfl, fun c => by simp⟩
    · obtain ⟨below, above, hworst, hle⟩ := exists_columnViolation hx fun hnil => hnone (by rw [numColumns, hnil]; rfl)
      rw [if_neg hnone, hworst]
      exact ⟨_, rfl, fun c => by rw [max_max_le_iff, hle]⟩
  have hnum : p.numRows = l.rows.length := by rw [numRows, h.coefs, List.length_map]
  unfold maxViolation
  dsimp only
  by_cases hnone : p.numRows = 0
  · obtain ⟨w, hw, hle⟩ := hcolumns (finite 0)
    rw [if_pos hnone]
    refine ⟨w, hw, fun t ht => ?_⟩
    rw [hle, List.length_eq_zero_iff.mp (hnum.symm.trans hnone)]
    exact and_congr_left fun _ => iff_of_true (finite_le_finite.mpr ht) (List.forall_mem_nil _)
  · have hne : l.rows ≠ [] := fun hnil => hnone (by rw [hnum, hnil]; rfl)
    obtain ⟨below, above, hworst, hrows⟩ := exists_worstViolation (fun r : GivenRow => r.lower) (fun r => r.upper)
      (fun r => lhs (entries x) r.terms) hne
    obtain ⟨w, hw, hle⟩ := hcolumns (Bound.max (Bound.max (finite 0) below) above)
    rw [if_neg hnone, h.activity_eq hclean hx, h.lower, h.upper]
    simp only [bind, Except.bind, hworst]
    refine ⟨w, hw, fun t ht => ?_⟩
    rw [hle, max_max_le_iff, hrows, and_iff_right (finite_le_finite.mpr ht)]

/-- **A program shows what it was given.** After any calls that succeeded, the values of the rows that were not removed and of the
objective are the sums over the pairs as they were given, the bounds of the rows are those that were given, and the largest violation at a
point is at most `t` if and only if all rows and columns lie within their bounds up to `t`; a bound that is infinite in its
direction is never violated. -/
theorem views_faithful {history : List (Call Rat ExtRat)} {name : Option String}
    (hrun : (history.forM Call.edit).run (empty name) = (.ok ⟨⟩, p)) {x : List Rat} (hx : x.length = p.numColumns) :
    let l := history.foldl Ledger.enter {}
    p.rows.lower = l.rows.map (·.lower) ∧ p.rows.upper = l.rows.map (·.upper) ∧
    p.activity x = .ok (l.rows.map fun r => (r.terms.map fun t => t.2 * entries x t.1).sum) ∧
    p.objectiveValue x = .ok ((l.terms.map fun t => t.2 * entries x t.1).sum + l.constant) ∧
    ∃ v, p.maxViolation x = .ok v ∧ ∀ t, 0 ≤ t → (le v (finite t) = true ↔
      (∀ r ∈ l.rows, Within t r.lower r.upper (r.terms.map fun s => s.2 * entries x s.1).sum) ∧
        ∀ q ∈ p.columns.zip x, Within t q.1.lower q.1.upper q.2) := by
  obtain ⟨hclean, hrecords⟩ := records_of_run hrun
  exact ⟨hrecords.lower, hrecords.upper, hrecords.activity_eq hclean hx, hrecords.objectiveValue_eq hclean hx,
    hrecords.exists_maxViolation hclean hx⟩

/-- Two rows, of which the first one is removed, with a column that comes later, a column that is given twice and one that cancels. -/
def twoRows : List (Call Rat ExtRat) :=
  [.addColumn (some (.ok (.finite 0))) none false (some "x"), .addRow [(.ok 0, .ok 1)] none none none,
    .addColumn none (some (.ok (.finite 4))) true (some "y"),
    .addRow [(.ok 1, .ok 2), (.ok 0, .ok 7), (.ok 1, .ok 1), (.ok 0, .ok (-7))] none (some (.ok (.finite 13))) none,
    .removeRows [0], .setObjective [(.ok 0, .ok 1), (.ok 0, .ok 1)] (.ok 3) (some .maximize)]

theorem views_faithful_two : ∃ p : LinearProgram Rat ExtRat, (twoRows.forM Call.edit).run (empty none) = (.ok ⟨⟩, p)
    ∧ p.rows.upper = [.finite 13] ∧ p.activity [3, 5] = .ok [15] ∧ p.objectiveValue [3, 5] = .ok 9
    ∧ ∃ v, p.maxViolation [3, 5] = .ok v ∧ ∀ t, 0 ≤ t → (le v (finite t) = true ↔ 2 ≤ t) := by
  obtain ⟨p, hrun, hcolumns⟩ : ∃ p : LinearProgram Rat ExtRat, (twoRows.forM Call.edit).run (empty none) = (.ok ⟨⟩, p)
      ∧ p.columns = [{ lower := .finite 0, upper := .posInf, integer := false, name := "x" },
        { lower := .negInf, upper := .finite 4, integer := true, name := "y" }] := ⟨_, rfl, rfl⟩
  have hx : ([3, 5] : List Rat).length = p.numColumns := by rw [numColumns, hcolumns]; rfl
  have hledger : twoRows.foldl Ledger.enter {}
      = ⟨[⟨[(1, 2), (0, 7), (1, 1), (0, -7)], .negInf, .finite 13⟩], [(0, 1), (0, 1)], 3⟩ := rfl
  obtain ⟨-, hupper, hactivity, hobjective, v, hv, hviolation⟩ := views_faithful hrun hx
  rw [hledger] at hupper hactivity hobjective
  rw [hledger, hcolumns] at hviolation
  have h3 : entries [3, 5] 0 = 3 := rfl
  have h5 : entries [3, 5] 1 = 5 := rfl
  refine ⟨p, hrun, hupper, hactivity.trans ?_, hobjective.trans ?_, v, hv, fun t ht => (hviolation t ht).trans ?_⟩
  · simp only [List.map_cons, List.map_nil, List.sum_cons, List.sum_nil, h3, h5]
    norm_num
  · simp only [List.map_cons, List.map_nil, List.sum_cons, List.sum_nil, h3]
    norm_num
  · simp only [List.map_cons, List.map_nil, List.sum_cons, List.sum_nil, h3, h5, List.zip_cons_cons, List.zip_nil_left,
      List.forall_mem_cons, List.not_mem_nil, false_imp_iff, implies_true, and_true, within_iff, negInf_le, le_posInf, finite_le_finite, true_and]
    constructor
    · rintro ⟨hrow, -⟩
      linarith
    · intro h
      refine ⟨?_, ?_, ?_⟩ <;> linarith

end LinearProgram

end RobustLP
