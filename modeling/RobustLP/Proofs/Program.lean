import RobustLP.Program.Shelf
import RobustLP.Proofs.Entries
import RobustLP.Proofs.Value

/-!
# Points of a program, and what edits do to them

A point satisfies a program, up to a slack, when every column lies within its bounds and every row between its own
(`LinearProgram.Satisfies`); the slack of a row, or of the bounds of a column, may depend on the columns that are concerned.
Each edit of a program is described by the program that it leaves; what this means for the points follows.
-/

namespace RobustLP

open ExtRat

/-! ## Values of rows -/

/-- The value of the coefficients of a row. -/
def lhs (x : Nat → Rat) (row : List (Nat × Rat)) : Rat := (row.map fun t => t.2 * x t.1).sum

theorem lhs_congr {x y : Nat → Rat} {row : List (Nat × Rat)} (h : ∀ t ∈ row, x t.1 = y t.1) : lhs x row = lhs y row := by
  unfold lhs
  rw [List.map_congr_left fun t ht => by rw [h t ht]]

theorem lhs_addCoef (x : Nat → Rat) {row : List (Nat × Rat)} (h : (keys row).Nodup) (t : Nat × Rat) :
    lhs x (addCoef row t) = lhs x row + t.2 * x t.1 := by
  unfold lhs
  rw [addCoef_eq_upsert, sum_upsert _ h]
  cases lookup? t.1 row with
  | none => simp
  | some a =>
    dsimp only [Option.map_some, Option.getD_some]
    ring

theorem lhs_foldl_addCoef (x : Nat → Rat) (terms : List (Nat × Rat)) : ∀ {row : List (Nat × Rat)}, (keys row).Nodup →
    lhs x (terms.foldl addCoef row) = lhs x row + lhs x terms := by
  induction terms with
  | nil => exact fun h => by simp [lhs]
  | cons t terms ih =>
    intro row h
    have hnext : (keys (addCoef row t)).Nodup := by
      rw [addCoef_eq_upsert]
      exact nodup_upsert h
    rw [List.foldl_cons, ih hnext, lhs_addCoef x h]
    simp only [lhs, List.map_cons, List.sum_cons]
    ring

/-- **Collecting the coefficients of a row keeps its value.** -/
theorem lhs_collect (x : Nat → Rat) (terms : List (Nat × Rat)) : lhs x (collect terms) = lhs x terms := by
  have hnil : (keys ([] : List (Nat × Rat))).Nodup := List.nodup_nil
  have h := lhs_foldl_addCoef x terms hnil
  unfold collect
  rw [lhs, MixedForm.sum_filter_isZero, ← lhs, h]
  simp [lhs]

section Generic

variable {K B : Type} [Scalar K B]

theorem mem_keys_foldl_addCoef (terms : List (Nat × K)) : ∀ {row : List (Nat × K)} {j : Nat},
    j ∈ keys (terms.foldl addCoef row) → j ∈ keys row ∨ j ∈ keys terms := by
  induction terms with
  | nil => exact fun h => .inl h
  | cons t terms ih =>
    intro row j h
    rcases ih h with h | h
    · rw [addCoef_eq_upsert, mem_keys_upsert] at h
      rcases h with rfl | h
      · exact .inr List.mem_cons_self
      · exact .inl h
    · exact .inr (List.mem_cons_of_mem _ h)

theorem nodup_keys_foldl_addCoef (terms : List (Nat × K)) : ∀ {row : List (Nat × K)}, (keys row).Nodup →
    (keys (terms.foldl addCoef row)).Nodup := by
  induction terms with
  | nil => exact fun h => h
  | cons t terms ih =>
    intro row h
    rw [List.foldl_cons]
    refine ih ?_
    rw [addCoef_eq_upsert]
    exact nodup_upsert h

/-- A collected row has no other columns. -/
theorem mem_keys_of_mem_collect {terms : List (Nat × K)} {t : Nat × K} (h : t ∈ collect terms) : t.1 ∈ keys terms := by
  have hmem := mem_keys_foldl_addCoef terms (mem_keys (List.mem_filter.mp h).1)
  exact hmem.resolve_left List.not_mem_nil

/-- A collected row has one coefficient for each of its columns. -/
theorem nodup_keys_collect (terms : List (Nat × K)) : (keys (collect terms)).Nodup := by
  have hnil : (keys ([] : List (Nat × K))).Nodup := List.nodup_nil
  exact (nodup_keys_foldl_addCoef terms hnil).sublist (List.filter_sublist.map _)

end Generic

/-! ## Tables of rows -/

namespace RowTable

/-- The columns of a table have the same length. -/
structure Aligned {K B : Type} (t : RowTable K B) : Prop where
  lower : t.lower.length = t.coefs.length
  upper : t.upper.length = t.coefs.length
  names : t.names.length = t.coefs.length

/-- The rows with their bounds. -/
def entries (t : RowTable Rat ExtRat) : List (List (Nat × Rat) × ExtRat × ExtRat) := t.coefs.zip (t.lower.zip t.upper)

/-- Every row lies between its bounds, up to a slack. -/
def Holds (d : List Nat → Rat) (x : Nat → Rat) (t : RowTable Rat ExtRat) : Prop :=
  ∀ q ∈ t.entries, Within (d (keys q.1)) q.2.1 q.2.2 (lhs x q.1)

theorem mem_entries_iff {t : RowTable Rat ExtRat} {q : List (Nat × Rat) × ExtRat × ExtRat} : q ∈ t.entries ↔
    ∃ i : Nat, t.coefs[i]? = some q.1 ∧ t.lower[i]? = some q.2.1 ∧ t.upper[i]? = some q.2.2 := by
  rw [entries, List.mem_iff_getElem?]
  refine exists_congr fun i => ?_
  rw [List.getElem?_zip_eq_some, List.getElem?_zip_eq_some]

/-- Every row lies between its bounds, position by position. -/
theorem holds_iff {t : RowTable Rat ExtRat} {d : List Nat → Rat} {x : Nat → Rat} :
    t.Holds d x ↔ ∀ (i : Nat) row lower upper, t.coefs[i]? = some row → t.lower[i]? = some lower →
      t.upper[i]? = some upper → Within (d (keys row)) lower upper (lhs x row) := by
  constructor
  · intro h i row lower upper hrow hlower hupper
    exact h (row, lower, upper) (mem_entries_iff.mpr ⟨i, hrow, hlower, hupper⟩)
  · intro h q hq
    obtain ⟨i, hrow, hlower, hupper⟩ := mem_entries_iff.mp hq
    exact h i q.1 q.2.1 q.2.2 hrow hlower hupper

/-- A table with one more row. -/
def push {K B : Type} (t : RowTable K B) (row : List (Nat × K)) (lower upper : B) (name : Option String) : RowTable K B :=
  { coefs := t.coefs ++ [row], lower := t.lower ++ [lower], upper := t.upper ++ [upper]
    names := t.names ++ [name.getD s!"_row{t.names.length}"] }

theorem Aligned.push {K B : Type} {t : RowTable K B} (h : t.Aligned) (row : List (Nat × K)) (lower upper : B)
    (name : Option String) : (t.push row lower upper name).Aligned where
  lower := by simp [RowTable.push, h.lower]
  upper := by simp [RowTable.push, h.upper]
  names := by simp [RowTable.push, h.names]

theorem holds_push {t : RowTable Rat ExtRat} (h : t.Aligned) {d : List Nat → Rat} {x : Nat → Rat}
    {row : List (Nat × Rat)} {lower upper : ExtRat} {name : Option String} :
    (t.push row lower upper name).Holds d x ↔ t.Holds d x ∧ Within (d (keys row)) lower upper (lhs x row) := by
  have hentries : (t.push row lower upper name).entries = t.entries ++ [(row, lower, upper)] := by
    unfold entries push
    rw [List.zip_append (h.lower.trans h.upper.symm), List.zip_append (by simp [h.lower, h.upper])]
    rfl
  unfold Holds
  rw [hentries]
  simp only [List.mem_append, List.mem_singleton, or_imp, forall_and, forall_eq]

/-- The rows at some positions. -/
def keep {K B : Type} (t : RowTable K B) (positions : List Nat) : RowTable K B :=
  { coefs := positions.filterMap (t.coefs[·]?), lower := positions.filterMap (t.lower[·]?)
    upper := positions.filterMap (t.upper[·]?), names := positions.filterMap (t.names[·]?) }

/-- The first columns at some positions, and the other ones as they are. -/
def keepFirst {K B : Type} (t : RowTable K B) (count : Nat) (positions : List Nat) : RowTable K B where
  coefs := if 0 < count then positions.filterMap (t.coefs[·]?) else t.coefs
  lower := if 1 < count then positions.filterMap (t.lower[·]?) else t.lower
  upper := if 2 < count then positions.filterMap (t.upper[·]?) else t.upper
  names := if 3 < count then positions.filterMap (t.names[·]?) else t.names

/-- In a table of which the columns have the same length, all of them have an entry at the position of a row. -/
theorem Aligned.reach_eq {K B : Type} {t : RowTable K B} (h : t.Aligned) {positions : List Nat}
    (hin : ∀ i ∈ positions, decide (i < t.coefs.length) = true) : t.reach positions = 4 := by
  have hall : positions.all (· < t.coefs.length) = true := List.all_eq_true.mpr hin
  simp [reach, h.lower, h.upper, h.names, hall]

theorem length_filterMap_getElem? {α : Type} {xs : List α} : ∀ {positions : List Nat},
    (∀ i ∈ positions, i < xs.length) → (positions.filterMap (xs[·]?)).length = positions.length
  | [], _ => rfl
  | i :: positions, h => by
    rw [List.filterMap_cons, List.getElem?_eq_getElem (h i List.mem_cons_self)]
    have ih := length_filterMap_getElem? fun j hj => h j (List.mem_cons_of_mem _ hj)
    simp [ih]

theorem zip_filterMap_getElem? {α β : Type} {xs : List α} {ys : List β} (hlen : xs.length = ys.length) :
    ∀ {positions : List Nat}, (∀ i ∈ positions, i < xs.length) →
      (positions.filterMap (xs[·]?)).zip (positions.filterMap (ys[·]?)) = positions.filterMap ((xs.zip ys)[·]?)
  | [], _ => rfl
  | i :: positions, h => by
    have hx := h i List.mem_cons_self
    have hy : i < ys.length := hlen ▸ hx
    have hz : i < (xs.zip ys).length := by rw [List.length_zip, ← hlen, Nat.min_self]; exact hx
    have ih := zip_filterMap_getElem? hlen fun j hj => h j (List.mem_cons_of_mem _ hj)
    simp only [List.filterMap_cons, List.getElem?_eq_getElem hx, List.getElem?_eq_getElem hy, List.getElem?_eq_getElem hz,
      List.zip_cons_cons, List.getElem_zip, ih]

theorem Aligned.keep {K B : Type} {t : RowTable K B} (h : t.Aligned) {positions : List Nat}
    (hin : ∀ i ∈ positions, i < t.coefs.length) : (t.keep positions).Aligned := by
  have hlower := length_filterMap_getElem? fun i hi => h.lower ▸ hin i hi
  have hupper := length_filterMap_getElem? fun i hi => h.upper ▸ hin i hi
  have hnames := length_filterMap_getElem? fun i hi => h.names ▸ hin i hi
  have hcoefs := length_filterMap_getElem? hin
  exact ⟨hlower.trans hcoefs.symm, hupper.trans hcoefs.symm, hnames.trans hcoefs.symm⟩

/-- The rows at some positions keep their bounds. -/
theorem entries_keep {t : RowTable Rat ExtRat} (h : t.Aligned) {positions : List Nat}
    (hin : ∀ i ∈ positions, i < t.coefs.length) : (t.keep positions).entries = positions.filterMap (t.entries[·]?) := by
  have hbounds : t.coefs.length = (t.lower.zip t.upper).length := by simp [h.lower, h.upper]
  unfold entries keep
  rw [zip_filterMap_getElem? (h.lower.trans h.upper.symm) fun i hi => h.lower ▸ hin i hi,
    zip_filterMap_getElem? hbounds hin]

theorem holds_keep {t : RowTable Rat ExtRat} (h : t.Aligned) {positions : List Nat}
    (hin : ∀ i ∈ positions, i < t.coefs.length) {d : List Nat → Rat} {x : Nat → Rat} : (t.keep positions).Holds d x ↔
      ∀ i ∈ positions, ∀ row lower upper, t.coefs[i]? = some row → t.lower[i]? = some lower →
        t.upper[i]? = some upper → Within (d (keys row)) lower upper (lhs x row) := by
  unfold Holds
  rw [entries_keep h hin]
  constructor
  · intro hall i hi row lower upper hrow hlower hupper
    refine hall (row, lower, upper) (List.mem_filterMap.mpr ⟨i, hi, ?_⟩)
    exact List.getElem?_zip_eq_some.mpr ⟨hrow, List.getElem?_zip_eq_some.mpr ⟨hlower, hupper⟩⟩
  · intro hall q hq
    obtain ⟨i, hi, hget⟩ := List.mem_filterMap.mp hq
    obtain ⟨hrow, hbounds⟩ := List.getElem?_zip_eq_some.mp hget
    obtain ⟨hlower, hupper⟩ := List.getElem?_zip_eq_some.mp hbounds
    exact hall i hi q.1 q.2.1 q.2.2 hrow hlower hupper

end RowTable

/-! ## Edits -/

theorem getElem?_snoc_iff {α : Type} {xs : List α} {a b : α} {j : Nat} :
    (xs ++ [a])[j]? = some b ↔ xs[j]? = some b ∨ j = xs.length ∧ b = a := by
  rcases Nat.lt_trichotomy j xs.length with h | rfl | h
  · rw [List.getElem?_append_left h]
    exact ⟨.inl, fun hb => hb.resolve_right fun hb => absurd hb.1 h.ne⟩
  · simp [eq_comm]
  · rw [List.getElem?_eq_none (by simpa using h), List.getElem?_eq_none h.le]
    simp [h.ne']

namespace LinearProgram

variable {p : LinearProgram Rat ExtRat} {d : List Nat → Rat} {x : Nat → Rat}

/-- **A point of a program, up to a slack:** every column lies within its bounds, and every row between its own. -/
structure Satisfies (d : List Nat → Rat) (x : Nat → Rat) (p : LinearProgram Rat ExtRat) : Prop where
  rows : p.rows.Holds d x
  columns : ∀ j c, p.columns[j]? = some c → Within (d [j]) c.lower c.upper (x j)

theorem Satisfies.mono {d' : List Nat → Rat} (hd : ∀ js, d js ≤ d' js) (h : p.Satisfies d x) : p.Satisfies d' x :=
  ⟨fun q hq => (h.rows q hq).mono (hd _), fun j c hc => (h.columns j c hc).mono (hd _)⟩

/-- The value of the objective. -/
def objectiveAt (x : Nat → Rat) (p : LinearProgram Rat ExtRat) : Rat := lhs x p.objective.terms + p.objective.constant

theorem run_addFreeColumn (integer : Bool) (name : Option String) :
    (addColumn none none integer name).run p = (.ok p.numColumns, p.withColumn negInf posInf integer name) := rfl

theorem numColumns_withColumn {K B : Type} {p : LinearProgram K B} (lower upper : B) (integer : Bool)
    (name : Option String) : (p.withColumn lower upper integer name).numColumns = p.numColumns + 1 := List.length_append

/-- A new column only has to lie within its bounds. -/
theorem satisfies_withColumn {lower upper : ExtRat} {integer : Bool} {name : Option String} :
    (p.withColumn lower upper integer name).Satisfies d x
      ↔ p.Satisfies d x ∧ Within (d [p.numColumns]) lower upper (x p.numColumns) := by
  constructor
  · rintro ⟨hrows, hcolumns⟩
    have hnew := hcolumns p.numColumns _ (getElem?_snoc_iff.mpr (.inr ⟨rfl, rfl⟩))
    exact ⟨⟨hrows, fun j c hc => hcolumns j c (getElem?_snoc_iff.mpr (.inl hc))⟩, hnew⟩
  · rintro ⟨⟨hrows, hcolumns⟩, hnew⟩
    refine ⟨hrows, fun j c hc => ?_⟩
    rcases getElem?_snoc_iff.mp hc with hc | ⟨rfl, rfl⟩
    · exact hcolumns j c hc
    · exact hnew

/-- A new row only has to lie between its bounds. -/
theorem satisfies_push (h : p.rows.Aligned) {row : List (Nat × Rat)} {lower upper : ExtRat} {name : Option String} :
    ({ p with rows := p.rows.push row lower upper name } : LinearProgram Rat ExtRat).Satisfies d x
      ↔ p.Satisfies d x ∧ Within (d (keys row)) lower upper (lhs x row) := by
  constructor
  · rintro ⟨hrows, hcolumns⟩
    obtain ⟨hold, hnew⟩ := (RowTable.holds_push h).mp hrows
    exact ⟨⟨hold, hcolumns⟩, hnew⟩
  · rintro ⟨⟨hrows, hcolumns⟩, hnew⟩
    exact ⟨(RowTable.holds_push h).mpr ⟨hrows, hnew⟩, hcolumns⟩

section Generic

variable {K B : Type}

/-- Given numbers are read as they are. -/
theorem readTerms_given {n : Nat} {terms : List (Nat × K)} (h : ∀ t ∈ terms, t.1 < n) :
    readTerms n (given terms) = .ok terms := by
  unfold readTerms given
  rw [List.mapM_map]
  refine (mapM_ok_map (g := id) fun t ht => ?_).trans (by rw [List.map_id])
  have hin : (0 : Int) ≤ (t.1 : Int) ∧ (t.1 : Int) < n := ⟨Int.natCast_nonneg _, by exact_mod_cast h t ht⟩
  simp only [bind, Except.bind, Function.comp_apply, if_pos hin]
  rfl

/-- What is read belongs to columns that exist. -/
theorem lt_of_readTerms {n : Nat} {terms : List (GivenTerm K)} {coefs : List (Nat × K)}
    (h : readTerms n terms = .ok coefs) : ∀ t ∈ coefs, t.1 < n := by
  intro t ht
  obtain ⟨g, -, hg⟩ := exists_left_of_forall₂ (mapM_eq_ok_iff.mp h) ht
  obtain ⟨j, -, hj⟩ := bind_eq_ok.mp hg
  split at hj
  next hin =>
    obtain ⟨c, -, hc⟩ := bind_eq_ok.mp hj
    cases hc
    simp only
    omega
  next => cases hj

theorem run_changeRows (f : RowTable K B → RowTable K B) (p : LinearProgram K B) :
    (changeRows f).run p = (.ok ⟨⟩, { p with rows := f p.rows }) := rfl

/-- Entries are picked if there is one at each position. -/
theorem run_pick {α : Type} (xs : List α) (p : LinearProgram K B) : ∀ positions : List Nat, (pick positions xs).run p
    = (if positions.all (· < xs.length) then .ok (positions.filterMap (xs[·]?)) else .error (.fault .noIndex), p)
  | [] => rfl
  | i :: positions => by
    have ih := run_pick xs p positions
    unfold pick at ih ⊢
    rw [List.mapM_cons, List.all_cons, List.filterMap_cons]
    by_cases hi : i < xs.length
    · rw [List.getElem?_eq_getElem hi, Edit.run_bind_of_ok (Edit.run_pure _ p)]
      cases hall : positions.all (· < xs.length) with
      | true =>
        rw [hall] at ih
        rw [Edit.run_bind_of_ok ih]
        simp [hi]
      | false =>
        rw [hall] at ih
        rw [Edit.run_bind_of_error ih]
        simp
    · rw [List.getElem?_eq_none (not_lt.mp hi)]
      simp only [hi, decide_false, Bool.false_and, Bool.false_eq_true, if_false]
      exact Edit.run_bind_of_error (Edit.run_throw _ p)

theorem lt_of_mem_kept {n : Nat} {drop : List Int} {i : Nat} (h : i ∈ kept n drop) : i < n :=
  List.mem_range.mp (List.mem_filter.mp h).1

theorem all_kept {n : Nat} (drop : List Int) : (kept n drop).all (· < n) = true :=
  List.all_eq_true.mpr fun _ hi => decide_eq_true (lt_of_mem_kept hi)

/-- The coefficients of the rows that stay are always gone through. -/
theorem reach_kept_pos (p : LinearProgram K B) (drop : List Int) : 0 < p.rows.reach (kept p.numRows drop) := by
  have hall : (kept p.numRows drop).all (· < p.rows.coefs.length) = true := all_kept drop
  simp [RowTable.reach, hall]

/-- In a table of which the columns have the same length, all of them are gone through. -/
theorem reach_kept {p : LinearProgram K B} (h : p.rows.Aligned) (drop : List Int) :
    p.rows.reach (kept p.numRows drop) = 4 := h.reach_eq (List.all_eq_true.mp (all_kept drop))

/-- **Removing rows** goes through the columns of their table one by one. It stops at a column that lacks an entry, and leaves
those behind it as they are. -/
theorem run_removeRows_eq (drop : List Int) (p : LinearProgram K B) : (removeRows drop).run p
    = (if p.rows.reach (kept p.numRows drop) = 4 then .ok ⟨⟩ else .error (.fault .noIndex),
      { p with rows := p.rows.keepFirst (p.rows.reach (kept p.numRows drop)) (kept p.numRows drop) }) := by
  have hcoefs : (kept p.numRows drop).all (· < p.rows.coefs.length) = true := all_kept drop
  unfold removeRows RowTable.keepFirst RowTable.reach
  rw [Edit.run_bind_of_ok (Edit.run_get p), Edit.run_bind_of_ok (Edit.run_get p)]
  simp only [Edit.run_bind, run_pick, run_changeRows, hcoefs, List.takeWhile_cons, if_true]
  cases (kept p.numRows drop).all (· < p.rows.lower.length) with
  | false => rfl
  | true =>
    cases (kept p.numRows drop).all (· < p.rows.upper.length) with
    | false => rfl
    | true =>
      cases (kept p.numRows drop).all (· < p.rows.names.length) with
      | false => rfl
      | true => rfl

/-- **Removing rows** leaves the other ones, with their bounds and names. -/
theorem run_removeRows {p : LinearProgram K B} (h : p.rows.Aligned) (drop : List Int) :
    (removeRows drop).run p = (.ok ⟨⟩, { p with rows := p.rows.keep (kept p.numRows drop) }) := by
  rw [run_removeRows_eq, reach_kept h]
  rfl

theorem run_setObjective [Scalar K B] {p : LinearProgram K B} {terms : List (Nat × K)} (h : ∀ t ∈ terms, t.1 < p.numColumns)
    (c : K) (sense : Sense) : (setObjective (given terms) (.ok c) (some sense)).run p
      = (.ok ⟨⟩, { p with objective := { terms := collect terms, constant := c, sense } }) := by
  unfold setObjective
  rw [Edit.run_bind_of_ok (Edit.run_get p), readTerms_given h]
  rfl

end Generic

/-! ## Integers -/

/-- A column of integers. -/
def IsInteger (p : LinearProgram Rat ExtRat) (j : Nat) : Prop := ∃ c, p.columns[j]? = some c ∧ c.integer = true

/-- Two programs have the same columns of integers. -/
def SameIntegers (p p' : LinearProgram Rat ExtRat) : Prop := ∀ j, p'.IsInteger j ↔ p.IsInteger j

theorem SameIntegers.refl (p : LinearProgram Rat ExtRat) : p.SameIntegers p := fun _ => Iff.rfl

theorem SameIntegers.trans {p p' p'' : LinearProgram Rat ExtRat} (h : p.SameIntegers p') (h' : p'.SameIntegers p'') :
    p.SameIntegers p'' := fun j => (h' j).trans (h j)

/-- Columns that are no integers may be added. -/
theorem SameIntegers.of_append {p p' : LinearProgram Rat ExtRat} {extra : List (Column ExtRat)}
    (hextra : ∀ c ∈ extra, c.integer = false) (h : p'.columns = p.columns ++ extra) : p.SameIntegers p' := by
  intro j
  unfold IsInteger
  rw [h]
  by_cases hj : j < p.columns.length
  · rw [List.getElem?_append_left hj]
  · rw [List.getElem?_append_right (not_lt.mp hj), List.getElem?_eq_none (not_lt.mp hj)]
    refine iff_of_false (fun ⟨c, hc, hinteger⟩ => ?_) nofun
    rw [hextra c (List.mem_of_getElem? hc)] at hinteger
    cases hinteger

/-- The bounds of a column may change. -/
theorem SameIntegers.of_set {p p' : LinearProgram Rat ExtRat} {i : Nat} {c c' : Column ExtRat} (hc : p.columns[i]? = some c)
    (h : p'.columns = p.columns.set i c') (hinteger : c'.integer = c.integer) : p.SameIntegers p' := by
  intro j
  unfold IsInteger
  rw [h]
  by_cases hj : i = j
  · subst hj
    rw [List.getElem?_set_self (List.getElem?_eq_some_iff.mp hc).1, hc]
    simp only [Option.some.injEq, exists_eq_left', hinteger]
  · rw [List.getElem?_set_ne hj]

end LinearProgram

end RobustLP
