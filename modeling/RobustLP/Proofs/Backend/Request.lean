import RobustLP.Backend
import RobustLP.Proofs.Failure
import RobustLP.Proofs.Model.Realizations
import RobustLP.Proofs.Solve.Separate

/-!
# A program is handed over as the same problem

What a back end is handed says which numbers of the columns it admits (`BackendRequest.Admits`). For a well-formed program these
are the numbers that lie within the bounds of all rows and columns, and are integers where a column is one
(`admits_ofProgram_iff`), and the cost that is to be small orders them as the objective does in its sense (`cost_le_iff`).
A row goes over as an equality, as up to two upper bounds, or as it is; that this changes nothing is shown row by row
(`add_admits_iff`).
-/

namespace RobustLP

open ExtRat UncertaintySet

/-! ## Well-formed programs -/

namespace LinearProgram

/-- Coefficients of the first `n` columns, at most one for each. -/
def OverColumns (n : Nat) (row : List (Nat × Rat)) : Prop := (keys row).Nodup ∧ ∀ t ∈ row, t.1 < n

instance (n : Nat) (row : List (Nat × Rat)) : Decidable (OverColumns n row) :=
  inferInstanceAs (Decidable (_ ∧ ∀ t ∈ row, t.1 < n))

/-- A program as it is edited: no bounds without a row, and coefficients of columns that exist, at most one for each. -/
structure WellFormed (p : LinearProgram Rat ExtRat) : Prop where
  bounds : p.rows.lower.length ≤ p.rows.coefs.length
  rows : ∀ row ∈ p.rows.coefs, OverColumns p.numColumns row
  objective : OverColumns p.numColumns p.objective.terms

variable {p : LinearProgram Rat ExtRat}

theorem OverColumns.mono {n m : Nat} {row : List (Nat × Rat)} (hnm : n ≤ m) (h : OverColumns n row) : OverColumns m row :=
  ⟨h.1, fun t ht => (h.2 t ht).trans_le hnm⟩

/-- Without columns there are no coefficients. -/
theorem OverColumns.eq_nil {n : Nat} {row : List (Nat × Rat)} (h : OverColumns n row) (hn : n = 0) : row = [] := by
  by_contra hne
  obtain ⟨t, ht⟩ := List.exists_mem_of_ne_nil _ hne
  have hlt := h.2 t ht
  omega

theorem wellFormed_empty (name : Option String) : (empty name : LinearProgram Rat ExtRat).WellFormed :=
  ⟨le_refl 0, by simp [empty], List.nodup_nil, by simp [empty]⟩

theorem overColumns_collect {n : Nat} {terms : List (GivenTerm Rat)} {coefs : List (Nat × Rat)}
    (h : readTerms n terms = .ok coefs) : OverColumns n (collect coefs) := by
  refine ⟨nodup_keys_collect coefs, fun t ht => ?_⟩
  obtain ⟨s, hs, hst⟩ := List.mem_map.mp (mem_keys_of_mem_collect ht)
  exact hst ▸ lt_of_readTerms h s hs

/-! ### Edits keep it, also when they fail -/

theorem keeps_addColumn (lower upper : GivenBound ExtRat) (integer : Bool) (name : Option String) :
    Edit.Keeps (addColumn lower upper integer name : Edit (LinearProgram Rat ExtRat) Nat) WellFormed := by
  have hadd : ∀ (p : LinearProgram Rat ExtRat) (low high : ExtRat), p.WellFormed →
      (p.withColumn low high integer name).WellFormed := fun p low high h => by
    have hle : p.numColumns ≤ (p.withColumn low high integer name).numColumns := by
      rw [numColumns_withColumn]
      exact Nat.le_succ _
    exact ⟨h.bounds, fun row hrow => (h.rows row hrow).mono hle, h.objective.mono hle⟩
  unfold addColumn
  refine (Edit.steady_readBound _ lower).keeps.bind fun low => (Edit.steady_readBound _ upper).keeps.bind fun high => ?_
  exact Edit.steady_get.keeps.bind fun _ => fun p h => hadd p low high h

theorem keeps_addRow (terms : List (GivenTerm Rat)) (lower upper : GivenBound ExtRat) (name : Option String) :
    Edit.Keeps (addRow terms lower upper name : Edit (LinearProgram Rat ExtRat) Nat) WellFormed := by
  intro p h
  -- the new coefficients stand before any of the bounds is read
  have hpush : ∀ (coefs : List (Nat × Rat)) (low high : List ExtRat) (names : List String),
      readTerms p.numColumns terms = .ok coefs → low.length ≤ p.rows.lower.length + 1 →
      ({ p with rows := { coefs := p.rows.coefs ++ [collect coefs], lower := low, upper := high, names } } :
        LinearProgram Rat ExtRat).WellFormed := by
    intro coefs low high names hread hlength
    refine ⟨hlength.trans ?_, fun row hrow => ?_, h.objective⟩
    · simpa using h.bounds
    · rcases List.mem_append.mp hrow with hrow | hrow
      · exact h.rows row hrow
      · exact List.mem_singleton.mp hrow ▸ overColumns_collect hread
  have hsucc : (p.rows.lower.length : Nat) ≤ p.rows.lower.length + 1 := Nat.le_succ _
  unfold addRow
  rw [Edit.run_bind_of_ok (Edit.run_get p)]
  cases hread : readTerms p.numColumns terms with
  | error err => exact h
  | ok coefs =>
    -- where a bound cannot be read, the new row stands without it
    rcases lower with _ | _ | low
    case some.error => exact hpush coefs _ _ _ hread hsucc
    all_goals
      rcases upper with _ | _ | high <;> exact hpush coefs _ _ _ hread (by rw [List.length_append]; rfl)

theorem keeps_setObjective (terms : List (GivenTerm Rat)) (constant : Except Error Rat) (sense : Option Sense) :
    Edit.Keeps (setObjective terms constant sense : Edit (LinearProgram Rat ExtRat) Unit) WellFormed := by
  intro p h
  have hset : ∀ (coefs : List (Nat × Rat)) (o : Objective Rat), readTerms p.numColumns terms = .ok coefs →
      o.terms = collect coefs → ({ p with objective := o } : LinearProgram Rat ExtRat).WellFormed :=
    fun coefs o hread ho => ⟨h.bounds, h.rows, ho ▸ overColumns_collect hread⟩
  unfold setObjective
  rw [Edit.run_bind_of_ok (Edit.run_get p)]
  cases hread : readTerms p.numColumns terms with
  | error err => exact h
  | ok coefs =>
    cases constant with
    | error err => exact hset coefs _ hread rfl
    | ok c =>
      cases sense with
      | none => exact hset coefs _ hread rfl
      | some s => exact hset coefs _ hread rfl

end LinearProgram

/-! ## What a request admits -/

variable {p : LinearProgram Rat ExtRat} {v w : Nat → Rat}

/-- Numbers satisfy split rows: each upper bound holds, and each equality. -/
structure SplitRows.Admits (r : SplitRows Rat ExtRat) (v : Nat → Rat) : Prop where
  atMost : ∀ q ∈ r.atMost, le (finite (dot q.1 v)) q.2 = true
  equal : ∀ q ∈ r.equal, finite (dot q.1 v) = q.2

/-- Numbers satisfy rows that have two bounds. -/
def RangedRows.Admits (r : RangedRows Rat ExtRat) (v : Nat → Rat) : Prop :=
  ∀ q ∈ r.matrix.zip (r.lower.zip r.upper), Between q.2.1 q.2.2 (dot q.1 v)

/-- Numbers satisfy the rows of a request, and are integers where it asks for them. -/
def BackendRows.Admits (v : Nat → Rat) : BackendRows Rat ExtRat → Prop
  | .split rows => rows.Admits v
  | .ranged integrality rows =>
    (∀ r, rows = some r → r.Admits v) ∧ ∀ j, integrality[j]? = some true → ∃ z : Int, v j = z

/-- **Numbers of the columns that a request admits.** -/
structure BackendRequest.Admits (r : BackendRequest Rat ExtRat) (v : Nat → Rat) : Prop where
  bounds : ∀ j b, r.bounds[j]? = some b → Between b.1 b.2 (v j)
  rows : r.rows.Admits v

/-! ## Rows -/

/-- The value of a row with all its columns is that of its coefficients. -/
theorem dot_denseRow {n : Nat} {row : List (Nat × Rat)} (h : LinearProgram.OverColumns n row) (v : Nat → Rat) :
    dot (LinearProgram.denseRow n row) v = lhs v row := by
  have hform := dot_denseForm (f := { linear := row, constant := 0 }) h.1 h.2 v
  rwa [Form.value, add_zero, add_zero] at hform

/-- The rows of the matrix with their bounds hold if and only if the rows of the program do. -/
theorem forall_matrix_iff (h : p.WellFormed) : (∀ q ∈ p.matrix.zip (p.rows.lower.zip p.rows.upper),
    Between q.2.1 q.2.2 (dot q.1 v)) ↔ p.rows.Holds (fun _ => 0) v := by
  unfold LinearProgram.matrix RowTable.Holds RowTable.entries
  rw [List.zip_map_left, List.forall_mem_map]
  refine forall₂_congr fun q hq => ?_
  rw [within_zero, Prod.map_fst, Prod.map_snd, id, dot_denseRow (h.rows q.1 (List.of_mem_zip hq).1)]

namespace SplitRows

/-- The upper bounds that a row stands for say that it lies between its bounds. -/
theorem forall_bounding_iff {row : List Rat} {lower upper : ExtRat} :
    (∀ q ∈ bounding row lower upper, le (finite (dot q.1 v)) q.2 = true) ↔ Between lower upper (dot row v) := by
  have hupper : (∀ q ∈ if Bound.isUpper upper then [(row, upper)] else [], le (finite (dot q.1 v)) q.2 = true)
      ↔ le (finite (dot row v)) upper = true := by
    by_cases h : Bound.isUpper upper = true
    · simp [h]
    · rw [isUpper_iff, not_not] at h
      simp [h, Bound.isUpper, Bound.lt, ExtRat.lt]
  have hlower : (∀ q ∈ if Bound.isLower lower then [(negated row, Bound.neg lower)] else [],
      le (finite (dot q.1 v)) q.2 = true) ↔ le lower (finite (dot row v)) = true := by
    by_cases h : Bound.isLower lower = true
    · simp [h, negated, dot_neg, finite_le_neg]
    · rw [isLower_iff, not_not] at h
      simp [h, Bound.isLower, Bound.lt, ExtRat.lt]
  rw [bounding, List.forall_mem_append, hupper, hlower, Between, and_comm]

/-- **Splitting a row** keeps what it says. -/
theorem add_admits_iff (s : SplitRows Rat ExtRat) (r : List Rat × ExtRat × ExtRat) :
    (s.add r).Admits v ↔ s.Admits v ∧ Between r.2.1 r.2.2 (dot r.1 v) := by
  obtain ⟨row, lower, upper⟩ := r
  unfold add
  dsimp only
  split
  next hequal =>
    obtain rfl : lower = upper := beq_iff_eq.mp hequal
    rw [between_self]
    constructor
    · rintro ⟨hatMost, hrows⟩
      rw [List.forall_mem_append, List.forall_mem_singleton] at hrows
      exact ⟨⟨hatMost, hrows.1⟩, hrows.2.symm⟩
    · rintro ⟨⟨hatMost, hrows⟩, hrow⟩
      refine ⟨hatMost, ?_⟩
      rw [List.forall_mem_append, List.forall_mem_singleton]
      exact ⟨hrows, hrow.symm⟩
  next =>
    rw [← forall_bounding_iff]
    constructor
    · rintro ⟨hatMost, hrows⟩
      rw [List.forall_mem_append] at hatMost
      exact ⟨⟨hatMost.1, hrows⟩, hatMost.2⟩
    · rintro ⟨⟨hatMost, hrows⟩, hrow⟩
      exact ⟨List.forall_mem_append.mpr ⟨hatMost, hrow⟩, hrows⟩

theorem foldl_add_admits_iff (rows : List (List Rat × ExtRat × ExtRat)) : ∀ s : SplitRows Rat ExtRat,
    (rows.foldl add s).Admits v ↔ s.Admits v ∧ ∀ r ∈ rows, Between r.2.1 r.2.2 (dot r.1 v) := by
  induction rows with
  | nil => simp
  | cons r rows ih =>
    intro s
    rw [List.foldl_cons, ih, add_admits_iff, List.forall_mem_cons, and_assoc]

/-- **The split rows of a program** hold if and only if its rows do. -/
theorem admits_ofProgram_iff (h : p.WellFormed) : (ofProgram p).Admits v ↔ p.rows.Holds (fun _ => 0) v := by
  rw [ofProgram, foldl_add_admits_iff, forall_matrix_iff h]
  exact and_iff_right ⟨by simp, by simp⟩

end SplitRows

namespace BackendRequest

theorem rangedRows_admits_iff (h : p.WellFormed) :
    (∀ r, rangedRows p = some r → r.Admits v) ↔ p.rows.Holds (fun _ => 0) v := by
  rw [← forall_matrix_iff h]
  unfold rangedRows
  split
  next hnone =>
    have hnil : p.rows.coefs = [] := List.length_eq_zero_iff.mp hnone
    simp [LinearProgram.matrix, hnil]
  next => simp [RangedRows.Admits]

/-! ## Bounds and integers -/

theorem bounds_iff : (∀ j b, (p.columns.map fun c => (c.lower, c.upper))[j]? = some b → Between b.1 b.2 (v j))
    ↔ ∀ j c, p.columns[j]? = some c → Within 0 c.lower c.upper (v j) := by
  simp only [List.getElem?_map, Option.map_eq_some_iff, within_zero]
  constructor
  · exact fun h j c hc => h j _ ⟨c, hc, rfl⟩
  · rintro h j b ⟨c, hc, rfl⟩
    exact h j c hc

theorem integrality_iff :
    (∀ j, (p.columns.map (·.integer))[j]? = some true → ∃ z : Int, v j = z) ↔ p.Integral v := by
  simp only [List.getElem?_map, Option.map_eq_some_iff, LinearProgram.Integral]
  constructor
  · exact fun h j c hc hint => h j ⟨c, hc, hint⟩
  · rintro h j ⟨c, hc, hint⟩
    exact h j c hc hint

theorem isMixed_iff : isMixed p = true ↔ ∃ c ∈ p.columns, c.integer = true := List.any_eq_true

/-- Without integer columns all numbers are as integral as they have to be. -/
theorem integral_of_not_isMixed (h : isMixed p = false) (v : Nat → Rat) : p.Integral v := by
  intro j c hc hint
  rw [isMixed, List.any_eq_false] at h
  exact absurd hint (h c (List.mem_of_getElem? hc))

/-! ## The request -/

/-- **The same points.** What is handed over admits the points of the program, with integers where a column is one. -/
theorem admits_ofProgram_iff (h : p.WellFormed) (options : List (String × Value)) :
    (ofProgram p options).Admits v ↔ p.Feasible v ∧ p.Integral v := by
  have hrows : (ofProgram p options).rows.Admits v ↔ p.rows.Holds (fun _ => 0) v ∧ p.Integral v := by
    unfold ofProgram
    dsimp only
    -- split rows do not ask for integers, but they are only made where no column is one
    split
    next => exact and_congr (rangedRows_admits_iff h) integrality_iff
    next hmixed =>
      have hint := integral_of_not_isMixed (Bool.not_eq_true _ ▸ hmixed) v
      exact (SplitRows.admits_ofProgram_iff h).trans (and_iff_left hint).symm
  constructor
  · rintro ⟨hbounds, hadmits⟩
    exact ⟨⟨(hrows.mp hadmits).1, bounds_iff.mp hbounds⟩, (hrows.mp hadmits).2⟩
  · rintro ⟨⟨hholds, hcolumns⟩, hint⟩
    exact ⟨bounds_iff.mpr hcolumns, hrows.mpr ⟨hholds, hint⟩⟩

theorem dot_map_mul (a : Rat) (row : List Rat) (v : Nat → Rat) : dot (row.map fun c => a * c) v = a * dot row v := by
  rw [dot, dot, List.length_map, Finset.mul_sum]
  refine Finset.sum_congr rfl fun k _ => ?_
  rw [List.getElem?_map]
  cases row[k]? with
  | none => simp
  | some c => simp [mul_assoc]

/-- The cost is the value of the objective without its constant, with the sign of its sense. -/
theorem dot_cost (h : p.WellFormed) (v : Nat → Rat) :
    dot (costOf p) v = p.objective.sense.sign * (p.objectiveAt v - p.objective.constant) := by
  rw [costOf, dot_map_mul, LinearProgram.objectiveVector, dot_denseRow h.objective, LinearProgram.objectiveAt,
    add_sub_cancel_right]
  rfl

/-- How small the cost has to be for the objective not to be worse than a number. -/
theorem cost_le_goal_iff (h : p.WellFormed) (q : Rat) : dot (costOf p) v ≤ p.objective.sense.sign * (q - p.objective.constant)
    ↔ p.objective.sense.NoWorse (p.objectiveAt v) q := by
  rw [dot_cost h]
  cases p.objective.sense with
  | minimize => simp [Sense.sign, Sense.NoWorse]
  | maximize =>
    simp only [Sense.sign, Sense.NoWorse, Int.reduceNeg, Int.cast_neg, Int.cast_one, neg_mul, one_mul]
    constructor <;> intro hle <;> linarith

/-- **The same order.** Smaller cost is what is no worse for the objective in its sense. -/
theorem cost_le_iff (h : p.WellFormed) :
    dot (costOf p) v ≤ dot (costOf p) w ↔ p.objective.sense.NoWorse (p.objectiveAt v) (p.objectiveAt w) := by
  rw [dot_cost h w, cost_le_goal_iff h]

end BackendRequest

end RobustLP
