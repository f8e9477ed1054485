import RobustLP.Proofs.Set.Components
import RobustLP.Proofs.Value

/-!
# Points of an uncertainty set

A point of an uncertainty set satisfies its bounds and rows and is an integer where a parameter is one (`Admits`). This is
what the test of points decides without tolerance (`contains_zero_iff`).

The part of a set that concerns a union of components describes its points completely: a point of the set gives one of
the part (`Solves.restrict`), and the numbers that the part allows can be put in the place of those of any point of the set
(`Solves.splice`).
-/

namespace RobustLP

open ExtRat UncertaintySet

namespace UncertaintySet

/-! ## Rows and points -/

/-- The value of a row. -/
def dot (row : List Rat) (v : Nat → Rat) : Rat := ∑ k ∈ Finset.range row.length, row[k]?.getD 0 * v k

/-- The entries of a list as numbers of parameters. -/
def entries (u : List Rat) (k : Nat) : Rat := u[k]?.getD 0

theorem number_ofList (u : List Rat) : (Lookup.ofList u).number = entries u := funext (Lookup.number_ofList u)

theorem entries_map_range (n : Nat) (v : Nat → Rat) {k : Nat} (hk : k < n) :
    entries ((List.range n).map v) k = v k := by
  simp [entries, List.getElem?_map, List.getElem?_range hk]

theorem mem_support_iff {row : List Rat} {k : Nat} : k ∈ support row ↔ row[k]?.getD 0 ≠ 0 := by
  rw [mem_support]
  cases row[k]? with
  | none => simp
  | some a => simp [isZero_eq_false_iff]

/-- The value of a row depends on its support only. -/
theorem dot_congr {row : List Rat} {v w : Nat → Rat} (h : ∀ k ∈ support row, v k = w k) : dot row v = dot row w := by
  refine Finset.sum_congr rfl fun k _ => ?_
  by_cases hk : row[k]?.getD 0 = 0
  · rw [hk, zero_mul, zero_mul]
  · rw [h k (mem_support_iff.mpr hk)]

/-- A set as it is built: as many bounds as parameters, as many entries in each row, one right-hand side for each row, and
no right-hand side that excludes nothing. -/
structure WellFormed (s : UncertaintySet Rat ExtRat) : Prop where
  upper : s.upper.length = s.numParameters
  integer : s.integer.length = s.numParameters
  atMost : s.atMostRows.length = s.atMostBounds.length
  equal : s.equalRows.length = s.equalBounds.length
  width : ∀ row ∈ s.atMostRows ++ s.equalRows, row.length = s.numParameters
  limited : ∀ b ∈ s.atMostBounds, b ≠ posInf

/-- Numbers of the parameters satisfy the bounds and the rows of a set. -/
structure Solves (s : UncertaintySet Rat ExtRat) (v : Nat → Rat) : Prop where
  bounds : ∀ k < s.numParameters, Between (s.lower[k]?.getD negInf) (s.upper[k]?.getD posInf) (v k)
  atMost : ∀ p ∈ s.atMostRows.zip s.atMostBounds, le (finite (dot p.1 v)) p.2 = true
  equal : ∀ p ∈ s.equalRows.zip s.equalBounds, p.2 = finite (dot p.1 v)

/-- **A point of a set:** one number for each parameter, within the bounds and rows, and an integer where it has to be one. -/
structure Admits (s : UncertaintySet Rat ExtRat) (u : List Rat) : Prop where
  size : u.length = s.numParameters
  solves : s.Solves (entries u)
  integral : ∀ k, s.integer[k]? = some true → ∃ z : Int, entries u k = z

/-- Numbers that agree on the parameters satisfy the same rows and bounds. -/
theorem Solves.congr {s : UncertaintySet Rat ExtRat} (hs : s.WellFormed) {v w : Nat → Rat} (h : s.Solves v)
    (hvw : ∀ k < s.numParameters, v k = w k) : s.Solves w where
  bounds k hk := by rw [← hvw k hk]; exact h.bounds k hk
  atMost p hp := by
    have hw := hs.width p.1 (List.mem_append_left _ (List.of_mem_zip hp).1)
    rw [← dot_congr fun k hk => hvw k (hw ▸ lt_length_of_mem_support hk)]
    exact h.atMost p hp
  equal p hp := by
    have hw := hs.width p.1 (List.mem_append_right _ (List.of_mem_zip hp).1)
    rw [← dot_congr fun k hk => hvw k (hw ▸ lt_length_of_mem_support hk)]
    exact h.equal p hp

/-- Without integer parameters the numbers that satisfy bounds and rows are a point. -/
theorem Solves.admits {s : UncertaintySet Rat ExtRat} (hs : s.WellFormed) (hint : s.hasInteger = false) {v : Nat → Rat}
    (h : s.Solves v) : s.Admits ((List.range s.numParameters).map v) where
  size := by simp
  solves := h.congr hs fun k hk => (entries_map_range _ v hk).symm
  integral k hk := by
    have hmem : true ∈ s.integer := List.mem_of_getElem? hk
    rw [hasInteger, List.any_eq_false] at hint
    exact absurd rfl (hint true hmem)

/-! ## The test of points -/

theorem atLeast_zero {q : Rat} {b : ExtRat} : atLeast 0 q b = true ↔ le b (finite q) = true := by
  rw [atLeast, exact_shift, exact_bound, shift_zero]
  rfl

theorem atMost_zero {q : Rat} {b : ExtRat} : UncertaintySet.atMost 0 q b = true ↔ le (finite q) b = true := by
  rw [UncertaintySet.atMost, exact_shift, exact_bound, neg_zero, shift_zero]
  rfl

theorem near_zero {q : Rat} {b : ExtRat} : near 0 q b = true ↔ b = finite q := by
  cases b with
  | negInf => simp [near, Scalar.excess, Bound.lt, ExtRat.shift, ExtRat.neg, ExtRat.lt]
  | posInf => simp [near, Scalar.excess, Bound.lt, ExtRat.shift, ExtRat.neg, ExtRat.lt]
  | finite p =>
    simp only [near, Scalar.excess, Bound.lt, ExtRat.shift, ExtRat.neg, exact_bound, ExtRat.lt, neg_zero, finite.injEq,
      Bool.not_eq_true', Bool.or_eq_false_iff, decide_eq_false_iff_not]
    grind

theorem nearInteger_zero {q : Rat} : nearInteger 0 q = true ↔ ∃ z : Int, q = z := by
  have habs : nearInteger 0 q = true ↔ q = roundEven q := by
    simp only [nearInteger, Scalar.lt, Scalar.abs, Scalar.round, Bool.not_eq_true', decide_eq_false_iff_not]
    split <;> grind
  rw [habs]
  constructor
  · exact fun h => ⟨_, h⟩
  · rintro ⟨z, rfl⟩
    have hz : (z : Rat).floor = z := Rat.floor_intCast z
    simp [roundEven, hz]

theorem sum_zipWith : ∀ row u : List Rat, row.length = u.length →
    (List.zipWith (· * ·) row u).sum = dot row (entries u)
  | [], [], _ => rfl
  | a :: row, q :: u, h => by
    rw [dot, List.length_cons, Finset.sum_range_succ', List.zipWith_cons_cons, List.sum_cons,
      sum_zipWith row u (Nat.succ.inj h), dot, add_comm]
    rfl

theorem rowValue_eq {row u : List Rat} (h : row.length = u.length) : rowValue row u = .ok (dot row (entries u)) := by
  rw [rowValue, if_pos h, LinearProgram.total, ← sum_zipWith row u h, List.sum_eq_foldl]
  rfl

theorem all_zipWith {f : Rat → ExtRat → Bool} {u : List Rat} {bs : List ExtRat} (h : bs.length = u.length) (d : ExtRat) :
    (List.zipWith f u bs).all id = true ↔ ∀ k < u.length, f (entries u k) (bs[k]?.getD d) = true := by
  rw [List.all_eq_true, List.forall_mem_iff_getElem]
  simp only [List.length_zipWith, h, Nat.min_self, List.getElem_zipWith, id_eq]
  refine forall_congr' fun k => forall_congr' fun hk => ?_
  rw [entries, List.getElem?_eq_getElem hk, List.getElem?_eq_getElem (h ▸ hk), Option.getD_some, Option.getD_some]

theorem rowsHold_eq (relation : Rat → ExtRat → Bool) {rows : List (List Rat)} {bounds : List ExtRat} {u : List Rat}
    (hlen : rows.length = bounds.length) (hw : ∀ row ∈ rows, row.length = u.length) :
    rowsHold relation rows bounds u
      = .ok ((rows.zip bounds).all fun p => relation (dot p.1 (entries u)) p.2) := by
  cases bounds with
  | nil => simp [rowsHold]; rfl
  | cons b bs =>
    have hv : (rows.mapM fun row => rowValue row u) = .ok (rows.map fun row => dot row (entries u)) :=
      mapM_ok_map fun row hrow => rowValue_eq (hw row hrow)
    simp only [rowsHold, List.isEmpty_cons, Bool.false_eq_true, if_false, hv, bind, Except.bind,
      LinearProgram.pairUp, List.length_map, hlen, if_true, pure, Except.pure, Except.ok.injEq]
    rw [List.zip_map_left, List.all_map]
    rfl

/-- What the test of points decides, for a list with as many numbers as the set has parameters. -/
theorem contains_eq {s : UncertaintySet Rat ExtRat} (hs : s.WellFormed) (tol : Rat) {u : List Rat}
    (hsize : u.length = s.numParameters) :
    s.contains tol u = .ok ((List.zipWith (atLeast tol) u s.lower).all id
      && (List.zipWith (UncertaintySet.atMost tol) u s.upper).all id
      && ((s.atMostRows.zip s.atMostBounds).all fun p => UncertaintySet.atMost tol (dot p.1 (entries u)) p.2)
      && ((s.equalRows.zip s.equalBounds).all fun p => near tol (dot p.1 (entries u)) p.2)
      && (List.zip u s.integer).all fun (x, i) => !i || nearInteger tol x) := by
  have hle := rowsHold_eq (UncertaintySet.atMost tol) hs.atMost
    fun row hrow => (hs.width row (List.mem_append_left _ hrow)).trans hsize.symm
  have heq := rowsHold_eq (near tol) hs.equal
    fun row hrow => (hs.width row (List.mem_append_right _ hrow)).trans hsize.symm
  rw [contains, if_neg (not_not.mpr hsize), hle, heq]
  simp only [Except.mapError, bind, Except.bind, pure, Except.pure]
  cases (List.zipWith (atLeast tol) u s.lower).all id <;> cases (List.zipWith (UncertaintySet.atMost tol) u s.upper).all id <;>
    cases (s.atMostRows.zip s.atMostBounds).all fun p => UncertaintySet.atMost tol (dot p.1 (entries u)) p.2 <;>
    cases (s.equalRows.zip s.equalBounds).all fun p => near tol (dot p.1 (entries u)) p.2 <;> rfl

theorem all_zip_integer {u : List Rat} {integer : List Bool} (h : integer.length = u.length) :
    ((List.zip u integer).all fun (x, i) => !i || nearInteger 0 x) = true ↔
      ∀ k, integer[k]? = some true → ∃ z : Int, entries u k = z := by
  rw [List.all_eq_true, List.forall_mem_iff_getElem]
  simp only [List.length_zip, h, Nat.min_self, List.getElem_zip, Bool.or_eq_true, Bool.not_eq_true', nearInteger_zero]
  constructor
  · intro hall k hk
    obtain ⟨hlt, hk⟩ := List.getElem?_eq_some_iff.mp hk
    have hku : k < u.length := h ▸ hlt
    rw [entries, List.getElem?_eq_getElem hku, Option.getD_some]
    exact (hall k hku).resolve_left (by rw [hk]; exact Bool.noConfusion)
  · intro hall k hk
    have hlt : k < integer.length := h.symm ▸ hk
    cases hb : integer[k] with
    | false => exact .inl rfl
    | true =>
      have hz := hall k (List.getElem?_eq_some_iff.mpr ⟨hlt, hb⟩)
      rw [entries, List.getElem?_eq_getElem hk, Option.getD_some] at hz
      exact .inr hz

/-- **The test of points without tolerance** says yes to the points of the set, and to them only. -/
theorem contains_zero_iff {s : UncertaintySet Rat ExtRat} (hs : s.WellFormed) {u : List Rat} :
    s.contains 0 u = .ok true ↔ s.Admits u := by
  by_cases hsize : u.length = s.numParameters
  · rw [contains_eq hs 0 hsize, Except.ok.injEq]
    simp only [Bool.and_eq_true, and_assoc]
    rw [all_zipWith hsize.symm negInf, all_zipWith (hs.upper.trans hsize.symm) posInf, List.all_eq_true,
      List.all_eq_true, all_zip_integer (hs.integer.trans hsize.symm), hsize]
    simp only [atLeast_zero, atMost_zero, near_zero]
    constructor
    · rintro ⟨hlower, hupper, hatMost, hequal, hint⟩
      exact ⟨hsize, ⟨fun k hk => ⟨hlower k hk, hupper k hk⟩, hatMost, hequal⟩, hint⟩
    · rintro ⟨-, ⟨hbounds, hatMost, hequal⟩, hint⟩
      exact ⟨fun k hk => (hbounds k hk).1, fun k hk => (hbounds k hk).2, hatMost, hequal, hint⟩
  · rw [contains, if_pos hsize]
    constructor
    · intro h; cases h
    · intro h; exact absurd h.size hsize

/-! ## The part that concerns some parameters -/

/-- The number at a position of a part of the parameters. -/
def atPosition (ks : List Nat) (v : Nat → Rat) (p : Nat) : Rat := v (ks[p]?.getD 0)

/-- A sum over the positions of a list is a sum over the list. -/
theorem sum_positions (ks : List Nat) (g : Nat → Rat) :
    ∑ p ∈ Finset.range ks.length, g (ks[p]?.getD 0) = (ks.map g).sum := by
  rw [← Fin.sum_univ_fun_getElem, Finset.sum_range]
  refine Finset.sum_congr rfl fun p _ => ?_
  rw [List.getElem?_eq_getElem p.isLt, Option.getD_some]

theorem getElem?_pickColumns (ks : List Nat) (row : List Rat) (p : Nat) (hp : p < ks.length) :
    (pickColumns ks row)[p]?.getD 0 = row[ks[p]?.getD 0]?.getD 0 := by
  simp [pickColumns, List.getElem?_map, List.getElem?_eq_getElem hp]

/-- **A row that lies within some columns has the same value on them.** -/
theorem dot_pickColumns {ks : List Nat} (hks : ks.Nodup) {row : List Rat} (h : ∀ k ∈ support row, k ∈ ks)
    (v : Nat → Rat) : dot (pickColumns ks row) (atPosition ks v) = dot row v := by
  have hlen : (pickColumns ks row).length = ks.length := by simp [pickColumns]
  have hpos : dot (pickColumns ks row) (atPosition ks v)
      = ∑ p ∈ Finset.range ks.length, (fun k => row[k]?.getD 0 * v k) (ks[p]?.getD 0) := by
    rw [dot, hlen]
    refine Finset.sum_congr rfl fun p hp => ?_
    rw [getElem?_pickColumns ks row p (Finset.mem_range.mp hp), atPosition]
  rw [hpos, sum_positions ks fun k => row[k]?.getD 0 * v k, ← List.sum_toFinset _ hks, dot]
  refine Finset.sum_congr_of_eq_on_inter ?_ ?_ fun _ _ _ => rfl
  · intro k _ hk
    have : row[k]? = none := List.getElem?_eq_none (by simpa using hk)
    simp [this]
  · intro k _ hk
    have hz : row[k]?.getD 0 = 0 := by
      by_contra hne
      exact hk (List.mem_toFinset.mpr (h k (mem_support_iff.mpr hne)))
    rw [hz, zero_mul]

/-- Only the numbers at the positions matter for the value of a picked row. -/
theorem dot_pickColumns_congr (ks : List Nat) (row : List Rat) {v w : Nat → Rat} (h : ∀ p < ks.length, v p = w p) :
    dot (pickColumns ks row) v = dot (pickColumns ks row) w := by
  refine dot_congr fun p hp => h p ?_
  have := lt_length_of_mem_support hp
  simpa [pickColumns] using this

/-- The rows of a part with their right-hand sides. -/
theorem zip_restrictRows (ks : List Nat) (rows : List (List Rat)) (bounds : List ExtRat) :
    (restrictRows ks rows bounds).1.zip (restrictRows ks rows bounds).2
      = ((rows.zip bounds).filter fun q => liesWithin ks q.1).map fun q => (pickColumns ks q.1, q.2) :=
  List.zip_map' ..

theorem liesWithin_iff {ks : List Nat} {row : List Rat} :
    liesWithin ks row = true ↔ (∃ k ∈ support row, k ∈ ks) ∧ ∀ k ∈ support row, k ∈ ks := by
  simp [liesWithin]

end UncertaintySet

namespace RestrictedSet

/-- Numbers at the positions of a part satisfy its bounds and rows. -/
structure Solves (r : RestrictedSet Rat ExtRat) (w : Nat → Rat) : Prop where
  bounds : ∀ p < r.lower.length, Between (r.lower[p]?.getD negInf) (r.upper[p]?.getD posInf) (w p)
  atMost : ∀ q ∈ r.atMostRows.zip r.atMostBounds, le (finite (dot q.1 w)) q.2 = true
  equal : ∀ q ∈ r.equalRows.zip r.equalBounds, q.2 = finite (dot q.1 w)

end RestrictedSet

namespace UncertaintySet

theorem length_restrict_lower (s : UncertaintySet Rat ExtRat) (ks : List Nat) :
    (s.restrict ks).lower.length = ks.length := by
  simp [restrict]

theorem restrict_lower (s : UncertaintySet Rat ExtRat) {ks : List Nat} {p : Nat} (hp : p < ks.length) :
    (s.restrict ks).lower[p]?.getD negInf = s.lower[ks[p]?.getD 0]?.getD negInf := by
  simp [restrict, List.getElem?_map, List.getElem?_eq_getElem hp]

theorem restrict_upper (s : UncertaintySet Rat ExtRat) {ks : List Nat} {p : Nat} (hp : p < ks.length) :
    (s.restrict ks).upper[p]?.getD posInf = s.upper[ks[p]?.getD 0]?.getD posInf := by
  simp [restrict, List.getElem?_map, List.getElem?_eq_getElem hp]

/-- A row of a part is a row of the set that lies within the columns of the part. -/
theorem mem_restrict_atMost {s : UncertaintySet Rat ExtRat} {ks : List Nat} {q : List Rat × ExtRat} :
    q ∈ (s.restrict ks).atMostRows.zip (s.restrict ks).atMostBounds ↔
      ∃ r ∈ s.atMostRows.zip s.atMostBounds, liesWithin ks r.1 = true ∧ q = (pickColumns ks r.1, r.2) := by
  have h : (s.restrict ks).atMostRows.zip (s.restrict ks).atMostBounds = _ :=
    zip_restrictRows ks s.atMostRows s.atMostBounds
  rw [h, List.mem_map]
  simp only [List.mem_filter, and_assoc, eq_comm]

/-- The same for equalities. -/
theorem mem_restrict_equal {s : UncertaintySet Rat ExtRat} {ks : List Nat} {q : List Rat × ExtRat} :
    q ∈ (s.restrict ks).equalRows.zip (s.restrict ks).equalBounds ↔
      ∃ r ∈ s.equalRows.zip s.equalBounds, liesWithin ks r.1 = true ∧ q = (pickColumns ks r.1, r.2) := by
  have h : (s.restrict ks).equalRows.zip (s.restrict ks).equalBounds = _ :=
    zip_restrictRows ks s.equalRows s.equalBounds
  rw [h, List.mem_map]
  simp only [List.mem_filter, and_assoc, eq_comm]

/-- **A point of a set gives one of each part.** -/
theorem Solves.restrict {s : UncertaintySet Rat ExtRat} {v : Nat → Rat} (h : s.Solves v) {ks : List Nat}
    (hks : ks.Nodup) (hlt : ∀ k ∈ ks, k < s.numParameters) : (s.restrict ks).Solves (atPosition ks v) where
  bounds p hp := by
    rw [length_restrict_lower] at hp
    rw [restrict_lower s hp, restrict_upper s hp, atPosition]
    refine h.bounds _ (hlt _ ?_)
    rw [List.getElem?_eq_getElem hp]
    exact List.getElem_mem hp
  atMost q hq := by
    obtain ⟨r, hr, hin, rfl⟩ := mem_restrict_atMost.mp hq
    rw [dot_pickColumns hks (liesWithin_iff.mp hin).2]
    exact h.atMost r hr
  equal q hq := by
    obtain ⟨r, hr, hin, rfl⟩ := mem_restrict_equal.mp hq
    rw [dot_pickColumns hks (liesWithin_iff.mp hin).2]
    exact h.equal r hr

/-- Numbers with those of a part in the place of some. -/
def splice (ks : List Nat) (w v : Nat → Rat) (k : Nat) : Rat := if k ∈ ks then w (ks.idxOf k) else v k

theorem atPosition_splice {ks : List Nat} (hks : ks.Nodup) (w v : Nat → Rat) {p : Nat} (hp : p < ks.length) :
    atPosition ks (splice ks w v) p = w p := by
  rw [atPosition, List.getElem?_eq_getElem hp, Option.getD_some, splice, if_pos (List.getElem_mem hp),
    hks.idxOf_getElem p hp]

/-- The value of a row of a set at spliced numbers is that of the part if it lies within, and else the former one. -/
theorem dot_splice {s : UncertaintySet Rat ExtRat} (hs : s.WellFormed) (wanted : List Nat) {row : List Rat}
    (hrow : row ∈ s.atMostRows ++ s.equalRows) (w v : Nat → Rat) :
    dot row (splice (s.componentOf wanted) w v)
      = if liesWithin (s.componentOf wanted) row then dot (pickColumns (s.componentOf wanted) row) w else dot row v := by
  have hks := s.nodup_componentOf wanted
  split
  next hin =>
    rw [← dot_pickColumns hks (liesWithin_iff.mp hin).2]
    exact dot_pickColumns_congr _ row fun p hp => atPosition_splice hks w v hp
  next hout =>
    refine dot_congr fun k hk => if_neg fun hmem => hout (liesWithin_iff.mpr ⟨⟨k, hk, hmem⟩, fun j hj => ?_⟩)
    exact mem_componentOf_of_support hs.width hrow hk hj hmem

/-- **Numbers that the part of some components allows can be put in the place of those of any point.** -/
theorem Solves.splice {s : UncertaintySet Rat ExtRat} (hs : s.WellFormed) {v w : Nat → Rat} (h : s.Solves v)
    {wanted : List Nat} (hw : (s.restrict (s.componentOf wanted)).Solves w) :
    s.Solves (splice (s.componentOf wanted) w v) where
  bounds k hk := by
    by_cases hmem : k ∈ s.componentOf wanted
    · have hp := List.idxOf_lt_length_of_mem hmem
      have hb := hw.bounds _ (by rwa [length_restrict_lower])
      rw [restrict_lower s hp, restrict_upper s hp, List.getElem?_eq_getElem hp, Option.getD_some,
        List.getElem_idxOf hp] at hb
      rwa [UncertaintySet.splice, if_pos hmem]
    · rw [UncertaintySet.splice, if_neg hmem]
      exact h.bounds k hk
  atMost q hq := by
    rw [dot_splice hs wanted (List.mem_append_left _ (List.of_mem_zip hq).1)]
    split
    next hin => exact hw.atMost _ (mem_restrict_atMost.mpr ⟨q, hq, hin, rfl⟩)
    next => exact h.atMost q hq
  equal q hq := by
    rw [dot_splice hs wanted (List.mem_append_right _ (List.of_mem_zip hq).1)]
    split
    next hin => exact hw.equal _ (mem_restrict_equal.mpr ⟨q, hq, hin, rfl⟩)
    next => exact h.equal q hq

end UncertaintySet

end RobustLP
