import RobustLP.Proofs.Dual.Slope
import RobustLP.Proofs.Reformulation

/-!
# The facets of a part of a set

A part of an uncertainty set is given by rows and bounds of four sorts. For duality there is one sort only: a *facet* is an
inequality `Σ coef p · w p ≤ bound`, or an equality, in the numbers `w p` at the positions of the part. The facets come in
the order of their multipliers, so that the multiplier of the facet `i` is the auxiliary column `offset + i`.

* The auxiliary columns of a reformulation are one for each facet (`inBounds_auxiliaries`).
* Its rows weigh the facets: their bounds in the objective row (`objectiveRow_holds`), their coefficients in the dual rows
  (`dualRows_hold`).
* Numbers that satisfy the part satisfy its facets, and the other way round if the part has a point (`solves_facets`,
  `solves_of_facets`).
-/

namespace RobustLP

open ExtRat UncertaintySet

/-- A part as it comes from a set: rows and right-hand sides go together, each row has an entry for each position, and no
right-hand side excludes nothing. -/
structure RestrictedSet.WellFormed (r : RestrictedSet Rat ExtRat) : Prop where
  upper : r.upper.length = r.lower.length
  atMost : r.atMostRows.length = r.atMostBounds.length
  equal : r.equalRows.length = r.equalBounds.length
  width : ∀ row ∈ r.atMostRows ++ r.equalRows, row.length = r.lower.length
  limited : ∀ b ∈ r.atMostBounds, b ≠ posInf

theorem UncertaintySet.WellFormed.restrict {s : UncertaintySet Rat ExtRat} (hs : s.WellFormed) (ks : List Nat) :
    (s.restrict ks).WellFormed where
  upper := by simp [UncertaintySet.restrict]
  atMost := by simp [UncertaintySet.restrict, restrictRows]
  equal := by simp [UncertaintySet.restrict, restrictRows]
  width row hrow := by
    rw [length_restrict_lower]
    simp only [UncertaintySet.restrict, restrictRows, ← List.map_append, List.mem_map] at hrow
    obtain ⟨q, -, rfl⟩ := hrow
    simp [pickColumns]
  limited b hb := by
    simp only [UncertaintySet.restrict, restrictRows, List.mem_map] at hb
    obtain ⟨q, hq, rfl⟩ := hb
    exact hs.limited _ (List.of_mem_zip (List.mem_filter.mp hq).1).2

/-- An inequality in the numbers at the positions of a part, or an equality. -/
structure Facet where
  coef : Nat → Rat
  bound : Rat
  equality : Bool

namespace Facet

/-- The left-hand side at numbers of `n` positions. -/
def value (n : Nat) (w : Nat → Rat) (F : Facet) : Rat := ∑ p ∈ Finset.range n, F.coef p * w p

/-- A facet holds at numbers of `n` positions. -/
def Holds (n : Nat) (w : Nat → Rat) (F : Facet) : Prop :=
  if F.equality then F.value n w = F.bound else F.value n w ≤ F.bound

/-- A number that is allowed as multiplier of a facet. -/
def Allows (F : Facet) (q : Rat) : Prop := F.equality = false → 0 ≤ q

/-- The facet of a row. -/
def ofRow (equality : Bool) (q : List Rat × ExtRat) : Facet :=
  { coef := fun p => q.1[p]?.getD 0, bound := q.2.toRat, equality }

/-- The facet of a bound at a position: `a · w p ≤ bound`. -/
def ofBound (a : Rat) (bound : Rat) (p : Nat) : Facet :=
  { coef := fun q => if p = q then a else 0, bound, equality := false }

variable {n : Nat} {w : Nat → Rat}

theorem holds_ofBound {p : Nat} (hp : p < n) {a b : Rat} : (ofBound a b p).Holds n w ↔ a * w p ≤ b := by
  have hvalue : (ofBound a b p).value n w = a * w p := by
    simp only [value, ofBound, ite_mul, zero_mul]
    rw [Finset.sum_ite_eq, if_pos (Finset.mem_range.mpr hp)]
  rw [Holds, hvalue]
  exact Iff.rfl

theorem value_ofRow {q : List Rat × ExtRat} (hq : q.1.length = n) (equality : Bool) :
    (ofRow equality q).value n w = dot q.1 w := by
  rw [dot, hq]
  rfl

theorem holds_ofRow_atMost {q : List Rat × ExtRat} (hq : q.1.length = n) :
    (ofRow false q).Holds n w ↔ dot q.1 w ≤ q.2.toRat := by
  rw [Holds, value_ofRow hq]
  exact Iff.rfl

theorem holds_ofRow_equal {q : List Rat × ExtRat} (hq : q.1.length = n) :
    (ofRow true q).Holds n w ↔ dot q.1 w = q.2.toRat := by
  rw [Holds, value_ofRow hq]
  exact Iff.rfl

end Facet

/-- Columns that allow what facets allow, one for each. -/
theorem inBounds_iff_of_forall₂ {y : Nat → Rat} {vs : List (AuxVariable ExtRat)} {Fs : List Facet}
    (h : List.Forall₂ (fun v F => ∀ q, Between v.lower v.upper q ↔ Facet.Allows F q) vs Fs) :
    ∀ start, InBounds y start vs ↔ ∀ q ∈ Fs.zipIdx start, q.1.Allows (y q.2) := by
  induction h with
  | nil => simp [InBounds]
  | cons hv _ ih =>
    intro start
    have ih := ih (start + 1)
    simp only [InBounds, List.zipIdx_cons, List.forall_mem_cons] at ih ⊢
    rw [hv, ih]

theorem forall₂_map_map {α β γ δ : Type} {R : γ → δ → Prop} {g : α → γ} {h : β → δ} {as : List α} {bs : List β}
    (hlen : as.length = bs.length) (hR : ∀ a b, R (g a) (h b)) : List.Forall₂ R (as.map g) (bs.map h) := by
  rw [List.forall₂_map_left_iff, List.forall₂_map_right_iff, List.forall₂_iff_zip]
  exact ⟨hlen, fun _ => hR _ _⟩

namespace DualSide

variable {d : DualSide Rat ExtRat}

/-- **The facets of a part,** in the order of their multipliers. -/
def facets (d : DualSide Rat ExtRat) : List Facet :=
  (d.set.atMostRows.zip d.set.atMostBounds).map (Facet.ofRow false)
    ++ (d.set.equalRows.zip d.set.equalBounds).map (Facet.ofRow true)
    ++ d.aboves.map (fun p => Facet.ofBound 1 (boundAt d.set.upper p) p)
    ++ d.belows.map (fun p => Facet.ofBound (-1) (-boundAt d.set.lower p) p)

/-! ## Multipliers -/

theorem between_nonNegative {name : String} {q : Rat} :
    Between (nonNegative (K := Rat) (B := ExtRat) name).lower (nonNegative (K := Rat) (B := ExtRat) name).upper q ↔ 0 ≤ q := by
  simp [nonNegative, Between]

/-- **The bounds of the auxiliary columns** are those of the multipliers of the facets. -/
theorem inBounds_auxiliaries (h : d.set.WellFormed) {y : Nat → Rat} :
    InBounds y d.offset d.auxiliaries ↔ ∀ q ∈ d.facets.zipIdx d.offset, q.1.Allows (y q.2) := by
  refine inBounds_iff_of_forall₂ ?_ _
  have hfree : ∀ (name : String) (q : Rat), Between (free (B := ExtRat) name).lower (free (B := ExtRat) name).upper q :=
    fun _ => between_free
  refine List.rel_append (List.rel_append (List.rel_append ?_ ?_) ?_) ?_
  · refine forall₂_map_map (by simp [h.atMost]) fun i q r => ?_
    simp [between_nonNegative, Facet.Allows, Facet.ofRow]
  · refine forall₂_map_map (by simp [h.equal]) fun i q r => ?_
    simp [hfree, Facet.Allows, Facet.ofRow]
  · refine forall₂_map_map rfl fun p p' r => ?_
    simp [between_nonNegative, Facet.Allows, Facet.ofBound]
  · refine forall₂_map_map rfl fun p p' r => ?_
    simp [between_nonNegative, Facet.Allows, Facet.ofBound]

/-! ## Rows -/

theorem termsValue_level (x y : Nat → Rat) (f : MixedForm Rat) :
    termsValue x y (f.linear.map fun t => (AuxColumn.existing t.1, t.2.constant)) + f.constant.constant = f.level x := by
  simp only [termsValue, List.map_map, MixedForm.level, Function.comp_def, AuxColumn.value, Int.toNat_natCast]

theorem map_bound_facets (h : d.set.WellFormed) :
    d.facets.map (·.bound) = d.set.atMostBounds.map ExtRat.toRat ++ d.set.equalBounds.map ExtRat.toRat
      ++ d.aboves.map (fun p => boundAt d.set.upper p) ++ d.belows.map (fun p => -boundAt d.set.lower p) := by
  have hmost : (d.set.atMostRows.zip d.set.atMostBounds).map (·.2) = d.set.atMostBounds := List.map_snd_zip h.atMost.ge
  have hequal : (d.set.equalRows.zip d.set.equalBounds).map (·.2) = d.set.equalBounds := List.map_snd_zip h.equal.ge
  replace hmost := congrArg (List.map ExtRat.toRat) hmost
  replace hequal := congrArg (List.map ExtRat.toRat) hequal
  rw [List.map_map] at hmost hequal
  rw [← hmost, ← hequal]
  simp only [facets, List.map_append, List.map_map]
  rfl

/-- The terms of the multipliers in the objective row weigh the bounds of the facets. -/
theorem termsValue_objectiveRow (h : d.set.WellFormed) (f : MixedForm Rat) (limit : ExtRat) (x y : Nat → Rat) :
    termsValue x y (d.objectiveRow f limit).terms + f.constant.constant
      = f.level x + weigh y d.offset (d.facets.map (·.bound)) := by
  rw [map_bound_facets h, weigh_append, weigh_append, weigh_append, ← termsValue_zipIdx x y _ d.set.atMostBounds,
    ← termsValue_zipIdx x y _ d.set.equalBounds, ← termsValue_zipIdx x y _ d.aboves, ← termsValue_zipIdx x y _ d.belows,
    ← termsValue_level x y f]
  simp only [objectiveRow, termsValue_append, List.length_append, List.length_map, atMostColumn, equalColumn, aboveColumn,
    belowColumn, exact_coef, Nat.add_assoc]
  ring

/-- **The objective row weighs the bounds of the facets.** -/
theorem objectiveRow_holds (h : d.set.WellFormed) {f : MixedForm Rat} {limit : ExtRat} {x y : Nat → Rat} :
    (d.objectiveRow f limit).Holds x y ↔
      le (finite (f.level x + weigh y d.offset (d.facets.map (·.bound)))) limit = true := by
  rw [← termsValue_objectiveRow h f limit, ← finite_le_shift, AuxRow.Holds, Between]
  exact and_iff_right (negInf_le _)

/-- Terms without the entries that are zero. -/
theorem termsValue_filterMap_isZero {α : Type} (x y : Nat → Rat) (c : α → AuxColumn) (g : α → Rat) (l : List α) :
    termsValue x y (l.filterMap fun e => if Scalar.isZero (g e) then none else some (c e, g e))
      = termsValue x y (l.map fun e => (c e, g e)) := by
  induction l with
  | nil => rfl
  | cons e l ih =>
    rw [List.map_cons, ← List.singleton_append (l := l.map _), termsValue_append, ← ih, List.filterMap_cons]
    by_cases he : g e = 0
    · simp [he, termsValue]
    · rw [isZero_eq_false_iff.mpr he, ← termsValue_append]
      rfl

/-- Terms of the entries that pass a test. -/
theorem termsValue_map_filter {α : Type} (x y : Nat → Rat) (c : α → AuxColumn) (a : Rat) (test : α → Bool) (l : List α) :
    termsValue x y ((l.filter test).map fun e => (c e, a))
      = termsValue x y (l.map fun e => (c e, if test e then a else 0)) := by
  induction l with
  | nil => rfl
  | cons e l ih =>
    rw [List.map_cons, ← List.singleton_append (l := l.map _), termsValue_append, ← ih, List.filter_cons]
    cases test e with
    | true => rw [if_pos rfl, if_pos rfl, ← termsValue_append]; rfl
    | false => simp [termsValue]

theorem termsValue_columnTerms (x y : Nat → Rat) (start : Nat) (rows : List (List Rat)) (p : Nat) :
    termsValue x y (columnTerms (fun i => .auxiliary (start + i)) rows p)
      = weigh y start (rows.map fun row => row[p]?.getD 0) := by
  rw [← termsValue_zipIdx x y start rows]
  exact termsValue_filterMap_isZero x y (fun q => .auxiliary (start + q.2)) (fun q => q.1[p]?.getD 0) rows.zipIdx

theorem termsValue_slope (x y : Nat → Rat) (f : MixedForm Rat) (k : Nat) :
    termsValue x y (f.linear.filterMap fun t => (t.2.coef? k).map fun a => (AuxColumn.existing t.1, -a))
      + f.slope x k = f.constant.coefOf k := by
  rw [MixedForm.slope, ← add_assoc, add_eq_right]
  induction f.linear with
  | nil => simp [termsValue]
  | cons t ts ih =>
    rw [List.map_cons, List.sum_cons, List.filterMap_cons, Form.coefOf]
    cases t.2.coef? k with
    | none => simpa using ih
    | some a =>
      have hone : termsValue x y [(AuxColumn.existing t.1, -a)] = -a * x t.1 := by simp [termsValue, AuxColumn.value]
      dsimp only [Option.map_some, Option.getD_some]
      rw [← List.singleton_append, termsValue_append, hone]
      linarith

theorem map_coef_facets (h : d.set.WellFormed) (p : Nat) :
    d.facets.map (·.coef p) = d.set.atMostRows.map (fun row => row[p]?.getD 0)
      ++ d.set.equalRows.map (fun row => row[p]?.getD 0)
      ++ d.aboves.map (fun q => if q = p then 1 else 0) ++ d.belows.map (fun q => if q = p then -1 else 0) := by
  have hmost : (d.set.atMostRows.zip d.set.atMostBounds).map (·.1) = d.set.atMostRows := List.map_fst_zip h.atMost.le
  have hequal : (d.set.equalRows.zip d.set.equalBounds).map (·.1) = d.set.equalRows := List.map_fst_zip h.equal.le
  replace hmost := congrArg (List.map fun row : List Rat => row[p]?.getD 0) hmost
  replace hequal := congrArg (List.map fun row : List Rat => row[p]?.getD 0) hequal
  rw [List.map_map] at hmost hequal
  rw [← hmost, ← hequal]
  simp only [facets, List.map_append, List.map_map]
  rfl

/-- **The terms of a dual row** weigh the coefficients of the facets and subtract the slope. -/
theorem termsValue_dualTerms (h : d.set.WellFormed) (f : MixedForm Rat) (x y : Nat → Rat) (p k : Nat) :
    termsValue x y (d.dualTerms f p k) + f.slope x k
      = weigh y d.offset (d.facets.map (·.coef p)) + f.constant.coefOf k := by
  rw [map_coef_facets h, weigh_append, weigh_append, weigh_append, ← termsValue_columnTerms x y,
    ← termsValue_columnTerms x y, ← termsValue_zipIdx x y _ d.aboves, ← termsValue_zipIdx x y _ d.belows,
    ← termsValue_slope x y f k]
  have hmost : d.atMostColumn = fun i => AuxColumn.auxiliary (d.offset + i) := rfl
  have hequal : d.equalColumn = fun i => AuxColumn.auxiliary (d.offset + d.set.atMostBounds.length + i) := rfl
  simp only [dualTerms, termsValue_append, List.length_append, List.length_map, h.atMost, h.equal, exact_one,
    exact_minusOne, termsValue_map_filter, beq_iff_eq]
  simp only [hmost, hequal, aboveColumn, belowColumn, ← Nat.add_assoc]
  ring

/-- **The dual rows say that the weighed coefficients are the slopes,** also where a row is left out. -/
theorem dualRows_hold (h : d.set.WellFormed) {f : MixedForm Rat} {x y : Nat → Rat} :
    (∀ r ∈ d.dualRows f, r.Holds x y) ↔
      ∀ q ∈ d.parameters.zipIdx, weigh y d.offset (d.facets.map (·.coef q.2)) = f.slope x q.1 := by
  rw [dualRows, List.forall_mem_filterMap]
  refine forall₂_congr fun q _ => ?_
  have hterms := termsValue_dualTerms h f x y q.2 q.1
  have hc : f.constant.coefOf q.1 = (f.constant.coef? q.1).getD Scalar.zero := rfl
  unfold dualRow?
  dsimp only
  rw [← hc]
  split
  next hempty =>
    obtain ⟨hnil, hzero⟩ := Bool.and_eq_true_iff.mp hempty
    rw [List.isEmpty_iff.mp hnil, isZero_iff.mp hzero, add_zero] at hterms
    have hleft : weigh y d.offset (d.facets.map (·.coef q.2)) = f.slope x q.1 := by
      rw [← hterms, termsValue, List.map_nil, List.sum_nil, zero_add]
    exact iff_of_true (fun _ h => by cases h) hleft
  next =>
    simp only [Option.some.injEq, forall_eq', AuxRow.Holds, exact_bound, between_finite]
    constructor <;> intro heq <;> linarith

/-! ## Points -/

theorem mem_positionsOf {test : ExtRat → Bool} {bs : List ExtRat} {p : Nat} :
    p ∈ positionsOf test bs ↔ ∃ b, bs[p]? = some b ∧ test b = true := by
  rw [positionsOf, List.mem_filterMap]
  constructor
  · rintro ⟨⟨b, i⟩, hmem, h⟩
    obtain ⟨htest, hi⟩ := Option.ite_none_right_eq_some.mp h
    cases hi
    exact ⟨b, List.mk_mem_zipIdx_iff_getElem?.mp hmem, htest⟩
  · rintro ⟨b, hb, htest⟩
    exact ⟨(b, p), List.mk_mem_zipIdx_iff_getElem?.mpr hb, if_pos htest⟩

theorem boundAt_eq {bs : List ExtRat} {p : Nat} {b : ExtRat} (h : bs[p]? = some b) : boundAt (K := Rat) bs p = b.toRat := by
  rw [boundAt, h]
  rfl

/-- A facet comes from an inequality row, an equality row, an upper bound or a lower bound. -/
theorem mem_facets {F : Facet} : F ∈ d.facets ↔
    (∃ q ∈ d.set.atMostRows.zip d.set.atMostBounds, Facet.ofRow false q = F)
      ∨ (∃ q ∈ d.set.equalRows.zip d.set.equalBounds, Facet.ofRow true q = F)
      ∨ (∃ p b, d.set.upper[p]? = some b ∧ b ≠ posInf ∧ Facet.ofBound 1 b.toRat p = F)
      ∨ ∃ p b, d.set.lower[p]? = some b ∧ b ≠ negInf ∧ Facet.ofBound (-1) (-b.toRat) p = F := by
  have habove : (∃ p ∈ d.aboves, Facet.ofBound 1 (boundAt d.set.upper p) p = F)
      ↔ ∃ p b, d.set.upper[p]? = some b ∧ b ≠ posInf ∧ Facet.ofBound 1 b.toRat p = F := by
    refine exists_congr fun p => ?_
    rw [aboves, mem_positionsOf, ← exists_and_right]
    refine exists_congr fun b => ?_
    rw [and_assoc, isUpper_iff]
    exact and_congr_right fun hb => by rw [boundAt_eq hb]
  have hbelow : (∃ p ∈ d.belows, Facet.ofBound (-1) (-boundAt d.set.lower p) p = F)
      ↔ ∃ p b, d.set.lower[p]? = some b ∧ b ≠ negInf ∧ Facet.ofBound (-1) (-b.toRat) p = F := by
    refine exists_congr fun p => ?_
    rw [belows, mem_positionsOf, ← exists_and_right]
    refine exists_congr fun b => ?_
    rw [and_assoc, isLower_iff]
    exact and_congr_right fun hb => by rw [boundAt_eq hb]
  rw [← habove, ← hbelow]
  simp only [facets, List.mem_append, List.mem_map, or_assoc]

/-- **Numbers that satisfy a part satisfy its facets.** -/
theorem solves_facets (h : d.set.WellFormed) {w : Nat → Rat} (hw : d.set.Solves w) :
    ∀ F ∈ d.facets, F.Holds d.set.lower.length w := by
  intro F hF
  rcases mem_facets.mp hF with ⟨q, hq, rfl⟩ | ⟨q, hq, rfl⟩ | ⟨p, b, hb, hne, rfl⟩ | ⟨p, b, hb, hne, rfl⟩
  · have hwidth := h.width q.1 (List.mem_append_left _ (List.of_mem_zip hq).1)
    obtain ⟨c, hc, hle⟩ := (finite_le_iff (h.limited q.2 (List.of_mem_zip hq).2)).mp (hw.atMost q hq)
    rw [Facet.holds_ofRow_atMost hwidth, hc]
    exact hle
  · have hwidth := h.width q.1 (List.mem_append_right _ (List.of_mem_zip hq).1)
    rw [Facet.holds_ofRow_equal hwidth, hw.equal q hq]
    rfl
  · have hp : p < d.set.lower.length := h.upper ▸ (List.getElem?_eq_some_iff.mp hb).1
    have hbound := (hw.bounds p hp).2
    rw [hb, Option.getD_some] at hbound
    obtain ⟨c, rfl, hle⟩ := (finite_le_iff hne).mp hbound
    rw [Facet.holds_ofBound hp, one_mul]
    exact hle
  · have hp : p < d.set.lower.length := (List.getElem?_eq_some_iff.mp hb).1
    have hbound := (hw.bounds p hp).1
    rw [hb, Option.getD_some] at hbound
    obtain ⟨c, rfl, hle⟩ := (le_finite_iff hne).mp hbound
    rw [Facet.holds_ofBound hp, neg_one_mul]
    exact neg_le_neg hle

/-- **Numbers that satisfy the facets satisfy the part,** if some numbers do: then no bound excludes everything. -/
theorem solves_of_facets (h : d.set.WellFormed) {w₀ w : Nat → Rat} (h₀ : d.set.Solves w₀)
    (hw : ∀ F ∈ d.facets, F.Holds d.set.lower.length w) : d.set.Solves w where
  bounds p hp := by
    obtain ⟨hlower, hupper⟩ := h₀.bounds p hp
    have hl := List.getElem?_eq_getElem hp
    have hpu : p < d.set.upper.length := h.upper.symm ▸ hp
    have hu := List.getElem?_eq_getElem hpu
    rw [hl, Option.getD_some] at hlower ⊢
    rw [hu, Option.getD_some] at hupper ⊢
    constructor
    · by_cases hne : d.set.lower[p] = negInf
      · rw [hne]; exact negInf_le _
      · obtain ⟨c, hc, -⟩ := (le_finite_iff hne).mp hlower
        have hF := hw _ (mem_facets.mpr (.inr (.inr (.inr ⟨p, _, hl, hne, rfl⟩))))
        rw [Facet.holds_ofBound hp, neg_one_mul, hc] at hF
        rw [hc]
        exact finite_le_finite.mpr (neg_le_neg_iff.mp hF)
    · by_cases hne : d.set.upper[p] = posInf
      · rw [hne]; exact le_posInf _
      · obtain ⟨c, hc, -⟩ := (finite_le_iff hne).mp hupper
        have hF := hw _ (mem_facets.mpr (.inr (.inr (.inl ⟨p, _, hu, hne, rfl⟩))))
        rw [Facet.holds_ofBound hp, one_mul, hc] at hF
        rw [hc]
        exact finite_le_finite.mpr hF
  atMost q hq := by
    have hwidth := h.width q.1 (List.mem_append_left _ (List.of_mem_zip hq).1)
    obtain ⟨c, hc, -⟩ := (finite_le_iff (h.limited q.2 (List.of_mem_zip hq).2)).mp (h₀.atMost q hq)
    have hF := hw _ (mem_facets.mpr (.inl ⟨q, hq, rfl⟩))
    rw [Facet.holds_ofRow_atMost hwidth, hc] at hF
    rw [hc]
    exact finite_le_finite.mpr hF
  equal q hq := by
    have hwidth := h.width q.1 (List.mem_append_right _ (List.of_mem_zip hq).1)
    have hF := hw _ (mem_facets.mpr (.inr (.inl ⟨q, hq, rfl⟩)))
    rw [Facet.holds_ofRow_equal hwidth, h₀.equal q hq] at hF
    rw [h₀.equal q hq, hF]
    rfl

end DualSide

end RobustLP
