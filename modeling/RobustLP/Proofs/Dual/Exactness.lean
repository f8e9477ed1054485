import RobustLP.Proofs.Dual.Facets
import RobustLP.Proofs.Multipliers

/-!
# Dualization is exact

A mixed row is replaced by conditions on multipliers. This loses nothing and allows nothing:

* if the reformulation of a row holds for some multipliers, the row holds at every point of the set (`dualize_sound`);
* if a row holds at every point of a set that has one, and no parameter is an integer, there are multipliers for which the
  reformulation holds (`dualize_complete`).

Both are shown for one side of a row over the part of the set that concerns it, and carried over to the whole set: its
points give points of the part, and points of the part extend to points of the set.
-/

namespace RobustLP

open ExtRat UncertaintySet

/-! ## Weighing facets -/

section

variable {n : Nat} {w y Y : Nat → Rat}

/-- A weighted sum of columns times numbers is the weighted sum of the left-hand sides. -/
theorem sum_weigh_coef (n : Nat) (w y : Nat → Rat) (start : Nat) (Fs : List Facet) :
    ∑ p ∈ Finset.range n, weigh y start (Fs.map (·.coef p)) * w p = weigh y start (Fs.map (·.value n w)) := by
  simp only [weigh_eq_sum, List.length_map, Finset.sum_mul]
  rw [Finset.sum_comm]
  refine Finset.sum_congr rfl fun i hi => ?_
  have hi : i < Fs.length := Finset.mem_range.mp hi
  simp only [List.getElem?_map, List.getElem?_eq_getElem hi, Option.map_some, Option.getD_some, Facet.value,
    Finset.sum_mul]
  exact Finset.sum_congr rfl fun p _ => by ring

/-- **Allowed multipliers of facets that hold weigh the left-hand sides by at most the bounds.** -/
theorem weigh_value_le (start : Nat) (Fs : List Facet) (hy : ∀ q ∈ Fs.zipIdx start, q.1.Allows (y q.2))
    (hw : ∀ F ∈ Fs, F.Holds n w) : weigh y start (Fs.map (·.value n w)) ≤ weigh y start (Fs.map (·.bound)) := by
  simp only [weigh, List.zipIdx_map, List.map_map]
  refine List.sum_le_sum fun q hq => ?_
  have hF := hw q.1 (List.fst_mem_of_mem_zipIdx hq)
  dsimp only [Function.comp, Prod.map]
  rw [Facet.Holds] at hF
  split at hF
  next => rw [hF]
  next hne => exact mul_le_mul_of_nonneg_right hF (hy q hq (Bool.eq_false_iff.mpr hne))

theorem weigh_shift {start : Nat} {as : List Rat} (h : ∀ i < as.length, y (start + i) = Y i) :
    weigh y start as = weigh Y 0 as := by
  rw [weigh_eq_sum, weigh_eq_sum]
  refine Finset.sum_congr rfl fun i hi => ?_
  rw [h i (Finset.mem_range.mp hi), Nat.zero_add]

/-- The factor of a facet as inequality: equalities are also taken with the opposite sign. -/
def sign (F : Facet) (opposite : Bool) : Rat := if opposite && F.equality then -1 else 1

theorem holds_iff_forall_sign {F : Facet} :
    F.Holds n w ↔ ∀ b, sign F b * F.value n w ≤ sign F b * F.bound := by
  rw [Bool.forall_bool, Facet.Holds, sign, sign]
  cases F.equality with
  | false => simp
  | true =>
    simp only [Bool.and_true, Bool.false_eq_true, if_true, if_false, one_mul, neg_one_mul, neg_le_neg_iff]
    exact le_antisymm_iff

/-- Facets as a system of inequalities. -/
theorem forall_holds_iff {Fs : List Facet} : (∀ F ∈ Fs, F.Holds n w) ↔
    ∀ i : Fin Fs.length × Bool,
      ∑ p ∈ Finset.range n, sign Fs[i.1] i.2 * Fs[i.1].coef p * w p ≤ sign Fs[i.1] i.2 * Fs[i.1].bound := by
  have hsum : ∀ i : Fin Fs.length × Bool, ∑ p ∈ Finset.range n, sign Fs[i.1] i.2 * Fs[i.1].coef p * w p
      = sign Fs[i.1] i.2 * Fs[i.1].value n w := by
    intro i
    rw [Facet.value, Finset.mul_sum]
    exact Finset.sum_congr rfl fun p _ => mul_assoc ..
  simp only [hsum, holds_iff_forall_sign, List.forall_mem_iff_getElem, Prod.forall, Fin.forall_iff]
  rfl

/-- The weight of a facet, from the multipliers of its inequalities. -/
def weightOf (Fs : List Facet) (z : Fin Fs.length × Bool → Rat) (i : Nat) : Rat :=
  if h : i < Fs.length then ∑ b, z (⟨i, h⟩, b) * sign Fs[i] b else 0

theorem weigh_weightOf (Fs : List Facet) (z : Fin Fs.length × Bool → Rat) (g : Facet → Rat) :
    weigh (weightOf Fs z) 0 (Fs.map g) = ∑ i, z i * (sign Fs[i.1] i.2 * g Fs[i.1]) := by
  rw [weigh_eq_sum, List.length_map, Finset.sum_range, Fintype.sum_prod_type]
  refine Finset.sum_congr rfl fun i _ => ?_
  rw [Nat.zero_add, weightOf, dif_pos i.isLt, Finset.mul_sum, List.getElem?_map, List.getElem?_eq_getElem i.isLt]
  refine Finset.sum_congr rfl fun b _ => ?_
  dsimp only [Option.map_some, Option.getD_some, Fin.getElem_fin]
  ring

theorem weightOf_allowed {Fs : List Facet} {z : Fin Fs.length × Bool → Rat} (hz : ∀ i, 0 ≤ z i) :
    ∀ q ∈ Fs.zipIdx, q.1.Allows (weightOf Fs z q.2) := by
  intro q hq hne
  obtain ⟨hlt, hFq⟩ := List.getElem?_eq_some_iff.mp (List.mem_zipIdx_iff_getElem?.mp hq)
  rw [weightOf, dif_pos hlt, Fintype.sum_bool]
  simp only [sign, hFq, hne, Bool.and_false, Bool.false_eq_true, if_false, mul_one]
  exact add_nonneg (hz _) (hz _)

/-- **A bound that follows from facets which hold somewhere is reached by weights.** -/
theorem exists_weights (Fs : List Facet) {c : Nat → Rat} {d : Rat} (hne : ∃ w, ∀ F ∈ Fs, F.Holds n w)
    (himp : ∀ w, (∀ F ∈ Fs, F.Holds n w) → ∑ p ∈ Finset.range n, c p * w p ≤ d) :
    ∃ Y : Nat → Rat, (∀ q ∈ Fs.zipIdx, q.1.Allows (Y q.2)) ∧ (∀ p < n, weigh Y 0 (Fs.map (·.coef p)) = c p)
      ∧ weigh Y 0 (Fs.map (·.bound)) ≤ d := by
  simp only [forall_holds_iff] at hne himp
  obtain ⟨z, hz, hcoef, hbound⟩ := Inequality.exists_multipliers hne himp
  refine ⟨weightOf Fs z, weightOf_allowed hz, fun p hp => ?_, ?_⟩
  · rw [weigh_weightOf Fs z (·.coef p)]
    exact hcoef p hp
  · rw [weigh_weightOf Fs z (·.bound)]
    exact hbound

end

/-! ## One side of a row -/

namespace DualSide

variable {d : DualSide Rat ExtRat} {f : MixedForm Rat} {limit : ExtRat} {x y w : Nat → Rat}

/-- A side as it is made: a part of a set, and one parameter for each of its positions. -/
structure WellFormed (d : DualSide Rat ExtRat) : Prop where
  set : d.set.WellFormed
  positions : d.parameters.length = d.set.lower.length

/-- The value of a form at numbers of the positions. -/
def valueAt (d : DualSide Rat ExtRat) (f : MixedForm Rat) (x w : Nat → Rat) : Rat :=
  f.level x + ∑ p ∈ Finset.range d.set.lower.length, f.slope x (d.parameterAt p) * w p

/-- What a reformulation says of the weights of the facets. -/
theorem reformulation_holds_iff (h : d.WellFormed) : (d.reformulation f limit).HoldsFrom x y d.offset ↔
    (∀ q ∈ d.facets.zipIdx d.offset, q.1.Allows (y q.2))
      ∧ le (finite (f.level x + weigh y d.offset (d.facets.map (·.bound)))) limit = true
      ∧ ∀ p < d.set.lower.length, weigh y d.offset (d.facets.map (·.coef p)) = f.slope x (d.parameterAt p) := by
  rw [← inBounds_auxiliaries h.set, ← objectiveRow_holds h.set, ← h.positions]
  have hrows : (∀ p < d.parameters.length, weigh y d.offset (d.facets.map (·.coef p)) = f.slope x (d.parameterAt p))
      ↔ ∀ r ∈ d.dualRows f, r.Holds x y := by
    rw [dualRows_hold h.set, List.forall_mem_iff_getElem]
    simp only [List.length_zipIdx]
    refine forall₂_congr fun p hp => ?_
    rw [List.getElem_zipIdx, parameterAt, List.getElem?_eq_getElem hp, Option.getD_some, Nat.zero_add]
  rw [hrows]
  constructor
  · rintro ⟨hbounds, hall⟩
    exact ⟨hbounds, hall _ List.mem_cons_self, fun r hr => hall r (List.mem_cons_of_mem _ hr)⟩
  · rintro ⟨hbounds, hobjective, hdual⟩
    exact ⟨hbounds, List.forall_mem_cons.mpr ⟨hobjective, hdual⟩⟩

/-- **A reformulation that holds bounds the form** at all numbers that satisfy the part. -/
theorem valueAt_le (h : d.WellFormed) (hold : (d.reformulation f limit).HoldsFrom x y d.offset)
    (hw : d.set.Solves w) : le (finite (d.valueAt f x w)) limit = true := by
  obtain ⟨hallowed, hlimit, hslope⟩ := (reformulation_holds_iff h).mp hold
  have hle := weigh_value_le d.offset d.facets hallowed (solves_facets h.set hw)
  refine finite_le_of_le ?_ hlimit
  calc d.valueAt f x w
      = f.level x + ∑ p ∈ Finset.range d.set.lower.length, weigh y d.offset (d.facets.map (·.coef p)) * w p := by
        rw [valueAt]
        congr 1
        exact Finset.sum_congr rfl fun p hp => by rw [hslope p (Finset.mem_range.mp hp)]
    _ = f.level x + weigh y d.offset (d.facets.map (·.value d.set.lower.length w)) := by rw [sum_weigh_coef]
    _ ≤ f.level x + weigh y d.offset (d.facets.map (·.bound)) := by gcongr

theorem length_auxiliaries (h : d.set.WellFormed) : d.auxiliaries.length = d.facets.length := by
  simp [auxiliaries, facets, h.atMost, h.equal]

/-- **A form that stays below a limit has a reformulation that holds,** with any values elsewhere. -/
theorem exists_reformulation (h : d.WellFormed) (hlimit : limit ≠ posInf) {w₀ : Nat → Rat} (h₀ : d.set.Solves w₀)
    (hle : ∀ w, d.set.Solves w → le (finite (d.valueAt f x w)) limit = true) :
    ∃ Y : Nat → Rat, ∀ y, (∀ i < d.auxiliaries.length, y (d.offset + i) = Y i) →
      (d.reformulation f limit).HoldsFrom x y d.offset := by
  obtain ⟨L, rfl, -⟩ := (finite_le_iff hlimit).mp (hle w₀ h₀)
  obtain ⟨Y, hallowed, hcoef, hbound⟩ := exists_weights d.facets (n := d.set.lower.length)
    (c := fun p => f.slope x (d.parameterAt p)) (d := L - f.level x) ⟨w₀, solves_facets h.set h₀⟩ fun w hw => by
      have hfinite := finite_le_finite.mp (hle w (solves_of_facets h.set h₀ hw))
      rw [valueAt] at hfinite
      linarith
  refine ⟨Y, fun y hy => (reformulation_holds_iff h).mpr ⟨?_, ?_, fun p hp => ?_⟩⟩
  · intro q hq
    rw [List.zipIdx_eq_map_add, List.mem_map] at hq
    obtain ⟨r, hr, rfl⟩ := hq
    have hlt := (List.getElem?_eq_some_iff.mp (List.mem_zipIdx_iff_getElem?.mp hr)).1
    dsimp only [Prod.map]
    rw [hy r.2 (length_auxiliaries h.set ▸ hlt)]
    exact hallowed r hr
  · rw [length_auxiliaries h.set] at hy
    rw [weigh_shift (by rwa [List.length_map]), finite_le_finite]
    linarith
  · rw [length_auxiliaries h.set] at hy
    rw [weigh_shift (by rwa [List.length_map])]
    exact hcoef p hp

end DualSide

/-! ## The whole row -/

namespace UncertaintySet

variable {s : UncertaintySet Rat ExtRat} {row : MixedRow Rat ExtRat} {x y : Nat → Rat}

/-- A row over a set: its form is tabular and its parameters are those of the set. -/
structure Covers (s : UncertaintySet Rat ExtRat) (row : MixedRow Rat ExtRat) : Prop where
  tabular : row.form.Tabular
  parameters : ∀ k ∈ row.form.parameters, k < s.numParameters

/-- The side that is dualized for some parameters. -/
def side (s : UncertaintySet Rat ExtRat) (ks : List Nat) (tag : String) (offset : Nat) : DualSide Rat ExtRat :=
  { set := s.restrict ks, parameters := ks, tag, offset }

theorem side_wellFormed (hs : s.WellFormed) (ks : List Nat) (tag : String) (offset : Nat) :
    (s.side ks tag offset).WellFormed where
  set := hs.restrict ks
  positions := (s.length_restrict_lower ks).symm

/-- The value of a form on the part of its parameters is its value. -/
theorem valueAt_side {f : MixedForm Rat} (hf : f.Tabular)
    {wanted : List Nat} (hin : ∀ k ∈ f.parameters, k ∈ s.componentOf wanted) (tag : String) (offset : Nat)
    {v w : Nat → Rat} (hw : ∀ p < (s.componentOf wanted).length, atPosition (s.componentOf wanted) v p = w p) :
    (s.side (s.componentOf wanted) tag offset).valueAt f x w = f.value x v := by
  have hks := s.nodup_componentOf wanted
  rw [MixedForm.value_eq_level_add hf hks hin, DualSide.valueAt, side, length_restrict_lower,
    ← sum_positions _ fun k => f.slope x k * v k]
  congr 1
  refine Finset.sum_congr rfl fun p hp => ?_
  rw [← hw p (Finset.mem_range.mp hp)]
  rfl

/-- A side that holds bounds its form at the points of the set. -/
theorem value_le_of_side (hs : s.WellFormed) {f : MixedForm Rat} (hf : f.Tabular) {wanted : List Nat}
    (hin : ∀ k ∈ f.parameters, k ∈ s.componentOf wanted) {tag : String} {offset : Nat} {limit : ExtRat}
    (hold : ((s.side (s.componentOf wanted) tag offset).reformulation f limit).HoldsFrom x y offset)
    {v : Nat → Rat} (hv : s.Solves v) : le (finite (f.value x v)) limit = true := by
  have hlt : ∀ k ∈ s.componentOf wanted, k < s.numParameters := fun k hk => ((mem_componentOf hs.width).mp hk).1
  rw [← valueAt_side hf hin tag offset fun _ _ => rfl]
  exact DualSide.valueAt_le (side_wellFormed hs _ tag offset) hold (hv.restrict (s.nodup_componentOf wanted) hlt)

/-- A form that stays below a limit at the points of a set has a side that holds. -/
theorem exists_side (hs : s.WellFormed) {f : MixedForm Rat} (hf : f.Tabular) {wanted : List Nat}
    (hin : ∀ k ∈ f.parameters, k ∈ s.componentOf wanted) (tag : String) (offset : Nat) {limit : ExtRat}
    (hlimit : limit ≠ posInf) {v₀ : Nat → Rat} (h₀ : s.Solves v₀)
    (hle : ∀ v, s.Solves v → le (finite (f.value x v)) limit = true) :
    ∃ Y : Nat → Rat, ∀ y, (∀ i < (s.side (s.componentOf wanted) tag offset).auxiliaries.length, y (offset + i) = Y i) →
      ((s.side (s.componentOf wanted) tag offset).reformulation f limit).HoldsFrom x y offset := by
  have hks := s.nodup_componentOf wanted
  have hlt : ∀ k ∈ s.componentOf wanted, k < s.numParameters := fun k hk => ((mem_componentOf hs.width).mp hk).1
  refine DualSide.exists_reformulation (side_wellFormed hs _ tag offset) hlimit (h₀.restrict hks hlt) fun w hw => ?_
  rw [valueAt_side hf hin tag offset fun p hp => atPosition_splice hks w v₀ hp]
  exact hle _ (h₀.splice hs hw)

/-- A row in the form in which its lower side is dualized. -/
theorem le_value_iff (v : Nat → Rat) :
    le (finite ((row.form.scaled Scalar.minusOne).value x v)) (Bound.neg row.lower) = true
      ↔ le row.lower (finite (row.form.value x v)) = true := by
  rw [MixedForm.value_scaled, exact_minusOne, exact_neg, finite_le_neg, neg_one_mul, Rat.neg_neg]

/-- **The two forms of a reformulation:** a row without parameters as it is, or both sides dualized. -/
theorem dualize_cases (hs : s.WellFormed) (h : s.Covers row) :
    (row.form.parameters = [] ∧ ∃ r, row.auxRow (Lookup.ofList []) row.name = .ok r
        ∧ s.dualize row = .ok { constraints := [r] })
      ∨ ∃ tag, s.dualize row = .ok ((s.dualizeUpper (s.componentOf row.form.parameters) tag row).append
          (s.dualizeLower (s.componentOf row.form.parameters) tag
            (s.dualizeUpper (s.componentOf row.form.parameters) tag row).auxiliaries.length row)) := by
  unfold dualize
  split
  next hnil =>
    have hnone : row.form.parameters = [] := by
      refine List.eq_nil_iff_forall_not_mem.mpr fun k hk => ?_
      have hmem := mem_componentOf_self hs.width hk (h.parameters k hk)
      rw [hnil] at hmem
      exact List.not_mem_nil hmem
    have hdefined : row.form.Defined (Lookup.ofList []) := by
      intro k hk
      rw [hnone] at hk
      exact absurd hk List.not_mem_nil
    have hrow : ∃ r, row.auxRow (Lookup.ofList []) row.name = .ok r :=
      ⟨_, bind_eq_ok.mpr ⟨_, MixedRow.specialize_eq_ok_iff.mpr ⟨hdefined, rfl⟩, rfl⟩⟩
    obtain ⟨r, hr⟩ := hrow
    exact .inl ⟨hnone, r, hr, by rw [hr]; rfl⟩
  next ks hne => exact .inr ⟨_, rfl⟩

/-- A row over a set has a value at every list with as many numbers as the set has parameters. -/
theorem evaluate_eq_value (h : s.Covers row) (x : Nat → Rat) {u : List Rat} (hu : u.length = s.numParameters) :
    row.form.evaluate (Lookup.total x) (Lookup.ofList u) = .ok (row.form.value x (entries u)) := by
  rw [← number_ofList u]
  refine MixedForm.evaluate_eq_ok (fun t _ => ⟨_, rfl⟩) fun k hk => ?_
  exact ⟨_, Lookup.ofList_of_lt (hu.symm ▸ h.parameters k hk : k < u.length)⟩

/-- A reformulation that holds bounds its row at all numbers that satisfy the bounds and rows of the set. -/
theorem between_of_holds (hs : s.WellFormed) (h : s.Covers row) {f : Reformulation Rat ExtRat}
    (hf : s.dualize row = .ok f) (hold : f.Holds x y) {v : Nat → Rat} (hv : s.Solves v) :
    Between row.lower row.upper (row.form.value x v) := by
  rcases dualize_cases hs h with ⟨hnone, r, hr, hf'⟩ | ⟨tag, hf'⟩
  · cases hf.symm.trans hf'
    have hrow := (MixedRow.auxRow_holds hr x y).mp (hold.rows r List.mem_cons_self)
    rwa [MixedForm.value_congr (fun _ _ => rfl) fun k hk => absurd hk (hnone ▸ List.not_mem_nil)] at hrow
  · cases hf.symm.trans hf'
    obtain ⟨hupper, hlower⟩ := Reformulation.holdsFrom_append.mp hold
    have hin : ∀ k ∈ row.form.parameters, k ∈ s.componentOf row.form.parameters :=
      fun k hk => mem_componentOf_self hs.width hk (h.parameters k hk)
    constructor
    · by_cases hb : Bound.isLower row.lower = true
      · rw [dualizeLower, if_pos hb, Nat.zero_add] at hlower
        refine (le_value_iff _).mp (value_le_of_side hs (MixedForm.tabular_scaled h.tabular _) ?_ hlower hv)
        rwa [MixedForm.parameters_scaled]
      · rw [not_not.mp (mt isLower_iff.mpr hb)]
        exact negInf_le _
    · by_cases hb : Bound.isUpper row.upper = true
      · rw [dualizeUpper, if_pos hb] at hupper
        exact value_le_of_side hs h.tabular hin hupper hv
      · rw [not_not.mp (mt isUpper_iff.mpr hb)]
        exact le_posInf _

/-- A row over a set has a reformulation. -/
theorem exists_dualize (hs : s.WellFormed) (h : s.Covers row) : ∃ f, s.dualize row = .ok f := by
  rcases dualize_cases hs h with ⟨-, r, -, hf⟩ | ⟨tag, hf⟩
  · exact ⟨_, hf⟩
  · exact ⟨_, hf⟩

/-- **Dualization is sound.** A row over a set always has a reformulation. If it holds for numbers of the columns and of its
auxiliary columns, then at every point of the set the row has a value, which lies between its bounds. -/
theorem dualize_sound (hs : s.WellFormed) (h : s.Covers row) :
    ∃ f, s.dualize row = .ok f ∧ ∀ x y : Nat → Rat, f.Holds x y →
      ∀ u : List Rat, u.length = s.numParameters → s.Solves (entries u) →
        ∃ q, row.form.evaluate (Lookup.total x) (Lookup.ofList u) = .ok q ∧ Between row.lower row.upper q := by
  obtain ⟨f, hf⟩ := exists_dualize hs h
  refine ⟨f, hf, fun x y hold u hu hsolves => ⟨_, evaluate_eq_value h x hu, ?_⟩⟩
  exact between_of_holds hs h hf hold hsolves

/-- Two parameters that share a budget, and a third one without bounds. -/
def budgetSet : UncertaintySet Rat ExtRat :=
  { lower := [finite 0, finite 0, negInf], upper := [finite 1, posInf, posInf], integer := [false, false, false]
    names := ["a", "b", "c"], atMostRows := [[1, 1, 0]], atMostBounds := [finite 1] }

/-- The row `-1 ≤ (1 + a) x + 2 b ≤ 5`. -/
def budgetRow : MixedRow Rat ExtRat :=
  { form := { linear := [(0, { linear := [(0, 1)], constant := 1 })], constant := { linear := [(1, 2)], constant := 0 } }
    lower := finite (-1), upper := finite 5 }

theorem budgetSet_wellFormed : budgetSet.WellFormed where
  upper := rfl
  integer := rfl
  atMost := rfl
  equal := rfl
  width := by decide
  limited := by decide

theorem budgetSet_covers : budgetSet.Covers budgetRow where
  tabular := ⟨by decide, by simp [budgetRow, Form.Tabular], by simp [budgetRow, Form.Tabular]⟩
  parameters k hk := by
    have h : budgetRow.form.parameters = [0, 1] := by cbv
    rw [h] at hk
    fin_cases hk <;> decide

theorem budgetSet_admits : budgetSet.Admits [1 / 4, 3 / 4, 10] := (contains_zero_iff budgetSet_wellFormed).mp (by cbv)

/-- At the dual point of the row its bounds hold at a point of the set. -/
theorem dualize_sound_budget : ∃ q, budgetRow.form.evaluate (Lookup.total fun _ => 1) (Lookup.ofList [1 / 4, 3 / 4, 10])
    = .ok q ∧ Between (finite (-1)) (finite 5) q := by
  obtain ⟨f, hf, hsound⟩ := dualize_sound budgetSet_wellFormed budgetSet_covers
  have hold : (budgetSet.dualize budgetRow).toOption.all
      (fun g => decide (g.Holds (fun _ => 1) (entries [2, 0, 1, 0, 0, 0, 1, 2]))) = true := by cbv
  rw [hf] at hold
  exact hsound _ _ (of_decide_eq_true hold) _ rfl budgetSet_admits.solves

/-- Values of the auxiliary columns for which the upper side of a robust row holds. -/
theorem exists_upper (hs : s.WellFormed) (h : s.Covers row) (tag : String) {v₀ : Nat → Rat} (h₀ : s.Solves v₀)
    (hle : ∀ v, s.Solves v → Between row.lower row.upper (row.form.value x v)) :
    ∃ Y : Nat → Rat, ∀ y,
      (∀ i < (s.dualizeUpper (s.componentOf row.form.parameters) tag row).auxiliaries.length, y i = Y i) →
        (s.dualizeUpper (s.componentOf row.form.parameters) tag row).HoldsFrom x y 0 := by
  unfold dualizeUpper
  split
  next hb =>
    obtain ⟨Y, hY⟩ := exists_side hs h.tabular (fun k hk => mem_componentOf_self hs.width hk (h.parameters k hk))
      (tag ++ ".ub") 0 (isUpper_iff.mp hb) h₀ fun v hv => (hle v hv).2
    exact ⟨Y, fun y hy => hY y fun i hi => by rw [Nat.zero_add]; exact hy i hi⟩
  next => exact ⟨0, fun _ _ => ⟨by simp [InBounds], by simp⟩⟩

/-- The same for the lower side, whose auxiliary columns come after others. -/
theorem exists_lower (hs : s.WellFormed) (h : s.Covers row) (tag : String) (offset : Nat) {v₀ : Nat → Rat}
    (h₀ : s.Solves v₀) (hle : ∀ v, s.Solves v → Between row.lower row.upper (row.form.value x v)) :
    ∃ Y : Nat → Rat, ∀ y, (∀ i, y (offset + i) = Y i) →
      (s.dualizeLower (s.componentOf row.form.parameters) tag offset row).HoldsFrom x y offset := by
  unfold dualizeLower
  split
  next hb =>
    have hneg : Bound.neg row.lower ≠ posInf := by
      intro heq
      refine isLower_iff.mp hb ?_
      rw [exact_neg] at heq
      rw [← ExtRat.neg_neg row.lower, heq]
      rfl
    obtain ⟨Y, hY⟩ := exists_side hs (MixedForm.tabular_scaled h.tabular Scalar.minusOne)
      (fun k hk => by
        rw [MixedForm.parameters_scaled] at hk
        exact mem_componentOf_self hs.width hk (h.parameters k hk))
      (tag ++ ".lb") offset hneg h₀ fun v hv => (le_value_iff v).mpr (hle v hv).1
    exact ⟨Y, fun y hy => hY y fun i _ => hy i⟩
  next => exact ⟨0, fun _ _ => ⟨by simp [InBounds], by simp⟩⟩

/-- **Dualization is complete.** If a set without integer parameters has a point, and for some numbers of the columns a row
lies between its bounds at every point, then its reformulation holds for some numbers of the auxiliary columns. -/
theorem dualize_complete (hs : s.WellFormed) (h : s.Covers row) (hcontinuous : s.hasInteger = false)
    (hne : ∃ u, s.Admits u) (x : Nat → Rat)
    (hrobust : ∀ u, s.Admits u →
      ∃ q, row.form.evaluate (Lookup.total x) (Lookup.ofList u) = .ok q ∧ Between row.lower row.upper q) :
    ∃ f, s.dualize row = .ok f ∧ ∃ y, f.Holds x y := by
  obtain ⟨u₀, h₀⟩ := hne
  have hbetween : ∀ v, s.Solves v → Between row.lower row.upper (row.form.value x v) := by
    intro v hv
    obtain ⟨q, hq, hb⟩ := hrobust _ (hv.admits hs hcontinuous)
    rw [MixedForm.eq_value_of_evaluate hq, number_ofList, Lookup.number_total,
      MixedForm.value_congr (fun _ _ => rfl) fun k hk => entries_map_range _ v (h.parameters k hk)] at hb
    exact hb
  rcases dualize_cases hs h with ⟨hnone, r, hr, hf⟩ | ⟨tag, hf⟩
  · refine ⟨_, hf, 0, by simp [InBounds], fun r' hr' => ?_⟩
    rw [List.mem_singleton.mp hr', MixedRow.auxRow_holds hr,
      MixedForm.value_congr (fun _ _ => rfl) fun k hk => absurd hk (hnone ▸ List.not_mem_nil)]
    exact hbetween _ h₀.solves
  · obtain ⟨Y, hY⟩ := exists_upper (x := x) hs h tag h₀.solves hbetween
    obtain ⟨Z, hZ⟩ := exists_lower (x := x) hs h tag
      (s.dualizeUpper (s.componentOf row.form.parameters) tag row).auxiliaries.length h₀.solves hbetween
    -- the upper side takes the first auxiliary columns, the lower side those behind
    refine ⟨_, hf, fun i =>
      if i < (s.dualizeUpper (s.componentOf row.form.parameters) tag row).auxiliaries.length then Y i
      else Z (i - (s.dualizeUpper (s.componentOf row.form.parameters) tag row).auxiliaries.length), ?_⟩
    refine Reformulation.holdsFrom_append.mpr ⟨hY _ fun i hi => if_pos hi, ?_⟩
    rw [Nat.zero_add]
    exact hZ _ fun i => by simp

theorem dualize_complete_budget : ∃ f, budgetSet.dualize budgetRow = .ok f ∧ ∃ y, f.Holds (fun _ => 1) y := by
  refine dualize_complete budgetSet_wellFormed budgetSet_covers rfl ⟨_, budgetSet_admits⟩ _ fun u hu => ?_
  obtain ⟨a, b, c, rfl⟩ := List.length_eq_three.mp hu.size
  have ha : 0 ≤ a ∧ a ≤ 1 := by simpa [Between, budgetSet, entries] using hu.solves.bounds 0 (by decide)
  have hb : 0 ≤ b := by simpa [Between, budgetSet, entries] using hu.solves.bounds 1 (by decide)
  have hab : a + b ≤ 1 := by
    simpa [budgetSet, entries, dot, Finset.sum_range_succ] using hu.solves.atMost ([1, 1, 0], finite 1) (by decide)
  refine ⟨1 + a + 2 * b, ?_, ?_⟩
  · rw [evaluate_eq_value budgetSet_covers _ hu.size]
    simp only [budgetRow, MixedForm.value, Form.value, entries, List.map_cons, List.map_nil, List.sum_cons, List.sum_nil,
      List.getElem?_cons_zero, List.getElem?_cons_succ, Option.getD_some, Except.ok.injEq]
    ring
  · simp only [budgetRow, Between, finite_le_finite]
    constructor <;> linarith

end UncertaintySet

end RobustLP
