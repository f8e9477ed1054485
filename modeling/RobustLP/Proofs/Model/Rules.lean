import RobustLP.Model.Edit
import RobustLP.Proofs.Model.Meets

/-!
# Decision rules

A decision rule gives each variable a base, and a slope for each parameter that its policy depends on (`DecisionRule`). The
columns of an expanded working model have room for such a rule, and for a bound of its objective (`DecisionRule.carried`): a rule
that meets the model at a realization is a point of the expanded model there (`DecisionRule.holds_carried`). Conversely, the
numbers of the columns stand for a rule (`DecisionRule.ofColumns`).
-/

namespace RobustLP

open ExtRat UncertaintySet

/-- A base for each variable, and a slope for each variable and parameter. -/
structure DecisionRule where
  base : Nat → Rat
  slope : Nat → Nat → Rat

namespace DecisionRule

/-- **The decision on a variable** at a realization: only the parameters of its policy matter. -/
def decide (d : DecisionRule) (m : Model Rat ExtRat) (u : List Rat) (j : Nat) : Rat :=
  d.base j + ((m.policyOf j).2.map fun k => d.slope j k * entries u k).sum

/-- The decisions at a realization. -/
def decisions (d : DecisionRule) (m : Model Rat ExtRat) (u : List Rat) : Lookup Rat := fun j => .ok (d.decide m u j)

end DecisionRule

namespace Model

variable (m : Model Rat ExtRat)

/-- **The parameter values that count:** the realizations. If there are none, all values do, as what does not involve parameters
has to hold in any case. -/
structure Counts (u : List Rat) : Prop where
  size : u.length = m.parameters.length
  realizes : (∃ v, m.Realizes v) → m.Realizes u

variable {m}

theorem Realizes.counts {u : List Rat} (h : m.Realizes u) : m.Counts u := ⟨h.size, fun _ => h⟩

theorem exists_counts : ∃ u, m.Counts u := by
  by_cases hsome : ∃ v, m.Realizes v
  · obtain ⟨v, hv⟩ := hsome
    exact ⟨v, hv.counts⟩
  · exact ⟨List.replicate m.parameters.length 0, List.length_replicate, fun h => absurd h hsome⟩

variable (m)

/-- **A rule that meets a model** at some parameter values: there the decisions meet all of it, and are integers where they have
to be. -/
structure MetOver (U : List Rat → Prop) (d : DecisionRule) : Prop where
  meets : ∀ u, U u → m.MeetsWithin (fun _ => 0) u (d.decisions m u)
  integral : ∀ u, U u → ∀ j v, m.decisions[j]? = some v → v.domain.isInteger = true → ∃ z : Int, d.decide m u j = z

/-- A number is an objective that a rule does not do worse than at some parameter values. -/
def BoundedOver (U : List Rat → Prop) (d : DecisionRule) (t : Rat) : Prop :=
  ∀ u, U u → m.BoundedWithin 0 u (d.decisions m u) t

end Model

/-- **The numbers of the columns that stand for a rule,** with a number for the epigraph column. -/
def DecisionRule.carried (d : DecisionRule) (wm : WorkingModel Rat ExtRat) (t : Rat) (i : Nat) : Rat :=
  match wm.auxColumns.find? (·.2 == i) with
  | some ((j, k), _) => d.slope j k
  | none => if wm.epigraphColumn = some i then t else d.base i

/-- **The rule that the numbers of the columns stand for.** -/
def DecisionRule.ofColumns (wm : WorkingModel Rat ExtRat) (x : Nat → Rat) : DecisionRule where
  base := x
  slope := Expander.auxValue wm.auxColumns x

namespace Expander

variable {m : Model Rat ExtRat}

/-- What a variable depends on is declared by its policy. -/
theorem dependsOn_eq_policyOf (hm : m.WellFormed) (j : Nat) : (ofModel m).dependsOn j = (m.policyOf j).2 := by
  unfold Model.policyOf
  cases hfind : m.affine.find? (·.1 == j) with
  | none =>
    refine dependsOn_ofModel_of_not_mem fun hj => ?_
    obtain ⟨p, hp, rfl⟩ := List.mem_map.mp hj
    exact List.find?_eq_none.mp hfind p hp (beq_self_eq_true _)
  | some p =>
    obtain ⟨j', ks⟩ := p
    obtain rfl : j' = j := by simpa using List.find?_some hfind
    exact dependsOn_ofModel hm (List.mem_of_find?_eq_some hfind)

end Expander

namespace DecisionRule

variable {m : Model Rat ExtRat} {d : DecisionRule} {wm₀ wm : WorkingModel Rat ExtRat} {t : Rat}

theorem decide_ofColumns (hm : m.WellFormed) (x : Nat → Rat) (u : List Rat) (j : Nat) :
    (ofColumns wm x).decide m u j = (Expander.ofModel m).rule wm.auxColumns x (entries u) j := by
  rw [decide, ofColumns, Expander.rule, Expander.correction, Expander.dependsOn_eq_policyOf hm]

/-- The decision on an integer variable is the same at all realizations. -/
theorem decide_of_isInteger (hm : m.WellFormed) {j : Nat} {v : Declared ExtRat} (hv : m.decisions[j]? = some v)
    (hinteger : v.domain.isInteger = true) (u : List Rat) : d.decide m u j = d.base j := by
  have hnone : m.affine.find? (·.1 == j) = none := by
    rw [List.find?_eq_none]
    intro p hp heq
    obtain rfl := eq_of_beq heq
    have hcontinuous := hm.continuous p hp v hv
    rw [hinteger] at hcontinuous
    cases hcontinuous
  rw [decide, Model.policyOf, hnone]
  exact add_zero _

section

variable (hwm : (Expander.ofModel m).Expanded wm₀ wm)
include hwm

theorem carried_aux {j k col : Nat} (h : ((j, k), col) ∈ wm.auxColumns) : d.carried wm t col = d.slope j k := by
  rw [carried, find?_of_nodup hwm.distinct h]

theorem carried_base {j : Nat} (hj : j < wm₀.program.numColumns) : d.carried wm t j = d.base j := by
  have hfind : wm.auxColumns.find? (·.2 == j) = none := by
    rw [List.find?_eq_none]
    intro q hq heq
    have hle := (hwm.new q hq).1
    rw [eq_of_beq heq] at hle
    exact absurd hj (not_lt.mpr hle)
  rw [carried, hfind]
  exact if_neg fun ht => absurd hj (not_lt.mpr (hwm.epigraphColumn j ht))

theorem carried_epigraph {i : Nat} (hi : wm.epigraphColumn = some i) : d.carried wm t i = t := by
  have hfind : wm.auxColumns.find? (·.2 == i) = none := by
    rw [List.find?_eq_none]
    intro q hq heq
    rw [← eq_of_beq heq] at hi
    exact (hwm.new q hq).2.2 hi
  rw [carried, hfind]
  exact if_pos hi

/-- **The numbers that stand for a rule** make this rule, but for variables that do not matter. -/
theorem agrees_carried (hm : m.WellFormed) (hsize : wm₀.program.numColumns = m.decisions.length) (u : List Rat) :
    (Expander.ofModel m).Agrees wm.auxColumns (d.carried wm t) (entries u)
      fun j => if j < m.decisions.length then d.decide m u j else d.carried wm t j := by
  intro j hpairs
  dsimp only
  split
  next hj =>
    rw [Expander.rule, Expander.correction, decide, carried_base hwm (hsize ▸ hj), Expander.dependsOn_eq_policyOf hm]
    congr 2
    refine List.map_congr_left fun k hk => ?_
    rw [← Expander.dependsOn_eq_policyOf hm] at hk
    obtain ⟨⟨pair, col⟩, hmem, rfl⟩ := hpairs k hk
    rw [Expander.auxValue, find?_of_nodup hwm.pairs hmem]
    exact congrArg (· * entries u k) (carried_aux hwm hmem).symm
  next hj =>
    refine (Expander.rule_of_not_adaptive _ _ _ (Bool.eq_false_iff.mpr fun had => hj ?_)).symm
    exact Expander.lt_of_isAdaptive (Expander.fits_ofModel hm) had

/-- **A rule that meets the model at a realization** is a point of the expanded model there, as long as the number for the
epigraph column bounds its objective. -/
theorem holds_carried (hm : m.WellFormed) (hmirrors : wm₀.Mirrors m) {u : List Rat} (hu : u.length = m.parameters.length)
    (hmeets : m.MeetsWithin (fun _ => 0) u (d.decisions m u)) (hbound : m.BoundedWithin 0 u (d.decisions m u) t) :
    wm.HoldsWithin (fun _ => 0) (fun _ => 0) (d.carried wm t) (entries u) := by
  have hX : ∀ j < m.decisions.length, d.decisions m u j
      = .ok (if j < m.decisions.length then d.decide m u j else d.carried wm t j) := by
    intro j hj
    rw [decisions, if_pos hj]
  have hagrees := hwm.agrees (fun _ => 0) _ _ _ (agrees_carried (d := d) (t := t) hwm hm hmirrors.numColumns u)
  rw [Expander.slackFor_zero] at hagrees
  refine hagrees.mpr ⟨WorkingModel.holds_iff_holdsWithin.mp (Model.holds_of_meetsWithin hm hmirrors hX hmeets), fun i hi => ?_⟩
  obtain ⟨q, hq, hpessimistic⟩ := hbound
  cases (Model.evaluate_eq_value hm.objective hu hX).symm.trans hq
  rw [carried_epigraph hwm hi, hmirrors.sense, hmirrors.objective.value]
  exact hpessimistic

/-- Without epigraph column, the objective of the program is that of the rule at every realization. -/
theorem objectiveAt_carried (hm : m.WellFormed) (hmirrors : wm₀.Mirrors m) {u : List Rat} (hu : u.length = m.parameters.length)
    (hnone : wm.epigraphColumn = none) :
    m.objective.evaluate (fun k => Lookup.ofList u k.index) (fun v => d.decisions m u v.index)
      = .ok (wm.program.objectiveAt (d.carried wm t)) := by
  have hX : ∀ j < m.decisions.length, d.decisions m u j
      = .ok (if j < m.decisions.length then d.decide m u j else d.carried wm t j) := by
    intro j hj
    rw [decisions, if_pos hj]
  rw [Model.evaluate_eq_value hm.objective hu hX,
    hwm.directAgrees hnone _ _ _ (agrees_carried hwm hm hmirrors.numColumns u), hmirrors.objective.value]

/-- The numbers of the columns of integers are integers. -/
theorem integral_carried (hm : m.WellFormed) (hmirrors : wm₀.Mirrors m) (hd : m.MetOver m.Counts d) :
    wm.program.Integral (d.carried wm t) := by
  intro j c hc hinteger
  obtain ⟨c₀, hc₀, hinteger₀⟩ := (hwm.integers j).mp ⟨c, hc, hinteger⟩
  rw [carried_base hwm (List.getElem?_eq_some_iff.mp hc₀).1]
  rw [hmirrors.columns] at hc₀
  obtain ⟨v, hv, rfl⟩ := Model.mem_columnTable.mp hc₀
  obtain ⟨u, hu⟩ := Model.exists_counts (m := m)
  rw [← decide_of_isInteger hm hv hinteger₀ u]
  exact hd.integral u hu j v hv hinteger₀

end

end DecisionRule

end RobustLP
