import RobustLP.Proofs.Expand.Meaning
import RobustLP.Proofs.Model.Rows

/-!
# Decisions that meet a model

Decisions meet a model at a realization when all bounds, deterministic and uncertain constraints hold there, up to a slack for
each oracle (`Model.MeetsWithin`). Decisions that follow the rules of a point of the expanded working model do so
(`Model.meetsWithin_of_holdsWithin`), and decisions that do so exactly are a point of the working model
(`Model.holds_of_meetsWithin`).
-/

namespace RobustLP

open ExtRat UncertaintySet

/-! ## The expander of a model -/

namespace Expander

variable {m : Model Rat ExtRat}

theorem fits_ofModel (hm : m.WellFormed) : (ofModel m).Fits m.decisions.length where
  columns p hp := (hm.adaptive p (List.mem_filter.mp hp).1).1
  names p hp k hk := by
    have hlt := (hm.adaptive p (List.mem_filter.mp hp).1).2 k hk
    refine ⟨m.parameterName k, ?_⟩
    unfold namesOr ofModel make
    dsimp only
    rw [List.getElem?_map, List.getElem?_range hlt]
    rfl

theorem dependsOn_eq_lookup? (e : Expander) (j : Nat) : e.dependsOn j = (lookup? j e.policies).getD [] := by
  unfold dependsOn lookup?
  cases e.policies.find? (·.1 == j) with
  | none => rfl
  | some p => rfl

/-- A variable with a policy depends on the parameters of the policy. -/
theorem dependsOn_ofModel (hm : m.WellFormed) {j : Nat} {ks : List Nat} (h : (j, ks) ∈ m.affine) :
    (ofModel m).dependsOn j = ks := by
  have hpolicies : (ofModel m).policies = m.affine.filter fun e => !e.2.isEmpty := rfl
  have hnodup : (keys (ofModel m).policies).Nodup := hm.distinct.sublist (List.filter_sublist.map _)
  rw [dependsOn_eq_lookup?]
  by_cases hks : ks = []
  · -- a policy without parameters was left out
    have hnone : lookup? j (ofModel m).policies = none := by
      rw [lookup?_eq_none_iff]
      intro hj
      obtain ⟨p, hp, hpj⟩ := List.mem_map.mp hj
      obtain ⟨hmem, hne⟩ := List.mem_filter.mp (hpolicies ▸ hp)
      have hsome : some p.2 = some ks := by
        rw [← lookup?_of_mem hm.distinct hmem, ← lookup?_of_mem hm.distinct h, hpj]
      rw [Option.some.inj hsome, hks] at hne
      cases hne
    rw [hnone, hks]
    rfl
  · have hmem : (j, ks) ∈ (ofModel m).policies := by
      rw [hpolicies, List.mem_filter]
      exact ⟨h, by simpa using hks⟩
    have hlookup := lookup?_of_mem hnodup hmem
    rw [hlookup]
    rfl

/-- A variable without policy depends on nothing. -/
theorem dependsOn_ofModel_of_not_mem {j : Nat} (h : j ∉ keys m.affine) : (ofModel m).dependsOn j = [] := by
  have hnone : lookup? j (ofModel m).policies = none :=
    lookup?_eq_none_iff.mpr fun hj => h ((List.filter_sublist.map _).subset hj)
  rw [dependsOn_eq_lookup?, hnone]
  rfl

end Expander

namespace Model

/-- The slack of constraints and bounds without parameters: that of the default oracle if a variable with a policy is
concerned, and otherwise none. -/
def slackFor (m : Model Rat ExtRat) (slack : Option OracleId → Rat) (js : List Nat) : Rat :=
  (Expander.ofModel m).slackFor slack js

/-- **Decisions meet a model at a realization,** up to a slack for each oracle: all bounds of variables, all deterministic and
all uncertain constraints hold. -/
structure MeetsWithin (m : Model Rat ExtRat) (slack : Option OracleId → Rat) (u : List Rat) (X : Lookup Rat) : Prop where
  bounds : ∀ j d, m.decisions[j]? = some d →
    ∃ q, X j = .ok q ∧ Within (m.slackFor slack [j]) d.lower.value d.upper.value q
  constraints : ∀ c ∈ m.constraints, c.HoldsWithin (m.slackFor slack c.body.columns) (Lookup.ofList u) X
  uncertain : ∀ c ∈ m.uncertain, c.1.HoldsWithin (slack (some (c.2.getD m.defaultOracle))) (Lookup.ofList u) X

/-- A number is an objective that no decision does worse than, at a realization and up to a slack. -/
def BoundedWithin (m : Model Rat ExtRat) (slack : Rat) (u : List Rat) (X : Lookup Rat) (t : Rat) : Prop :=
  ∃ q, m.objective.evaluate (fun k => Lookup.ofList u k.index) (fun v => X v.index) = .ok q
    ∧ m.sense.PessimisticWithin slack t q

/-! ## Decision rules -/

section

variable {m : Model Rat ExtRat} {u : List Rat} {X : Lookup Rat} {y : Nat → Rat}

/-- An expression has the value for the numbers of the decisions. -/
theorem evaluate_eq_value {e : Expr Rat} (he : m.Declares e) (hu : u.length = m.parameters.length)
    (hX : ∀ j < m.decisions.length, X j = .ok (y j)) :
    e.evaluate (fun k => Lookup.ofList u k.index) (fun v => X v.index) = .ok (e.value y (entries u)) := by
  refine Expr.evaluate_eq_ok_iff.mpr ⟨⟨fun j hj => ⟨_, hX j (he.columns j hj)⟩, fun k hk => ?_⟩, ?_⟩
  · exact ⟨_, Lookup.ofList_of_lt ((he.positions k hk).trans_eq hu.symm)⟩
  · rw [number_ofList]
    exact Expr.value_congr (fun j hj => (Lookup.number_eq_of_ok (hX j (he.columns j hj))).symm) _

theorem widens_slackFor (m : Model Rat ExtRat) {slack : Option OracleId → Rat} (h : ∀ o, 0 ≤ slack o) :
    Widens (m.slackFor slack) := by
  intro js js' hsub
  unfold slackFor Expander.slackFor
  by_cases hjs : js.any (Expander.ofModel m).isAdaptive = true
  · obtain ⟨j, hj, had⟩ := List.any_eq_true.mp hjs
    rw [if_pos hjs, if_pos (List.any_eq_true.mpr ⟨j, hsub hj, had⟩)]
  · rw [if_neg hjs]
    split
    next => exact h _
    next => exact le_rfl

/-- **Decisions that follow the rules of a point of the working model** meet the model. -/
theorem meetsWithin_of_holdsWithin (hm : m.WellFormed) {wm : WorkingModel Rat ExtRat} (hwm : wm.Mirrors m)
    {slack : Option OracleId → Rat} (hslack : ∀ o, 0 ≤ slack o) (hu : u.length = m.parameters.length)
    (hX : ∀ j < m.decisions.length, X j = .ok (y j))
    (h : wm.HoldsWithin slack (m.slackFor slack) y (entries u)) : m.MeetsWithin slack u X where
  bounds j d hd := by
    have hlt := (List.getElem?_eq_some_iff.mp hd).1
    have hcolumn := mem_columnTable.mpr ⟨d, hd, rfl⟩
    exact ⟨y j, hX j hlt, h.program.columns j _ (hwm.columns ▸ hcolumn)⟩
  constraints c hc := ⟨_, evaluate_eq_value (hm.constraints c hc) hu hX,
    hwm.constraints _ (m.widens_slackFor hslack) _ _ h.program c hc⟩
  uncertain c hc := by
    obtain ⟨r, hr, horacle, hlower, hupper, hvalue⟩ := hwm.uncertain c hc
    refine ⟨_, evaluate_eq_value (hm.uncertain c hc) hu hX, ?_⟩
    have hrow := h.rows r hr
    rw [MixedRow.HoldsWithin, horacle, hlower, hupper, hvalue] at hrow
    exact hrow

/-- The objective of a point of the expanded program is one that the decisions do not do worse than. -/
theorem boundedWithin_of_holdsWithin (hm : m.WellFormed) {wm wm' : WorkingModel Rat ExtRat} (hwm : wm.Mirrors m)
    (hexpanded : (Expander.ofModel m).Expanded wm wm') {slack : Option OracleId → Rat} (hslack : ∀ o, 0 ≤ slack o)
    (hu : u.length = m.parameters.length) {x : Nat → Rat}
    (hX : ∀ j < m.decisions.length, X j = .ok ((Expander.ofModel m).rule wm'.auxColumns x (entries u) j))
    (h : wm'.HoldsWithin slack (m.slackFor slack) x (entries u)) :
    m.BoundedWithin (slack (some m.defaultOracle)) u X (wm'.program.objectiveAt x) := by
  refine ⟨_, evaluate_eq_value hm.objective hu hX, ?_⟩
  obtain ⟨-, hepigraph⟩ := (hexpanded.within slack x (entries u)).mp h
  rw [← hwm.sense, ← hwm.objective.value]
  cases hcolumn : wm'.epigraphColumn with
  | some t =>
    rw [hexpanded.epigraphGoal t hcolumn]
    exact hepigraph t hcolumn
  | none =>
    rw [hexpanded.directGoal hcolumn x (entries u)]
    exact Sense.pessimisticWithin_refl (hslack _) _

/-- **Decisions that meet the model** are a point of the working model. -/
theorem holds_of_meetsWithin {wm : WorkingModel Rat ExtRat} (hm : m.WellFormed) (hwm : wm.Mirrors m)
    (hX : ∀ j < m.decisions.length, X j = .ok (y j)) (h : m.MeetsWithin (fun _ => 0) u X) : wm.Holds y (entries u) := by
  have hslack : ∀ js, m.slackFor (fun _ => 0) js = 0 := fun js => congrFun Expander.slackFor_zero js
  have hholds : ∀ c : Constraint Rat ExtRat, m.Declares c.body → c.HoldsWithin 0 (Lookup.ofList u) X →
      Between c.lower c.upper (c.body.value y (entries u)) := by
    rintro c hc ⟨q, hq, hwithin⟩
    obtain ⟨-, rfl⟩ := Expr.evaluate_eq_ok_iff.mp hq
    rw [within_zero, number_ofList] at hwithin
    rwa [← Expr.value_congr fun j hj => Lookup.number_eq_of_ok (hX j (hc.columns j hj))]
  refine hwm.complete y (entries u) (fun j d hd => ?_) (fun c hc => ?_) fun c hc =>
    hholds c.1 (hm.uncertain c hc) (h.uncertain c hc)
  · obtain ⟨q, hq, hwithin⟩ := h.bounds j d hd
    cases (hX j (List.getElem?_eq_some_iff.mp hd).1).symm.trans hq
    rw [hslack, within_zero] at hwithin
    exact hwithin
  · have hc' := h.constraints c hc
    rw [hslack] at hc'
    exact hholds c (hm.constraints c hc) hc'

end

end Model

end RobustLP
