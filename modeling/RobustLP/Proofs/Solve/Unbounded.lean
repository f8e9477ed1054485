import RobustLP.Proofs.Model.Rules
import RobustLP.Proofs.Solve.Feasible

/-!
# Unbounded solves

A solve ends as unbounded when the solver says so of the program of some round. As this program may lack cuts, it may be
unbounded while the model is not (`RobustSolve.unbounded_relaxation`). If the separated rows hold robustly at all of its points, or
no row is separated, then there are decision rules that meet the model at every realization, with arbitrarily good objectives
(`RobustSolve.attempt_unbounded`).
-/

namespace RobustLP

open ExtRat UncertaintySet Run

/-- **A point of an expanded working model** at which the mixed rows hold at all realizations stands for a rule that meets the
model there. -/
theorem DecisionRule.metOver_ofColumns {m : Model Rat ExtRat} (hm : m.WellFormed) {wm : WorkingModel Rat ExtRat} {x : Nat → Rat}
    (hexpands : wm.Expands m) (hfeasible : wm.program.Feasible x) (hintegral : wm.program.Integral x)
    (hrows : ∀ u, m.Realizes u → ∀ row ∈ wm.rows, row.Holds x (entries u)) :
    m.MetOver m.Realizes (ofColumns wm x) ∧ m.BoundedOver m.Realizes (ofColumns wm x) (wm.program.objectiveAt x) := by
  have hgrounded : m.Grounded (fun _ => 0) ((ofColumns wm x).decisions m) wm x :=
    ⟨hexpands, hfeasible, fun u hu row hrow => MixedRow.holdsWithin_zero.mpr (hrows u hu row hrow),
      fun u _ j _ => congrArg Except.ok (decide_ofColumns hm x u j)⟩
  have hmeets := fun u hu => hgrounded.meetsWithin hm (fun _ => le_rfl) (u := u) hu
  refine ⟨⟨fun u hu => (hmeets u hu).1, fun u _ j v hv hinteger => ?_⟩, fun u hu => (hmeets u hu).2⟩
  obtain ⟨wm₀, hmirrors, hexpanded⟩ := hexpands
  rw [decide_of_isInteger hm hv hinteger]
  have hcolumn : wm₀.program.IsInteger j := ⟨_, hmirrors.columns ▸ Model.mem_columnTable.mpr ⟨v, hv, rfl⟩, hinteger⟩
  obtain ⟨c, hc, hcinteger⟩ := (hexpanded.integers j).mpr hcolumn
  exact hintegral j c hc hcinteger

namespace RobustSolve

section

variable [Written Rat] [Written ExtRat] {naming : Naming} {options : RobustOptions Rat} {m : Model Rat ExtRat} {fuel : Nat}
  {model : ModelId}

/-- **A solve that ends as unbounded** had a program that is unbounded. If the separated rows hold at all points of this program
and at all realizations, as they do if there are none, then some decision rules meet the model at all realizations, with
arbitrarily good objectives, as long as all answers that the solvers gave are correct. -/
theorem attempt_unbounded {env env' : Environment Rat ExtRat} {r : RobustResults Rat ExtRat} (hm : m.WellFormed)
    (horacles : m.HandledBy naming Oracle.Standard env.oracles)
    (hrun : (attempt fuel naming options model m).run env = (.ok r, env')) (hunbounded : r.outcome = .unbounded)
    (htrusted : env.Trusted (fun p a => a.Correct p) env') :
    ∃ record, (recorded fuel naming options model m).run env = (.ok record, env') ∧ record.results = r
      ∧ ∃ round ∈ record.rounds, round.answer.termination = .unbounded
        ∧ ((∀ x, round.program.Feasible x → ∀ u, m.Realizes u → ∀ row ∈ record.launch.separated, row.Holds x (entries u)) →
          ∀ q, ∃ d t, m.MetOver m.Realizes d ∧ m.BoundedOver m.Realizes d t ∧ m.sense.NoWorse t q) := by
  obtain ⟨s, record, hs, hrecorded, rfl, htraced, hcorrect⟩ := exists_traced_of_correct hm horacles hrun htrusted
  obtain ⟨e, -, houtcome, -, round, hround, hfollows⟩ := htraced.exists_ending (hunbounded ▸ nofun)
  have he : e.outcome = .unbounded := houtcome.symm.trans hunbounded
  have htermination := Outcome.ofTermination_eq_unbounded.mp ((hfollows.outcome_eq (he ▸ nofun)).symm.trans he)
  refine ⟨record, hrecorded, rfl, round, hround, htermination, fun hseparated q => ?_⟩
  have hexpands := Model.expands_of_expanded hm htraced.launched.expanded
  have hnarrows := htraced.launched.adds.toNarrows.trans (htraced.narrows.1 round hround)
  obtain ⟨x, hx, hintegral, hgood⟩ := (hcorrect round hround).unbounded htermination q
  obtain ⟨hmet, hbounded⟩ := DecisionRule.metOver_ofColumns hm hexpands (hnarrows.feasible x hx) (hnarrows.integral hintegral)
    fun u hu row hrow => by
      rcases htraced.launched.robust ((htraced.narrows.1 round hround).feasible x hx) hrow with hrow | hrobust
      · exact hseparated x hx u hu row hrow
      · have hadmits := hm.admits hs hu
        exact MixedRow.holdsWithin_zero.mp (hrobust _ hadmits.solves hadmits.integral)
  obtain ⟨wm₀, hmirrors, hexpanded⟩ := hexpands
  refine ⟨_, _, hmet, hbounded, ?_⟩
  rw [hnarrows.objective, hexpanded.sense, hmirrors.sense, LinearProgram.objectiveAt, hnarrows.objective] at hgood
  exact hgood

end

/-- The largest quantity, which has to cover the demand. -/
def growingModel : Model Rat ExtRat := surplusModel negInf (-1) (finite 0) posInf

def replayedRay : ReplayedAnswer Rat := { delay := 0, termination := .unbounded }

/-- A solver that answers once, and a dualizing oracle. -/
def growingEnvironment : Environment Rat ExtRat where
  clock := 0
  solvers := [.replaying "replayed" [replayedRay]]
  oracles := [.dualizing none]

def growingSolve : Run Rat ExtRat (RobustResults Rat ExtRat) :=
  attempt 9 (Catalog.naming [growingModel]) (exactOptions false) 0 growingModel

theorem attempt_unbounded_growing : ∃ r env', growingSolve.run growingEnvironment = (.ok r, env') ∧ r.outcome = .unbounded
    ∧ ∀ q, ∃ d t, growingModel.MetOver growingModel.Realizes d ∧ growingModel.BoundedOver growingModel.Realizes d t ∧ t ≤ q := by
  have hnone : ((recorded 9 (Catalog.naming [growingModel]) (exactOptions false) 0 growingModel).run
      growingEnvironment).1.toOption.map (·.launch.separated.length) = some 0 := by decide +kernel
  obtain ⟨r, env', hrun, hunbounded, htrusted⟩ := exists_run_of_certified
    growingSolve growingEnvironment .unbounded [.ray [1, 1, 0] [1, 0, 0]] (by decide +kernel) (by decide +kernel)
  have horacles : growingModel.HandledBy (Catalog.naming [growingModel]) Oracle.Standard growingEnvironment.oracles :=
    Model.handledBy_of_forall (List.forall_mem_singleton.mpr trivial)
  have hm : growingModel.WellFormed := wellFormed_surplusModel _ _ _ _
  obtain ⟨record, hrecorded, -, round, -, -, hrules⟩ := attempt_unbounded hm horacles hrun hunbounded htrusted
  rw [hrecorded] at hnone
  have hseparated : record.launch.separated = [] := List.eq_nil_of_length_eq_zero (Option.some.inj hnone)
  exact ⟨r, env', hrun, hunbounded, hrules fun x _ u _ row hrow => absurd hrow (hseparated ▸ List.not_mem_nil)⟩

theorem value_surplus (x u : Nat → Rat) : surplus.value x u = x 0 - u 0 := by
  simp [surplus, Expr.value, Full.value, Affine.value, Affine.constantParts, Symbol.index, sub_eq_add_neg]

theorem value_objective_surplusModel (least : ExtRat) (cost : Rat) (lower upper : ExtRat) (x u : Nat → Rat) :
    (surplusModel least cost lower upper).objective.value x u = cost * x 0 := by
  simp [surplusModel, Expr.value, Affine.value, Affine.constantParts, Symbol.index]

/-- The largest quantity that does not exceed the demand. -/
def limitedModel : Model Rat ExtRat := surplusModel negInf (-1) negInf (finite 0)

/-- At a demand of one, the quantity is not larger than one. -/
theorem neg_one_le_of_boundedOver {d : DecisionRule} {t : Rat} (hmet : limitedModel.MetOver limitedModel.Realizes d)
    (hbounded : limitedModel.BoundedOver limitedModel.Realizes d t) : -1 ≤ t := by
  have hm : limitedModel.WellFormed := wellFormed_surplusModel _ _ _ _
  have hu : limitedModel.Realizes [1] := realizes_surplusModel _ _ _ _
  have hnumbers : ∀ j < limitedModel.decisions.length, d.decisions limitedModel [1] j = .ok (d.decide limitedModel [1] j) :=
    fun _ _ => rfl
  obtain ⟨q, hq, hwithin⟩ := (hmet.meets [1] hu).uncertain (⟨surplus, negInf, finite 0⟩, none) List.mem_cons_self
  cases (Model.evaluate_eq_value (hm.uncertain _ List.mem_cons_self) hu.size hnumbers).symm.trans hq
  rw [value_surplus, within_zero] at hwithin
  have hquantity : d.decide limitedModel [1] 0 - 1 ≤ 0 := finite_le_finite.mp hwithin.2
  obtain ⟨g, hg, hpessimistic⟩ := hbounded [1] hu
  cases (Model.evaluate_eq_value hm.objective hu.size hnumbers).symm.trans hg
  rw [limitedModel, value_objective_surplusModel] at hpessimistic
  have hobjective : -1 * d.decide limitedModel [1] 0 ≤ t := hpessimistic.trans_eq (add_zero t)
  linarith only [hquantity, hobjective]

/-- A solver that answers a point of the set, and that the program without rows is unbounded, and a separating oracle. -/
def limitedEnvironment : Environment Rat ExtRat where
  clock := 0
  solvers := [.replaying "replayed" [replayedPoint [0], replayedRay]]
  oracles := [.separating false { tolerance := none }]

def limitedSolve : Run Rat ExtRat (RobustResults Rat ExtRat) :=
  attempt 9 (Catalog.naming [limitedModel]) (exactOptions false) 0 limitedModel

/-- **An unbounded relaxation of a bounded model:** with all answers correct, a solve that separates and adds no nominal rows ends
as unbounded, although the rules that meet the model do not have arbitrarily good objectives. -/
theorem unbounded_relaxation : ∃ r env', limitedSolve.run limitedEnvironment = (.ok r, env') ∧ r.outcome = .unbounded
    ∧ limitedModel.WellFormed ∧ limitedEnvironment.Trusted (fun p a => a.Correct p) env'
    ∧ ¬∀ q, ∃ d t, limitedModel.MetOver limitedModel.Realizes d ∧ limitedModel.BoundedOver limitedModel.Realizes d t
      ∧ limitedModel.sense.NoWorse t q := by
  obtain ⟨r, env', hrun, hunbounded, htrusted⟩ := exists_run_of_certified
    limitedSolve limitedEnvironment .unbounded [.optimum [0], .ray [0] [1]] (by decide +kernel) (by decide +kernel)
  have hm : limitedModel.WellFormed := wellFormed_surplusModel _ _ _ _
  refine ⟨r, env', hrun, hunbounded, hm, htrusted, fun hall => ?_⟩
  obtain ⟨d, t, hmet, hbounded, ht⟩ := hall (-2)
  have hlimit : (-1 : Rat) ≤ -2 := (neg_one_le_of_boundedOver hmet hbounded).trans ht
  exact absurd hlimit (by decide +kernel)

end RobustSolve

end RobustLP
