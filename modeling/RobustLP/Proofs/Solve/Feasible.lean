import RobustLP.Proofs.Solve.Launch

/-!
# Robust feasibility

A solve that ends as optimal answers decisions that meet the model at every realization, and an objective that is not exceeded at
any of them (`RobustSolve.attempt_feasible`): exactly where the oracle dualizes, up to the tolerance where it separates. Nothing
is assumed of the solvers but that the answers they gave in the course of the solve are right.

The final point belongs to the program of the expanded working model, whose mixed rows hold there at all realizations
(`RobustSolve.Traced.grounded`); an expanded working model says of its points what the working model says of the decision rules,
and that one says what the model says (`Model.Grounded.meetsWithin`).
-/

namespace RobustLP

open ExtRat UncertaintySet Run

/-! ## The point of a solve -/

/-- The slack that a solve leaves to the rows of an oracle: the tolerance if it separates, and otherwise none. -/
def slackOfOracle (os : List (Oracle Rat ExtRat)) (tolerance : Option Rat) (o : Option OracleId) : Rat :=
  if (o.map (separates os)).getD false then slackOf tolerance else 0

theorem slackOf_nonneg (tolerance : Option Rat) : 0 ≤ slackOf tolerance := le_max_left _ _

theorem slackOfOracle_nonneg (os : List (Oracle Rat ExtRat)) (tolerance : Option Rat) (o : Option OracleId) :
    0 ≤ slackOfOracle os tolerance o := by
  unfold slackOfOracle
  split
  next => exact slackOf_nonneg tolerance
  next => exact le_rfl

theorem MixedRow.Robust.mono {s : UncertaintySet Rat ExtRat} {slack slack' : Rat} {x : Nat → Rat}
    {row : MixedRow Rat ExtRat} (h : row.Robust s slack x) (hle : slack ≤ slack') : row.Robust s slack' x :=
  fun v hv hint => (h v hv hint).mono hle

/-- **What decisions stand on:** a point of an expanded working model, at which the mixed rows hold at all realizations. -/
structure Model.Grounded (m : Model Rat ExtRat) (slack : Option OracleId → Rat) (X : List Rat → Lookup Rat)
    (wm : WorkingModel Rat ExtRat) (x : Nat → Rat) : Prop where
  expands : wm.Expands m
  feasible : wm.program.Feasible x
  rows : ∀ u, m.Realizes u → ∀ row ∈ wm.rows, row.HoldsWithin (slack row.oracle) x (entries u)
  decisions : ∀ u : List Rat, u.length = m.parameters.length → ∀ j < m.decisions.length,
    X u j = .ok ((Expander.ofModel m).rule wm.auxColumns x (entries u) j)

/-- **Decisions that stand on such a point** meet the model at every realization, and do not do worse than its objective. -/
theorem Model.Grounded.meetsWithin {m : Model Rat ExtRat} (hm : m.WellFormed) {slack : Option OracleId → Rat}
    (hslack : ∀ o, 0 ≤ slack o) {X : List Rat → Lookup Rat} {wm : WorkingModel Rat ExtRat} {x : Nat → Rat}
    (h : m.Grounded slack X wm x) {u : List Rat} (hu : m.Realizes u) : m.MeetsWithin slack u (X u)
      ∧ m.BoundedWithin (slack (some m.defaultOracle)) u (X u) (wm.program.objectiveAt x) := by
  obtain ⟨wm₀, hwm₀, hexpanded⟩ := h.expands
  have hholds : wm.HoldsWithin slack (m.slackFor slack) x (entries u) := by
    refine ⟨h.feasible.mono fun js => ?_, h.rows u hu⟩
    unfold Model.slackFor Expander.slackFor
    split
    next => exact hslack _
    next => exact le_rfl
  obtain ⟨hrules, -⟩ := (hexpanded.within slack x (entries u)).mp hholds
  exact ⟨Model.meetsWithin_of_holdsWithin hm hwm₀ hslack hu.size (h.decisions u hu.size) hrules,
    Model.boundedWithin_of_holdsWithin hm hwm₀ hexpanded hslack hu.size (h.decisions u hu.size) hholds⟩

namespace RobustSolve

section

variable [Written Rat] [Written ExtRat] {s : UncertaintySet Rat ExtRat} {drawn : List Rat → Prop} {m : Model Rat ExtRat}
  {os₀ : List (Oracle Rat ExtRat)} {fuel : Nat} {naming : Naming} {options : RobustOptions Rat} {model : ModelId}
  {record : Record}

/-- **At every point of the program with which the loop begins,** the mixed rows hold robustly, but for those that are to be
separated. -/
theorem Launched.robust {os : List (Oracle Rat ExtRat)} {l : Launch Rat ExtRat}
    (h : Launched naming options m s drawn os₀ os l) {x : Nat → Rat} (hx : l.program.Feasible x)
    {row : MixedRow Rat ExtRat} (hrow : row ∈ l.working.rows) : row ∈ l.separated ∨ row.Robust s 0 x := by
  obtain ⟨hcertain, hreplaced⟩ := h.adds.sound x hx
  cases hdet : isDeterministic row with
  | true => exact .inr fun v _ _ => MixedRow.holdsWithin_zero.mpr (hcertain row hrow hdet v)
  | false =>
    have huncertain := mem_uncertainRows.mpr ⟨hrow, hdet⟩
    cases hseparates : separatesRow os₀ row with
    | true =>
      rw [h.separated, List.mem_filter]
      exact .inl ⟨huncertain, hseparates⟩
    | false => exact .inr ((hreplaced row huncertain (.inl hseparates)).robust hseparates)

/-- **The decisions of a solve that ends as optimal** stand on a point of the expanded working model. -/
theorem Traced.grounded (hm : m.WellFormed) (hs : UncertaintySet.ofModel naming m = .ok s)
    (h : Traced fuel naming options model m s drawn os₀ record) (hoptimal : record.results.outcome = .optimal) :
    ∃ x, m.Grounded (slackOfOracle os₀ options.tolerance) record.results.decisionAt record.launch.working x
      ∧ record.results.objective = some (record.launch.working.program.objectiveAt x) := by
  obtain ⟨r, hr, x, -, -, hlength, hfeasible, hobjective, hrobust, r₀, hsolution⟩ := h.optimal hoptimal
  have hexpands := Model.expands_of_expanded hm h.launched.expanded
  have hnarrows := h.launched.adds.toNarrows.trans (h.narrows.1 r hr)
  obtain ⟨wm₀, hwm₀, hexpanded⟩ := id hexpands
  have huser : record.launch.working.userColumns = m.decisions.length := hexpanded.userColumns.trans hwm₀.userColumns
  have hsize : m.decisions.length ≤ x.length :=
    hwm₀.numColumns.symm.le.trans (hexpanded.columns.trans (hnarrows.numColumns_le.trans_eq hlength.symm))
  refine ⟨entries x, ⟨hexpands, hnarrows.feasible _ hfeasible, fun u hu row hrow => ?_, fun u hu j hj =>
    decisionAt_withSolution hm huser hsize hu hsolution hj⟩, ?_⟩
  · have hadmits := hm.admits hs hu
    suffices hrobustly : row.Robust s (slackOfOracle os₀ options.tolerance row.oracle) (entries x) from
      hrobustly _ hadmits.solves hadmits.integral
    rcases h.launched.robust ((h.narrows.1 r hr).feasible _ hfeasible) hrow with hseparated | hold
    · have hslack : slackOfOracle os₀ options.tolerance row.oracle = slackOf options.tolerance := by
        rw [h.launched.separated, List.mem_filter] at hseparated
        exact if_pos hseparated.2
      exact hslack ▸ hrobust row hseparated
    · exact hold.mono (slackOfOracle_nonneg os₀ options.tolerance _)
  · rw [objective_withSolution hsolution, hobjective, LinearProgram.objectiveAt, LinearProgram.objectiveAt,
      hnarrows.objective]

/-- **Robust feasibility.** A solve that ends as optimal answers decisions that meet the model at every realization, and an
objective that is not exceeded at any of them, if all answers that the solvers gave meanwhile are right. -/
theorem attempt_feasible {env env' : Environment Rat ExtRat} {r : RobustResults Rat ExtRat} (hm : m.WellFormed)
    (horacles : m.HandledBy naming Oracle.Standard env.oracles)
    (hrun : (attempt fuel naming options model m).run env = (.ok r, env')) (hoptimal : r.outcome = .optimal)
    (htrusted : ∀ s, UncertaintySet.ofModel naming m = .ok s → env.Trusted (SolverResults.Right s) env')
    {u : List Rat} (hu : m.Realizes u) :
    m.MeetsWithin (slackOfOracle env.oracles options.tolerance) u (r.decisionAt u) ∧ ∃ t, r.objective = some t
      ∧ m.BoundedWithin (slackOfOracle env.oracles options.tolerance (some m.defaultOracle)) u (r.decisionAt u) t := by
  obtain ⟨s, record, hs, -, rfl, htraced⟩ := exists_traced hm horacles hrun fun s hs =>
    (htrusted s hs).mono fun p a hright => hright.draws
  obtain ⟨x, hgrounded, hobjective⟩ := htraced.grounded hm hs hoptimal
  obtain ⟨hmeets, hbounded⟩ := hgrounded.meetsWithin hm (slackOfOracle_nonneg env.oracles options.tolerance) hu
  exact ⟨hmeets, _, hobjective, hbounded⟩

end

theorem attempt_feasible_cover : ∃ r env', coverSolve.run coverEnvironment = (.ok r, env') ∧ r.outcome = .optimal
    ∧ coverModel.Realizes [1] ∧ coverModel.MeetsWithin (slackOfOracle coverEnvironment.oracles (some 0)) [1] (r.decisionAt [1])
    ∧ ∃ t, r.objective = some t ∧ coverModel.BoundedWithin 0 [1] (r.decisionAt [1]) t := by
  obtain ⟨r, env', hrun, hoptimal, htrusted⟩ := cover_optimal
  have hm : coverModel.WellFormed := wellFormed_surplusModel _ _ _ _
  have hu : coverModel.Realizes [1] := realizes_surplusModel _ _ _ _
  refine ⟨r, env', hrun, hoptimal, hu, attempt_feasible hm ?_ hrun hoptimal (fun s hs => ?_) hu⟩
  · exact Model.handledBy_of_forall (List.forall_mem_singleton.mpr trivial)
  · exact htrusted.mono fun p a hcorrect => (hcorrect.draws (hm.narrowed hs).wellFormed).1

end RobustSolve

end RobustLP
