import RobustLP.Proofs.Model.Rules
import RobustLP.Proofs.Solve.Correct
import RobustLP.Proofs.Solve.Underway

/-!
# The loop only relaxes

If all rows with parameters are separated, the program of a solve only ever says what the rows say at finitely many points of
the uncertainty set (`RobustSolve.Sampled`): the nominal points first, and later those at which cuts were made. So every decision
rule that meets the model at all realizations is a point of it. With correct solvers, a solve that ends as infeasible has no such
rule, and one that ends as optimal has an objective that is no worse than that of any of them (`RobustSolve.attempt_relaxes`).
-/

namespace RobustLP

open ExtRat UncertaintySet Run

theorem Sense.NoWorse.trans {sense : Sense} {a b c : Rat} (hab : sense.NoWorse a b) (hbc : sense.NoWorse b c) :
    sense.NoWorse a c := by
  cases sense with
  | minimize => exact le_trans hab hbc
  | maximize => exact le_trans hbc hab

/-- A bound on the pessimistic side is no better. -/
theorem Sense.PessimisticWithin.noWorse {sense : Sense} {t q : Rat} (h : sense.PessimisticWithin 0 t q) :
    sense.NoWorse q t := by
  cases sense with
  | minimize => exact h.trans_eq (add_zero t)
  | maximize => exact h.trans_eq (add_zero q)

/-- Finitely many numbers have a bound on the pessimistic side. -/
theorem Sense.exists_pessimistic {α : Type} (sense : Sense) (f : α → Rat) :
    ∀ as : List α, ∃ t, ∀ a ∈ as, sense.PessimisticWithin 0 t (f a)
  | [] => ⟨0, fun a ha => absurd ha List.not_mem_nil⟩
  | a :: as => by
    obtain ⟨t, ht⟩ := exists_pessimistic sense f as
    cases sense with
    | minimize =>
      refine ⟨max t (f a), List.forall_mem_cons.mpr ⟨(le_max_right _ _).trans_eq (add_zero _).symm, fun b hb => ?_⟩⟩
      exact (ht b hb).trans (add_le_add_left (le_max_left _ _) 0)
    | maximize =>
      refine ⟨min t (f a), List.forall_mem_cons.mpr ⟨(min_le_right _ _).trans_eq (add_zero _).symm, fun b hb => ?_⟩⟩
      exact (min_le_left _ _).trans (ht b hb)

/-! ## Programs that sample the rows -/

/-- Every row with parameters of the expanded working model is bound to a separating oracle. -/
def Model.SeparatedBy [Written Rat] [Written ExtRat] (naming : Naming) (m : Model Rat ExtRat) (os : List (Oracle Rat ExtRat)) :
    Prop :=
  ∀ wm, m.expanded naming = .ok wm → ∀ r ∈ RobustSolve.uncertainRows wm, ∃ o preferred sep,
    r.oracle = some o ∧ os[o]? = some (.separating preferred sep)

/-- Separating oracles work by themselves. -/
theorem Model.SeparatedBy.handledBy [Written Rat] [Written ExtRat] {naming : Naming} {m : Model Rat ExtRat}
    {os : List (Oracle Rat ExtRat)} (h : m.SeparatedBy naming os) : m.HandledBy naming Oracle.Standard os := by
  intro wm hwm r hr o ho x hx
  obtain ⟨o', preferred, sep, ho', hos⟩ := h wm hwm r hr
  cases ho.symm.trans ho'
  cases hx.symm.trans hos
  trivial

namespace RobustSolve

/-- **A program that samples** a working model: it says what the rows say at some of the parameter values that count, and nothing
else. -/
structure Sampled (m : Model Rat ExtRat) (wm : WorkingModel Rat ExtRat) (us : List (List Rat)) (p : LinearProgram Rat ExtRat) :
    Prop where
  some : us ≠ []
  points : ∀ u ∈ us, m.Counts u
  columns : p.columns = wm.program.columns
  objective : p.objective = wm.program.objective
  feasible : ∀ x, wm.program.Feasible x → (∀ u ∈ us, ∀ row ∈ wm.rows, row.Holds x (entries u)) → p.Feasible x

/-- Adding rows at points that count gives a program that samples, too. -/
theorem Sampled.adds {m : Model Rat ExtRat} {wm : WorkingModel Rat ExtRat} {us : List (List Rat)}
    {p p' : LinearProgram Rat ExtRat} (h : Sampled m wm us p) {vs : List (MixedRow Rat ExtRat × Realization Rat ExtRat)}
    (hadds : p.Adds True (fun x => ∀ v ∈ vs, v.1.Holds x (entries v.2.point)) p')
    (hvs : ∀ v ∈ vs, v.1 ∈ wm.rows ∧ m.Counts v.2.point) : Sampled m wm (us ++ vs.map (·.2.point)) p' where
  some := List.append_ne_nil_of_left_ne_nil h.some _
  points := by
    refine List.forall_mem_append.mpr ⟨h.points, fun u hu => ?_⟩
    obtain ⟨v, hv, rfl⟩ := List.mem_map.mp hu
    exact (hvs v hv).2
  columns := (hadds.same trivial).trans h.columns
  objective := hadds.objective.trans h.objective
  feasible x hx hall := by
    rw [List.forall_mem_append] at hall
    refine hadds.complete trivial x (h.feasible x hx hall.1) fun v hv => ?_
    exact hall.2 v.2.point (List.mem_map_of_mem hv) v.1 (hvs v hv).1

/-- **A rule that meets the model at the points** of a program that samples is a point of the program, as long as the number for
the epigraph column bounds its objective there. -/
theorem Sampled.feasible_carried {m : Model Rat ExtRat} (hm : m.WellFormed) {wm : WorkingModel Rat ExtRat}
    (hexpands : wm.Expands m) {us : List (List Rat)} {p : LinearProgram Rat ExtRat} (h : Sampled m wm us p) {d : DecisionRule}
    {t : Rat} (hmeets : ∀ u ∈ us, m.MeetsWithin (fun _ => 0) u (d.decisions m u))
    (hbound : ∀ u ∈ us, m.BoundedWithin 0 u (d.decisions m u) t) : p.Feasible (d.carried wm t) := by
  obtain ⟨wm₀, hmirrors, hexpanded⟩ := hexpands
  have hholds := fun u hu =>
    DecisionRule.holds_carried hexpanded hm hmirrors (h.points u hu).size (hmeets u hu) (hbound u hu)
  obtain ⟨u₀, hu₀⟩ := List.exists_mem_of_ne_nil us h.some
  exact h.feasible _ (hholds u₀ hu₀).program fun u hu row hrow => MixedRow.holdsWithin_zero.mp ((hholds u hu).rows row hrow)

theorem Sampled.integral_carried {m : Model Rat ExtRat} (hm : m.WellFormed) {wm : WorkingModel Rat ExtRat}
    (hexpands : wm.Expands m) {us : List (List Rat)} {p : LinearProgram Rat ExtRat} (h : Sampled m wm us p) {d : DecisionRule}
    {t : Rat} (hd : m.MetOver m.Counts d) : p.Integral (d.carried wm t) := by
  obtain ⟨wm₀, hmirrors, hexpanded⟩ := hexpands
  rw [LinearProgram.Integral, h.columns]
  exact DecisionRule.integral_carried hexpanded hm hmirrors hd

theorem Sampled.sense {m : Model Rat ExtRat} {wm : WorkingModel Rat ExtRat} (hexpands : wm.Expands m) {us : List (List Rat)}
    {p : LinearProgram Rat ExtRat} (h : Sampled m wm us p) : p.objective.sense = m.sense := by
  obtain ⟨wm₀, hmirrors, hexpanded⟩ := hexpands
  rw [h.objective, hexpanded.sense, hmirrors.sense]

/-- The objective of the program at such a rule is not worse than the number for the epigraph column. -/
theorem noWorse_carried {m : Model Rat ExtRat} (hm : m.WellFormed) {wm : WorkingModel Rat ExtRat} (hexpands : wm.Expands m)
    {d : DecisionRule} {t : Rat} {u : List Rat} (hu : m.Counts u) (hbound : m.BoundedWithin 0 u (d.decisions m u) t) :
    m.sense.NoWorse (wm.program.objectiveAt (d.carried wm t)) t := by
  obtain ⟨wm₀, hmirrors, hexpanded⟩ := hexpands
  cases hcolumn : wm.epigraphColumn with
  | some i =>
    rw [hexpanded.epigraphGoal i hcolumn, DecisionRule.carried_epigraph hexpanded hcolumn]
    exact .refl _ _
  | none =>
    obtain ⟨q, hq, hpessimistic⟩ := hbound
    have heq := DecisionRule.objectiveAt_carried (d := d) (t := t) hexpanded hm hmirrors hu.size hcolumn
    rw [Except.ok.inj (heq.symm.trans hq)]
    exact hpessimistic.noWorse

section

variable [Written Rat] [Written ExtRat] {s : UncertaintySet Rat ExtRat} {m : Model Rat ExtRat}
  {os₀ os : List (Oracle Rat ExtRat)} {fuel : Nat} {naming : Naming} {options : RobustOptions Rat} {model : ModelId}
  {record : Record} {l : Launch Rat ExtRat} {rounds : List (Round Rat ExtRat)} {state : LoopState Rat ExtRat}
  {ending : Option (LoopEnd Rat ExtRat)}

omit [Written Rat] [Written ExtRat] in
theorem separatesRow_of_separating {r : MixedRow Rat ExtRat} (h : ∃ o preferred sep, r.oracle = some o
    ∧ os[o]? = some (.separating preferred sep)) : separatesRow os r = true := by
  obtain ⟨o, preferred, sep, ho, hos⟩ := h
  rw [separatesRow, ho, Option.map_some, Option.getD_some, separates, hos]
  rfl

omit [Written Rat] [Written ExtRat] in
/-- A row without parameters that holds somewhere holds everywhere. -/
theorem holds_of_isDeterministic {r : MixedRow Rat ExtRat} (h : isDeterministic r = true) {x v : Nat → Rat} (hv : r.Holds x v)
    (w : Nat → Rat) : r.Holds x w := by
  have hnone := MixedForm.isDeterministic_iff.mp h
  rwa [MixedRow.Holds, MixedForm.value_congr (fun _ _ => rfl) fun k hk => absurd hk (hnone ▸ List.not_mem_nil)]

/-- The points of the set are parameter values that count. -/
theorem counts_of_admits (hm : m.WellFormed) (hs : UncertaintySet.ofModel naming m = .ok s) {u : List Rat} (hu : s.Admits u) :
    m.Counts u :=
  (hm.realizes hs hu).counts

/-- **The program with which the loop begins** samples the rows at the nominal points. -/
theorem Launched.sampled (hm : m.WellFormed) (hs : UncertaintySet.ofModel naming m = .ok s)
    (h : Launched naming options m s s.Admits os₀ os l) (hseparated : m.SeparatedBy naming os₀) :
    ∃ us, Sampled m l.working us l.program := by
  have hall : ∀ r ∈ uncertainRows l.working, separatesRow os₀ r = true :=
    fun r hr => separatesRow_of_separating (hseparated _ h.expanded r hr)
  obtain ⟨u₀, hu₀⟩ := Model.exists_counts (m := m)
  let nominal := (uncertainRows l.working).filterMap fun r => r.oracle.bind (nominalAt os)
  refine ⟨u₀ :: nominal, List.cons_ne_nil _ _, List.forall_mem_cons.mpr ⟨hu₀, fun z hz => ?_⟩, h.adds.same hall, h.adds.objective,
    fun x hx hrows => h.adds.complete hall x hx ⟨fun r hr hdet v => ?_, fun r hr _ => ⟨fun hnot => ?_, fun o z ho hz => ?_⟩⟩⟩
  · obtain ⟨r, hr, hbind⟩ := List.mem_filterMap.mp hz
    obtain ⟨o, ho, hnominal⟩ := Option.bind_eq_some_iff.mp hbind
    obtain ⟨a, ha, hprepared⟩ := Readied.of_mem h.ready hr ho
    rw [hall r hr] at hprepared
    refine counts_of_admits hm hs ?_
    cases a with
    | separating preferred sep =>
      obtain ⟨v, hv, hdrawn⟩ := hprepared.2.nominal
      rw [nominalAt, ha] at hnominal
      obtain rfl := Option.some.inj (hv.symm.trans hnominal)
      exact hdrawn
    | dualizing set => cases hprepared.1
    | replaying r => exact hprepared.elim
  · exact holds_of_isDeterministic hdet (hrows u₀ List.mem_cons_self r hr) v
  · rw [hall r hr] at hnot
    cases hnot
  · have hmem : z ∈ nominal := List.mem_filterMap.mpr ⟨r, hr, Option.bind_eq_some_iff.mpr ⟨o, ho, hz⟩⟩
    exact hrows z (List.mem_cons_of_mem _ hmem) r (mem_uncertainRows.mp hr).1

/-- **The program of each round** samples the rows, and so does the one of the next round. -/
theorem Underway.sampled (hm : m.WellFormed) (hs : UncertaintySet.ofModel naming m = .ok s)
    (h : Underway naming options m s s.Admits os₀ os l rounds state ending) (hseparated : m.SeparatedBy naming os₀) :
    (∀ r ∈ rounds, ∃ us, Sampled m l.working us r.program) ∧ ∃ us, Sampled m l.working us state.program := by
  refine h.course.invariant (I := fun p => ∃ us, Sampled m l.working us p) h.proper h.launched.adds.aligned
    (h.launched.sampled hm hs hseparated) ?_
  rintro r hr p p' ⟨us, hus⟩ hadds
  refine ⟨_, hus.adds hadds fun v hv => ?_⟩
  obtain ⟨hrow, hfound⟩ := (h.proper r hr).of_mem_finds hv
  rw [h.launched.separated] at hrow
  exact ⟨(mem_uncertainRows.mp (List.mem_filter.mp hrow).1).1, counts_of_admits hm hs (hfound.some v.2 rfl).1⟩

/-- **A rule that meets the model robustly** is a point of the program of each round, and of the next one. -/
theorem Underway.feasible_carried (hm : m.WellFormed) (hs : UncertaintySet.ofModel naming m = .ok s)
    (h : Underway naming options m s s.Admits os₀ os l rounds state ending) (hseparated : m.SeparatedBy naming os₀)
    {d : DecisionRule} {t : Rat} (hd : m.MetOver m.Counts d) (ht : m.BoundedOver m.Counts d t) :
    (∀ r ∈ rounds, r.program.Feasible (d.carried l.working t)) ∧ state.program.Feasible (d.carried l.working t) := by
  have hcarried : ∀ p, (∃ us, Sampled m l.working us p) → p.Feasible (d.carried l.working t) := by
    rintro p ⟨us, hus⟩
    exact hus.feasible_carried hm (Model.expands_of_expanded hm h.launched.expanded) (fun u hu => hd.meets u (hus.points u hu))
      fun u hu => ht u (hus.points u hu)
  obtain ⟨hall, hlast⟩ := h.sampled hm hs hseparated
  exact ⟨fun r hr => hcarried _ (hall r hr), hcarried _ hlast⟩

/-- If a solve ends as infeasible, no rule meets the model robustly. -/
theorem Traced.not_metOver (hm : m.WellFormed) (hs : UncertaintySet.ofModel naming m = .ok s)
    (h : Traced fuel naming options model m s s.Admits os₀ record) (hseparated : m.SeparatedBy naming os₀)
    (hcorrect : ∀ r ∈ record.rounds, r.answer.Correct r.program) (hinfeasible : record.results.outcome = .infeasible)
    (d : DecisionRule) : ¬m.MetOver m.Counts d := by
  intro hd
  have hexpands := Model.expands_of_expanded hm h.launched.expanded
  obtain ⟨e, -, houtcome, -, r, hr, hfollows⟩ := h.exists_ending (hinfeasible ▸ nofun)
  have he : e.outcome = .infeasible := houtcome.symm.trans hinfeasible
  have htermination := Outcome.ofTermination_eq_infeasible.mp ((hfollows.outcome_eq (he ▸ nofun)).symm.trans he)
  obtain ⟨us, hus⟩ := (h.sampled hm hs hseparated).1 r hr
  -- at the finitely many points the objective of the rule has a bound
  obtain ⟨t, ht⟩ := m.sense.exists_pessimistic (fun u => m.objective.value (d.decide m u) (entries u)) us
  refine (hcorrect r hr).infeasible htermination _ (hus.feasible_carried (d := d) (t := t) hm hexpands
    (fun u hu => hd.meets u (hus.points u hu)) fun u hu => ⟨_, ?_, ht u hu⟩) (hus.integral_carried hm hexpands hd)
  exact Model.evaluate_eq_value hm.objective (hus.points u hu).size fun j _ => rfl

/-- If a solve ends as optimal, its objective is not worse than that of any rule that meets the model robustly. -/
theorem Traced.noWorse (hm : m.WellFormed) (hs : UncertaintySet.ofModel naming m = .ok s)
    (h : Traced fuel naming options model m s s.Admits os₀ record) (hseparated : m.SeparatedBy naming os₀)
    (hcorrect : ∀ r ∈ record.rounds, r.answer.Correct r.program) (hoptimal : record.results.outcome = .optimal) :
    ∃ q, record.results.objective = some q
      ∧ ∀ d t, m.MetOver m.Counts d → m.BoundedOver m.Counts d t → m.sense.NoWorse q t := by
  have hexpands := Model.expands_of_expanded hm h.launched.expanded
  obtain ⟨r, hr, x, htermination, hx, -, -, hobjective, -, r₀, hsolution⟩ := h.optimal hoptimal
  obtain ⟨us, hus⟩ := (h.sampled hm hs hseparated).1 r hr
  obtain ⟨u, hu⟩ := List.exists_mem_of_ne_nil us hus.some
  refine ⟨_, (objective_withSolution hsolution).trans hobjective, fun d t hd ht => ?_⟩
  obtain ⟨y, hy, -, -, -, -, hbest⟩ := (hcorrect r hr).optimal htermination
  obtain rfl : x = y := Option.some.inj (hx.symm.trans hy)
  have hnoWorse := hbest _ ((h.feasible_carried hm hs hseparated hd ht).1 r hr) (hus.integral_carried (t := t) hm hexpands hd)
  rw [hus.sense hexpands] at hnoWorse
  refine hnoWorse.trans ?_
  rw [LinearProgram.objectiveAt, hus.objective]
  exact noWorse_carried hm hexpands (hus.points u hu) (ht u (hus.points u hu))

/-- **The loop only relaxes.** In a solve whose rows with parameters are all separated, every decision rule that meets the model
robustly is a point of the program of each round, also if the solve fails in one of them, as long as all answers that the solvers
gave are correct. So a solve that ends as infeasible has no such rule, and the objective of one that ends as optimal is not worse
than that of any of them. -/
theorem attempt_relaxes {env env' : Environment Rat ExtRat} {answer : Except Error (RobustResults Rat ExtRat)}
    (hm : m.WellFormed) (hseparated : m.SeparatedBy naming env.oracles)
    (hrun : (attempt fuel naming options model m).run env = (answer, env'))
    (htrusted : env.Trusted (fun p a => a.Correct p) env') :
    (∀ l env₀, (launch naming options m).run env = (.ok l, env₀) → ∃ laps state env₁ ending,
      SolveLoop.Passes fuel options.forLoop l.separated l.start env₀ laps state env₁ ending
        ∧ ∀ d t, m.MetOver m.Counts d → m.BoundedOver m.Counts d t →
          (∀ lap ∈ laps, lap.round.program.Feasible (d.carried l.working t))
            -- this is the program of the round in which the loop fails, if it does
            ∧ state.program.Feasible (d.carried l.working t))
    ∧ ∀ r, answer = .ok r → (r.outcome = .infeasible → ∀ d, ¬m.MetOver m.Counts d)
      ∧ (r.outcome = .optimal → ∃ q, r.objective = some q
        ∧ ∀ d t, m.MetOver m.Counts d → m.BoundedOver m.Counts d t → m.sense.NoWorse q t) := by
  constructor
  · intro l env₀ hlaunch
    obtain ⟨s, hs⟩ := exists_set_of_launch hlaunch
    obtain ⟨laps, state, env₁, ending, hpasses⟩ :=
      SolveLoop.exists_passes_of_run fuel options.forLoop l.separated l.start env₀
    have hunderway := underway_of_run hm hs hseparated.handledBy hrun hlaunch hpasses
      (htrusted.mono fun p a hcorrect => hcorrect.draws (hm.narrowed hs).wellFormed)
    refine ⟨laps, state, env₁, ending, hpasses, fun d t hd ht => ?_⟩
    obtain ⟨hall, hlast⟩ := hunderway.feasible_carried hm hs hseparated hd ht
    exact ⟨fun lap hlap => hall _ (List.mem_map_of_mem hlap), hlast⟩
  · rintro r rfl
    obtain ⟨s, record, hs, -, rfl, htraced, hcorrect⟩ := exists_traced_of_correct hm hseparated.handledBy hrun htrusted
    exact ⟨htraced.not_metOver hm hs hseparated hcorrect, htraced.noWorse hm hs hseparated hcorrect⟩

end

/-- The oracle of the example separates its row. -/
theorem separatedBy_cover : coverModel.SeparatedBy (Catalog.naming [coverModel]) coverEnvironment.oracles := by
  intro wm hwm r hr
  have hall : ((coverModel.expanded (Catalog.naming [coverModel])).toOption.map fun wm => (uncertainRows wm).map (·.oracle))
      = some [some 0] := by decide +kernel
  rw [hwm] at hall
  have hrows : (uncertainRows wm).map (·.oracle) = [some 0] := Option.some.inj hall
  have hmem : r.oracle ∈ (uncertainRows wm).map (·.oracle) := List.mem_map_of_mem hr
  rw [hrows] at hmem
  exact ⟨0, false, { tolerance := none }, List.mem_singleton.mp hmem, rfl⟩

theorem attempt_relaxes_cover : ∃ r env' q, coverSolve.run coverEnvironment = (.ok r, env') ∧ r.outcome = .optimal
    ∧ r.objective = some q
    ∧ ∀ d t, coverModel.MetOver coverModel.Counts d → coverModel.BoundedOver coverModel.Counts d t → q ≤ t := by
  obtain ⟨r, env', hrun, hoptimal, htrusted⟩ := cover_optimal
  obtain ⟨-, hends⟩ := attempt_relaxes (wellFormed_surplusModel _ _ _ _) separatedBy_cover hrun htrusted
  obtain ⟨-, hbest⟩ := hends r rfl
  obtain ⟨q, hq, hnoWorse⟩ := hbest hoptimal
  exact ⟨r, env', q, hrun, hoptimal, hq, hnoWorse⟩

end RobustSolve

end RobustLP
