import RobustLP.Proofs.Expand.Origins
import RobustLP.Proofs.Solve.Accounts

/-!
# Whose cuts are in the results

The results of a solve list the cuts by the source of their row. In each round the rows are separated in their order, so the cuts
of a source are the realizations that were found for the rows of this source, round by round (`SolveLoop.Trail.attributed`). A row
that shares its source with no other one has its own realizations there, and nothing else.

Rows share a source when lifted rows have the same name, as constraints do that are written twice, or adaptive variables with
bounds have: their cuts are then mixed up under one source (`RobustSolve.attempt_attributes`,
`RobustSolve.repeated_sources`).
-/

namespace RobustLP

variable {K B : Type}

/-- **Cuts by the sources of their rows.** -/
structure Attributed (rows : List (MixedRow K B)) (laps : List (Lap K B)) (cuts : CutTable K B) : Prop where
  /-- the cuts of a source are those of all rows that have it -/
  shared : ∀ source, cuts.of source
    = ((laps.flatMap fun lap => lap.round.finds rows).filter fun v => v.1.source == source).map (·.2)
  /-- a row that shares its source with no other one has the realizations that were found for it -/
  own : ∀ i row, rows[i]? = some row → (∀ j row', rows[j]? = some row' → row'.source = row.source → j = i) →
    cuts.of row.source = laps.filterMap (Lap.foundAt i)

namespace SolveLoop

/-! ## The findings of one row -/

variable {rows : List (MixedRow K B)} {row : MixedRow K B} {found : List (Option (Realization K B))} {i : Nat}

/-- The findings for rows of one source. -/
def findingsOf (source : RowSource) (vs : List (Finding K B)) : List (Realization K B) :=
  (vs.filter fun v => v.1.source == source).map (·.2)

theorem violated_cons (row : MixedRow K B) (rows : List (MixedRow K B)) (z : Option (Realization K B))
    (found : List (Option (Realization K B))) :
    violated (row :: rows) (z :: found) = (z.map fun r => (row, r)).toList ++ violated rows found := by
  unfold violated
  rw [List.zip_cons_cons, List.filterMap_cons]
  cases z <;> rfl

theorem findingsOf_append (source : RowSource) (vs ws : List (Finding K B)) :
    findingsOf source (vs ++ ws) = findingsOf source vs ++ findingsOf source ws := by
  unfold findingsOf
  rw [List.filter_append, List.map_append]

theorem findingsOf_eq_nil {source : RowSource} (h : ∀ row ∈ rows, row.source ≠ source) :
    findingsOf source (violated rows found) = [] := by
  unfold findingsOf
  rw [List.map_eq_nil_iff, List.filter_eq_nil_iff]
  intro v hv
  simpa using h v.1 (mem_of_mem_violated hv)

/-- The findings for a source that one row has are those for the row. -/
theorem findingsOf_violated : ∀ {rows : List (MixedRow K B)} {found : List (Option (Realization K B))} {i : Nat},
    rows[i]? = some row → (∀ j row', rows[j]? = some row' → row'.source = row.source → j = i) →
      findingsOf row.source (violated rows found) = (found[i]?).join.toList
  | [], _, _, hrow, _ => nomatch hrow
  | _ :: _, [], _, _, _ => by
    rw [violated, List.zip_nil_right, List.getElem?_nil]
    rfl
  | r :: rows, z :: found, 0, hrow, honly => by
    obtain rfl : r = row := Option.some.inj hrow
    have hothers : ∀ r' ∈ rows, r'.source ≠ r.source := by
      intro r' hr' hsource
      obtain ⟨j, hj⟩ := List.mem_iff_getElem?.mp hr'
      exact Nat.succ_ne_zero j (honly (j + 1) r' hj hsource)
    rw [violated_cons, findingsOf_append, findingsOf_eq_nil hothers, List.append_nil]
    cases z <;> simp [findingsOf]
  | r :: rows, z :: found, i + 1, hrow, honly => by
    have hr : r.source ≠ row.source := fun hsource => Nat.succ_ne_zero i (honly 0 r rfl hsource).symm
    have hrest : findingsOf row.source (violated rows found) = (found[i]?).join.toList :=
      findingsOf_violated hrow fun j row' hj hsource => Nat.succ.inj (honly (j + 1) row' hj hsource)
    have hz : findingsOf row.source (z.map fun s => (r, s)).toList = [] := by
      cases z <;> simp [findingsOf, hr]
    rw [violated_cons, findingsOf_append, hz, hrest]
    rfl

theorem findingsOf_finds (hrow : rows[i]? = some row)
    (honly : ∀ j row', rows[j]? = some row' → row'.source = row.source → j = i) (lap : Lap K B) :
    findingsOf row.source (lap.round.finds rows) = (lap.foundAt i).toList := by
  unfold Round.finds Lap.foundAt Round.realizationAt
  cases lap.round.found with
  | none => rfl
  | some found => exact findingsOf_violated hrow honly

/-! ## The cuts of one source -/

variable [Bound B] [Scalar K B] [Written K] [Written B] {options : LoopOptions K} {s s' : LoopState K B}
  {env env' : Environment K B} {ending : Option (LoopEnd K B)} {laps : List (Lap K B)}

/-- **The table of cuts** after some rounds. -/
theorem Trail.attributed (h : Trail options rows s env laps s' env' ending) (hcuts : s.cuts = []) :
    Attributed rows laps s'.cuts := by
  obtain ⟨added, haccounts, -, -⟩ := h.accounts hcuts
  have hshared : ∀ source, s'.cuts.of source = findingsOf source (laps.flatMap fun lap => lap.round.finds rows) :=
    haccounts.table.of
  refine ⟨hshared, fun i row hrow honly => ?_⟩
  rw [hshared]
  clear h haccounts hshared
  induction laps with
  | nil => rfl
  | cons lap laps ih =>
    rw [List.flatMap_cons, findingsOf_append, findingsOf_finds hrow honly, ih, List.filterMap_cons]
    cases lap.foundAt i <;> rfl

end SolveLoop

namespace RobustSolve

open SolveLoop ExtRat

variable [Bound B] [Scalar K B] [Written K] [Written B] {naming : Naming} {options : RobustOptions K} {model : ModelId}
  {m : Model K B} {l : Launch K B} {fuel : Nat} {env env' : Environment K B}

omit [Bound B] [Written K] [Written B] in
theorem cuts_of_withSolution {wm : WorkingModel K B} {final : Option (Option (List K) × SolverResults K)}
    {r r' : RobustResults K B} (h : withSolution model m wm final r = .ok r') : r'.cuts = r.cuts := by
  unfold withSolution at h
  split at h
  next =>
    cases h
    rfl
  next => cases h
  next =>
    obtain ⟨policies, -, hpure⟩ := bind_eq_ok.mp h
    cases hpure
    rfl

omit [Bound B] [Written K] [Written B] in
/-- The results of a solve list the cuts of its loop. -/
theorem cuts_of_run_finish {s : LoopState K B} {ending : Option (LoopEnd K B)} {r : RobustResults K B}
    (h : (finish model m l s ending).run env = (.ok r, env')) : r.cuts = s.cuts := by
  unfold finish at h
  dsimp only at h
  obtain ⟨now, env₁, -, h⟩ := Edit.run_bind_eq_ok.mp h
  obtain ⟨timing, env₂, -, h⟩ := Edit.run_bind_eq_ok.mp h
  obtain ⟨time, env₃, -, h⟩ := Edit.run_bind_eq_ok.mp h
  exact cuts_of_withSolution (Edit.run_lift_eq_ok.mp h).1

/-- The sources of the rows of a launched solve. -/
theorem sources_of_run_launch (hm : (m.affine.map (·.1)).Nodup) (h : (launch naming options m).run env = (.ok l, env')) :
    ∃ wm, WorkingModel.ofModel naming m = .ok wm ∧ (Expander.ofModel m).apply wm = .ok l.working ∧ l.working.sources = RowSource.all m.uncertain.length
      ((Expander.ofModel m).liftedNames wm) ((Expander.ofModel m).boundedNames wm) ((Expander.ofModel m).liftsObjective wm) := by
  obtain ⟨qs, -, hprepared⟩ := prepared_of_run_launch h
  obtain ⟨wm, hwm, happly⟩ := bind_eq_ok.mp hprepared.expanded
  have hnodup : ((Expander.ofModel m).policies.map (·.1)).Nodup := hm.sublist (List.filter_sublist.map _)
  exact ⟨wm, hwm, happly, Expander.sources_of_apply _ hnodup (WorkingModel.sources_ofModel hwm) happly⟩

/-- Rows with different sources keep them when they are separated. -/
theorem only_of_nodup_sources (h : (launch naming options m).run env = (.ok l, env')) (hnodup : l.working.sources.Nodup) {i : Nat}
    {row : MixedRow K B} (hrow : l.separated[i]? = some row) (j : Nat) (row' : MixedRow K B) (hrow' : l.separated[j]? = some row')
    (hsource : row'.source = row.source) : j = i := by
  obtain ⟨qs, -, hprepared⟩ := prepared_of_run_launch h
  have hsub : (l.separated.map (·.source)).Sublist l.working.sources := by
    rw [hprepared.separated, Launch.uncertain]
    exact (List.filter_sublist.trans List.filter_sublist).map _
  have hi : (l.separated.map (·.source))[i]? = some row.source := by rw [List.getElem?_map, hrow]; rfl
  have hj : (l.separated.map (·.source))[j]? = some row'.source := by rw [List.getElem?_map, hrow']; rfl
  have hlt : j < (l.separated.map (·.source)).length := (List.getElem?_eq_some_iff.mp hj).1
  exact (List.getElem?_inj hlt (hnodup.sublist hsub)).mp (hj.trans (hsource ▸ hi.symm))

/-- **Cuts belong to the rows of their source.** In a solve that gives results, the sources of the rows are those of the uncertain
constraints, of the lifted rows and bounds and of the objective; they differ exactly if the lifted rows have different names, and
the bounded variables. The cuts of a source are what was found for its rows; if the sources differ, those of a row are what was
found for the row, in the order of the rounds. -/
theorem attempt_attributes {r : RobustResults K B} (hm : (m.affine.map (·.1)).Nodup)
    (hrun : (attempt fuel naming options model m).run env = (.ok r, env')) :
    ∃ (wm : WorkingModel K B) (l : Launch K B) (laps : List (Lap K B)),
      WorkingModel.ofModel naming m = .ok wm ∧ (Expander.ofModel m).apply wm = .ok l.working
      ∧ Proceeds fuel naming options model m env l laps r env'
      ∧ l.working.sources = RowSource.all m.uncertain.length ((Expander.ofModel m).liftedNames wm)
          ((Expander.ofModel m).boundedNames wm) ((Expander.ofModel m).liftsObjective wm)
      ∧ (l.working.sources.Nodup
          ↔ ((Expander.ofModel m).liftedNames wm).Nodup ∧ ((Expander.ofModel m).boundedNames wm).Nodup)
      ∧ Attributed l.separated laps r.cuts
      ∧ (l.working.sources.Nodup → ∀ i row, l.separated[i]? = some row →
          r.cuts.of row.source = laps.filterMap (Lap.foundAt i)) := by
  obtain ⟨l, laps, hproceeds⟩ := exists_proceeds_of_run hrun
  have ⟨env₀, env₂, s, ending, hlaunch, hpasses, hfinish⟩ := hproceeds
  obtain ⟨wm, hwm, happly, hsources⟩ := sources_of_run_launch hm hlaunch
  obtain ⟨env₁, -, htrail⟩ := hpasses.trail
  have hattributed : Attributed l.separated laps r.cuts := by
    rw [cuts_of_run_finish hfinish]
    exact htrail.attributed rfl
  refine ⟨wm, l, laps, hwm, happly, hproceeds, hsources, ?_, hattributed, fun hnodup i row hrow => ?_⟩
  · rw [hsources]
    exact RowSource.nodup_all_iff
  · exact hattributed.own i row hrow (only_of_nodup_sources hlaunch hnodup hrow)

/-- A solve with one uncertain constraint. -/
theorem attempt_attributes_cover : (coverModel.affine.map (·.1)).Nodup ∧ ∃ r env',
    coverSolve.run coverEnvironment = (.ok r, env') ∧ ∃ (l : Launch Rat ExtRat) (laps : List (Lap Rat ExtRat)),
      l.working.sources = [.index 0]
      ∧ ∀ i row, l.separated[i]? = some row → r.cuts.of row.source = laps.filterMap (Lap.foundAt i) := by
  obtain ⟨r, env', hrun, -, -⟩ := cover_optimal
  have haffine : (coverModel.affine.map (·.1)).Nodup := List.nodup_nil
  obtain ⟨wm, l, laps, hwm, -, -, hsources, -, -, hcuts⟩ := attempt_attributes haffine hrun
  have hobjective : (WorkingModel.ofModel (Catalog.naming [coverModel]) coverModel).toOption.map
      (Expander.ofModel coverModel).liftsObjective = some false := by decide +kernel
  rw [hwm] at hobjective
  obtain ⟨hlifted, hbounded⟩ := (Expander.ofModel coverModel).names_of_isEmpty rfl wm
  have hone : l.working.sources = [.index 0] := by
    rw [hsources, hlifted, hbounded, show (Expander.ofModel coverModel).liftsObjective wm = false from
      Option.some.inj hobjective]
    rfl
  exact ⟨haffine, r, env', hrun, l, laps, hone, hcuts (hone ▸ List.nodup_singleton _)⟩

/-! ## Rows that are written twice -/

/-- A variable with a policy, and twice the constraint that it is at least one. -/
def repeatedModel : Model Rat ExtRat where
  name := "repeated"
  robust := true
  decisions := [{ name := some "y", lower := ⟨negInf, false⟩, upper := ⟨posInf, false⟩, domain := .reals }]
  values := [none]
  constraints := List.replicate 2 ⟨.linear { terms := [(⟨0, 0⟩, 1)], constant := 0 }, finite 1, posInf⟩
  objective := .linear { terms := [], constant := 0 }
  parameters := [{ name := some "u", lower := ⟨finite 0, false⟩, upper := ⟨finite 1, false⟩, domain := .reals }]
  affine := [(0, [0])]

/-- A solver for whose first candidate both rows find the same realization, and for whose second one they find none. -/
def repeatedEnvironment : Environment Rat ExtRat where
  clock := 0
  solvers := [.replaying "replayed" ([[0], [0, 0], [0], [0], [1, 0], [0], [0]].map replayedPoint)]
  oracles := [.separating false { tolerance := none }]

def repeatedSolve : Run Rat ExtRat (RobustResults Rat ExtRat) :=
  attempt 9 (Catalog.naming [repeatedModel]) (exactOptions false) 0 repeatedModel

/-- **Constraints that are written twice have one source.** Each of them has one realization in the first of the two rounds of a
solve, and the source of both lists it twice. -/
theorem repeated_sources :
    (∃ wm wm' : WorkingModel Rat ExtRat, WorkingModel.ofModel (Catalog.naming [repeatedModel]) repeatedModel = .ok wm
      ∧ (Expander.ofModel repeatedModel).apply wm = .ok wm' ∧ wm'.sources = [.lifted "y >= 1", .lifted "y >= 1"])
    ∧ ∃ r env', repeatedSolve.run repeatedEnvironment = (.ok r, env') ∧ r.outcome = .optimal ∧ r.iterations = 2
      ∧ (r.cuts.of (.lifted "y >= 1")).map (·.point) = [[0], [0]] := by
  have hsources : (WorkingModel.ofModel (Catalog.naming [repeatedModel]) repeatedModel >>=
      (Expander.ofModel repeatedModel).apply).toOption.map WorkingModel.sources
        = some [.lifted "y >= 1", .lifted "y >= 1"] := by decide +kernel
  have hresults : (repeatedSolve.run repeatedEnvironment).1.toOption.map (fun r =>
      (r.outcome, r.iterations, (r.cuts.of (.lifted "y >= 1")).map (·.point))) = some (.optimal, 2, [[0], [0]]) := by
    decide +kernel
  constructor
  · cases hwm : WorkingModel.ofModel (Catalog.naming [repeatedModel]) repeatedModel with
    | error e =>
      rw [hwm] at hsources
      cases hsources
    | ok wm =>
      have hsources : ((Expander.ofModel repeatedModel).apply wm).toOption.map WorkingModel.sources
          = some [.lifted "y >= 1", .lifted "y >= 1"] := by rwa [hwm] at hsources
      cases happly : (Expander.ofModel repeatedModel).apply wm with
      | error e =>
        rw [happly] at hsources
        cases hsources
      | ok wm' =>
        rw [happly] at hsources
        exact ⟨wm, wm', rfl, happly, Option.some.inj hsources⟩
  · rcases hrun : repeatedSolve.run repeatedEnvironment with ⟨answer, env'⟩
    rw [hrun] at hresults
    cases answer with
    | error e => cases hresults
    | ok r =>
      obtain ⟨houtcome, hrest⟩ := Prod.mk.inj (Option.some.inj hresults)
      obtain ⟨hiterations, hcuts⟩ := Prod.mk.inj hrest
      exact ⟨r, env', rfl, houtcome, hiterations, hcuts⟩

end RobustSolve

end RobustLP
