import RobustLP.Proofs.Solve.Underway

/-!
# No realization is cut twice

A cut excludes every later candidate that violates its row at its point, and a separation only answers points at which the
candidate violates the row. So in the course of a solve the realizations that are found for a row all have different points, none
of which is the nominal point if the program has the row there (`RobustSolve.attempt_distinct`). Each round but the last one finds
some realization; if there are finitely many points to be found, this bounds the number of rounds.
-/

namespace RobustLP

open ExtRat UncertaintySet Run

namespace Round

variable {rows : List (MixedRow Rat ExtRat)} {r : Round Rat ExtRat} {i : Nat} {z : Realization Rat ExtRat}
  {right : LinearProgram Rat ExtRat → SolverResults Rat → Prop}
  {S : Option (List Rat) → MixedRow Rat ExtRat → Option (Realization Rat ExtRat) → Prop}

/-- The position of the first row that a round found violated, with the point. -/
def mark (r : Round Rat ExtRat) : Option (Nat × List Rat) :=
  (r.found.getD []).zipIdx.findSome? fun (z, i) => z.map fun z => (i, z.point)

theorem realizationAt_eq_some : r.realizationAt i = some z ↔ ∃ found, r.found = some found ∧ found[i]? = some (some z) := by
  rw [realizationAt, Option.join_eq_some_iff, Option.bind_eq_some_iff]

/-- A mark is about a realization that was found. -/
theorem exists_of_mark {p : List Rat} (h : r.mark = some (i, p)) : ∃ z, r.realizationAt i = some z ∧ z.point = p := by
  obtain ⟨⟨a, j⟩, hmem, hmark⟩ := List.exists_of_findSome?_eq_some h
  obtain ⟨z, rfl, hz⟩ := Option.map_eq_some_iff.mp hmark
  obtain ⟨rfl, hp⟩ := Prod.mk.inj hz
  have hget := List.mk_mem_zipIdx_iff_getElem?.mp hmem
  refine ⟨z, realizationAt_eq_some.mpr ?_, hp⟩
  cases hfound : r.found with
  | none =>
    rw [hfound] at hget
    cases hget
  | some found =>
    rw [hfound] at hget
    exact ⟨found, rfl, hget⟩

/-- A round that found something has a mark. -/
theorem exists_mark (h : r.finds rows ≠ []) : ∃ a, r.mark = some a := by
  refine Option.ne_none_iff_exists'.mp fun hnone => h ?_
  unfold finds
  split
  next found hfound =>
    rw [mark, hfound, List.findSome?_eq_none_iff] at hnone
    refine List.filterMap_eq_nil_iff.mpr ?_
    rintro ⟨row, a⟩ hmem
    obtain ⟨j, hj⟩ := List.mem_iff_getElem?.mp (List.of_mem_zip hmem).2
    have ha := hnone (a, j) (List.mk_mem_zipIdx_iff_getElem?.mpr hj)
    cases a with
    | none => rfl
    | some a => cases ha
  next => rfl

/-- **What a round found for a row** is as it has to be, and among the finds of the round. -/
theorem Proper.exists_row (h : r.Proper rows right S) (hz : r.realizationAt i = some z) : ∃ row, rows[i]? = some row
    ∧ (row, z) ∈ r.finds rows ∧ S r.answer.point row (some z) ∧ Outcome.ofTermination r.answer.termination = .optimal := by
  obtain ⟨found, hfound, hget⟩ := realizationAt_eq_some.mp hz
  obtain ⟨hlength, hall⟩ := List.forall₂_iff_zip.mp (h.found found hfound)
  have hlt : i < rows.length := hlength ▸ (List.getElem?_eq_some_iff.mp hget).1
  have hrow := List.getElem?_eq_getElem hlt
  have hmem : (rows[i], some z) ∈ rows.zip found :=
    List.mem_iff_getElem?.mpr ⟨i, List.getElem?_zip_eq_some.mpr ⟨hrow, hget⟩⟩
  refine ⟨rows[i], hrow, ?_, hall hmem, h.optimal found hfound⟩
  rw [finds_of_found hfound]
  exact List.mem_filterMap.mpr ⟨_, hmem, rfl⟩

end Round

namespace RobustSolve

section

variable [Written Rat] [Written ExtRat] {s : UncertaintySet Rat ExtRat} {drawn : List Rat → Prop} {m : Model Rat ExtRat}
  {os₀ os : List (Oracle Rat ExtRat)} {fuel : Nat} {naming : Naming} {options : RobustOptions Rat} {model : ModelId}
  {l : Launch Rat ExtRat} {rounds : List (Round Rat ExtRat)} {state : LoopState Rat ExtRat}
  {ending : Option (LoopEnd Rat ExtRat)} {t : Rat}

namespace Underway

/-- **A realization that was found** violates its row at a point of the program. -/
theorem not_holds (h : Underway naming options m s drawn os₀ os l rounds state ending) (htolerance : options.tolerance = some t)
    (ht : 0 ≤ t) {r : Round Rat ExtRat} (hr : r ∈ rounds) {i : Nat} {z : Realization Rat ExtRat}
    (hz : r.realizationAt i = some z) : drawn z.point ∧ ∃ row x, l.separated[i]? = some row
      ∧ (row, z) ∈ r.finds l.separated ∧ r.program.Feasible x ∧ ¬row.Holds x (entries z.point) := by
  have hproper := h.proper r hr
  obtain ⟨row, hrow, hmem, hfound, hoptimal⟩ := hproper.exists_row hz
  obtain ⟨x, hx, -, hfeasible, -⟩ := hproper.answer.1 (Outcome.ofTermination_eq_optimal.mp hoptimal)
  obtain ⟨hdrawn, hviolated⟩ := hfound.some z rfl
  refine ⟨hdrawn, row, entries x, hrow, hmem, hfeasible, fun hholds => hviolated t htolerance ?_⟩
  rw [hx, candidateLookup, number_ofList]
  exact (MixedRow.holdsWithin_zero.mpr hholds).mono ht

/-- **What is found for a row in two rounds** has different points. -/
theorem pairwise_ne (h : Underway naming options m s drawn os₀ os l rounds state ending) (htolerance : options.tolerance = some t)
    (ht : 0 ≤ t) : rounds.Pairwise fun r r' => ∀ i z z', r.realizationAt i = some z → r'.realizationAt i = some z' →
      z.point ≠ z'.point := by
  have hpairwise := h.course.pairwise h.proper h.launched.adds.aligned
  refine List.Pairwise.imp_of_mem (fun {r r'} hr hr' hrespected i z z' hz hz' heq => ?_) hpairwise
  obtain ⟨-, row, -, hrow, hmem, -⟩ := h.not_holds htolerance ht hr hz
  obtain ⟨-, row', x', hrow', -, hfeasible, hnot⟩ := h.not_holds htolerance ht hr' hz'
  have hsame : row = row' := Option.some.inj (hrow.symm.trans hrow')
  have hholds : row.Holds x' (entries z.point) := hrespected x' hfeasible (row, z) hmem
  rw [hsame, heq] at hholds
  exact hnot hholds

/-- **The points found for a row** are different from each other. -/
theorem nodup_points (h : Underway naming options m s drawn os₀ os l rounds state ending) (htolerance : options.tolerance = some t)
    (ht : 0 ≤ t) (i : Nat) : ((rounds.filterMap (Round.realizationAt i)).map (·.point)).Nodup := by
  rw [List.nodup_iff_pairwise_ne, List.pairwise_map]
  exact (h.pairwise_ne htolerance ht).filterMap _ fun r r' hne z hz z' hz' => hne i z z' hz hz'

/-- **The nominal point** is not found for a row that the program has there. -/
theorem nominal_not_mem (h : Underway naming options m s drawn os₀ os l rounds state ending) (htolerance : options.tolerance = some t)
    (ht : 0 ≤ t) (hcuts : options.nominalCuts = true) {i : Nat} {row : MixedRow Rat ExtRat}
    (hrow : l.separated[i]? = some row) {o : OracleId} (ho : row.oracle = some o) {v : List Rat}
    (hv : nominalAt os o = some v) : v ∉ (rounds.filterMap (Round.realizationAt i)).map (·.point) := by
  intro hmem
  obtain ⟨z, hz, rfl⟩ := List.mem_map.mp hmem
  obtain ⟨r, hr, hr'⟩ := List.mem_filterMap.mp hz
  obtain ⟨-, row', x, hrow', -, hfeasible, hnot⟩ := h.not_holds htolerance ht hr hr'
  obtain rfl : row = row' := Option.some.inj (hrow.symm.trans hrow')
  have huncertain : row ∈ uncertainRows l.working := by
    have hseparated := List.mem_of_getElem? hrow
    rw [h.launched.separated] at hseparated
    exact (List.mem_filter.mp hseparated).1
  obtain ⟨-, hreplaced⟩ := h.launched.adds.sound x ((h.narrows.1 r hr).feasible x hfeasible)
  exact hnot ((hreplaced row huncertain (.inr hcuts)).nominal o z.point ho hv)

/-- A separated row has an oracle, which has a nominal point. -/
theorem exists_nominal (h : Underway naming options m s drawn os₀ os l rounds state ending) {row : MixedRow Rat ExtRat}
    (hrow : row ∈ l.separated) :
    ∃ o v, row.oracle = some o ∧ nominalAt os o = some v := by
  rw [h.launched.separated] at hrow
  obtain ⟨huncertain, hseparates⟩ := List.mem_filter.mp hrow
  cases ho : row.oracle with
  | none =>
    rw [separatesRow, ho] at hseparates
    cases hseparates
  | some o =>
    obtain ⟨a, ha, hprepared⟩ := Readied.of_mem h.launched.ready huncertain ho
    rw [hseparates] at hprepared
    cases a with
    | separating preferred sep =>
      obtain ⟨v, hv, -⟩ := hprepared.2.nominal
      refine ⟨o, v, rfl, ?_⟩
      rw [nominalAt, ha]
      exact hv
    | dualizing set => cases hprepared.1
    | replaying r => exact hprepared.elim

/-- **Rounds that all found something** are not more than there are pairs of a separated row and a point. -/
theorem length_le {V : Finset (List Rat)} (h : Underway naming options m s (· ∈ V) os₀ os l rounds state ending)
    (htolerance : options.tolerance = some t) (ht : 0 ≤ t) {rs : List (Round Rat ExtRat)} (hsub : rs.Sublist rounds)
    (hfinds : ∀ r ∈ rs, r.finds l.separated ≠ []) : rs.length ≤ l.separated.length * V.card := by
  have hmarks : (rs.filterMap Round.mark).length = rs.length := by
    rw [List.length_filterMap_eq_countP, List.countP_eq_length]
    intro r hr
    obtain ⟨a, ha⟩ := Round.exists_mark (hfinds r hr)
    rw [ha]
    rfl
  have hnodup : (rs.filterMap Round.mark).Nodup := by
    rw [List.nodup_iff_pairwise_ne]
    refine ((h.pairwise_ne htolerance ht).sublist hsub).filterMap _ ?_
    rintro r r' hne ⟨i, p⟩ hp ⟨i', p'⟩ hp' heq
    obtain ⟨rfl, rfl⟩ := Prod.mk.inj heq
    obtain ⟨z, hz, hpoint⟩ := Round.exists_of_mark hp
    obtain ⟨z', hz', hpoint'⟩ := Round.exists_of_mark hp'
    exact hne i z z' hz hz' (hpoint.trans hpoint'.symm)
  have hmem : (rs.filterMap Round.mark).toFinset ⊆ Finset.range l.separated.length ×ˢ V := by
    intro a ha
    obtain ⟨i, p⟩ := a
    obtain ⟨r, hr, hmark⟩ := List.mem_filterMap.mp (List.mem_toFinset.mp ha)
    obtain ⟨z, hz, rfl⟩ := Round.exists_of_mark hmark
    obtain ⟨hdrawn, row, -, hrow, -⟩ := h.not_holds htolerance ht (hsub.subset hr) hz
    exact Finset.mk_mem_product (Finset.mem_range.mpr (List.getElem?_eq_some_iff.mp hrow).1) hdrawn
  calc rs.length = (rs.filterMap Round.mark).toFinset.card := by rw [List.toFinset_card_of_nodup hnodup, hmarks]
    _ ≤ (Finset.range l.separated.length ×ˢ V).card := Finset.card_le_card hmem
    _ = l.separated.length * V.card := by rw [Finset.card_product, Finset.card_range]

/-- **The rounds of a solve** are bounded if there are finitely many points to be found, and those after which the loop goes on
by one less. -/
theorem length_rounds_le {V : Finset (List Rat)} (h : Underway naming options m s (· ∈ V) os₀ os l rounds state ending)
    (htolerance : options.tolerance = some t) (ht : 0 ≤ t) :
    rounds.length ≤ 1 + l.separated.length * V.card ∧ (ending = none → rounds.length ≤ l.separated.length * V.card) := by
  cases hending : ending with
  | none =>
    have hle := h.length_le htolerance ht (.refl _) (h.course.finds_of_unfinished hending)
    exact ⟨hle.trans (Nat.le_add_left _ _), fun _ => hle⟩
  | some e =>
    have hbest : l.start.best = SolveLoop.leader [] := rfl
    obtain ⟨before, r, hrounds, hbefore, -⟩ := h.course.follows h.proper hbest e hending
    have hle := h.length_le htolerance ht (hrounds ▸ List.sublist_append_left before [r]) fun r' hr' => (hbefore r' hr').2
    rw [hrounds, List.length_append, List.length_singleton, Nat.add_comm]
    exact ⟨Nat.add_le_add_left hle 1, nofun⟩

end Underway

/-- **No realization is cut twice.** The realizations that a solve finds for a row have different points, none of which is the
nominal point if the rows there were added, as long as the tolerance is not negative and all answers that the solvers gave are
right; it does not matter whether the solve fails later. If the solvers answer points of a finite set, there are at most as many
rounds as one plus the pairs of a separated row and a point, the one in which a loop fails included, and a loop that may make as
many comes to an end, unless it fails. -/
theorem attempt_distinct {env env' : Environment Rat ExtRat} {answer : Except Error (RobustResults Rat ExtRat)}
    (hm : m.WellFormed) (horacles : m.HandledBy naming Oracle.Standard env.oracles)
    (hrun : (attempt fuel naming options model m).run env = (answer, env')) (htolerance : options.tolerance = some t) (ht : 0 ≤ t)
    (htrusted : ∀ s, UncertaintySet.ofModel naming m = .ok s → env.Trusted (SolverResults.Right s) env') :
    ∀ l env₀, (launch naming options m).run env = (.ok l, env₀) → ∃ laps state env₁ ending,
      SolveLoop.Passes fuel options.forLoop l.separated l.start env₀ laps state env₁ ending
      ∧ (∀ r, answer = .ok r → r.iterations = laps.length)
      ∧ (∀ i row, l.separated[i]? = some row → ((laps.filterMap (Lap.foundAt i)).map (·.point)).Nodup
        ∧ ∃ o v, row.oracle = some o ∧ nominalAt env₀.oracles o = some v
          ∧ (options.nominalCuts = true → v ∉ (laps.filterMap (Lap.foundAt i)).map (·.point)))
      ∧ ∀ V : Finset (List Rat), (∀ s, UncertaintySet.ofModel naming m = .ok s → env.Trusted
          (fun p a => s.StandsBehind p → a.termination = .optimal → ∀ x, a.point = some x → x ∈ V) env') →
        laps.length ≤ 1 + l.separated.length * V.card ∧ (ending = none → laps.length ≤ l.separated.length * V.card)
          ∧ (1 + l.separated.length * V.card ≤ fuel → ∀ out,
            ((SolveLoop.run fuel options.forLoop l.separated l.start).run env₀).1 = .ok out → ∃ e, ending = some e) := by
  intro l env₀ hlaunch
  obtain ⟨s, hs⟩ := exists_set_of_launch hlaunch
  obtain ⟨laps, state, env₁, ending, hpasses⟩ := SolveLoop.exists_passes_of_run fuel options.forLoop l.separated l.start env₀
  have hunderway := underway_of_run hm hs horacles hrun hlaunch hpasses ((htrusted s hs).mono fun p a hright => hright.draws)
  have hrealizations : ∀ i, (laps.map (·.round)).filterMap (Round.realizationAt i)
      = laps.filterMap (Lap.foundAt i) := fun i => List.filterMap_map
  refine ⟨laps, state, env₁, ending, hpasses, fun r hr => ?_, fun i row hrow => ?_, fun V hV => ?_⟩
  · subst hr
    rw [iterations_of_run hrun hlaunch hpasses, hunderway.course.iterations, List.length_map]
    exact Nat.zero_add _
  · obtain ⟨o, v, ho, hv⟩ := hunderway.exists_nominal (List.mem_of_getElem? hrow)
    rw [← hrealizations]
    exact ⟨hunderway.nodup_points htolerance ht i, o, v, ho, hv,
      fun hcuts => hunderway.nominal_not_mem htolerance ht hcuts hrow ho hv⟩
  · have hdrawn : Underway naming options m s (· ∈ V) env.oracles env₀.oracles l (laps.map (·.round)) state ending :=
      underway_of_run hm hs horacles hrun hlaunch hpasses ((htrusted s hs).and (hV s hs))
    obtain ⟨hle, hopen⟩ := hdrawn.length_rounds_le htolerance ht
    rw [List.length_map] at hle hopen
    refine ⟨hle, hopen, fun hfuel out hout => Option.ne_none_iff_exists'.mp fun hnone => ?_⟩
    -- without an ending the loop would have made all rounds that it may
    have hall := hpasses.complete out hout hnone
    have hfew := hopen hnone
    omega

end

theorem attempt_distinct_cover : ∃ r env' l env₀, ∃ laps : List (Lap Rat ExtRat), coverSolve.run coverEnvironment = (.ok r, env')
    ∧ (launch (Catalog.naming [coverModel]) (exactOptions true) coverModel).run coverEnvironment = (.ok l, env₀)
    ∧ r.iterations = laps.length
    ∧ ∀ i row, l.separated[i]? = some row → ((laps.filterMap (Lap.foundAt i)).map (·.point)).Nodup := by
  obtain ⟨r, env', hrun, -, htrusted⟩ := cover_optimal
  have hm : coverModel.WellFormed := wellFormed_surplusModel _ _ _ _
  have horacles : coverModel.HandledBy (Catalog.naming [coverModel]) Oracle.Standard coverEnvironment.oracles :=
    Model.handledBy_of_forall (List.forall_mem_singleton.mpr trivial)
  obtain ⟨l, env₀, hlaunch, -⟩ := Edit.run_bind_eq_ok.mp hrun
  obtain ⟨laps, state, env₁, ending, -, hcount, hdistinct, -⟩ := attempt_distinct hm horacles hrun rfl le_rfl
    (fun s hs => htrusted.mono fun p a hcorrect => (hcorrect.draws (hm.narrowed hs).wellFormed).1) l env₀ hlaunch
  exact ⟨r, env', l, env₀, laps, hrun, hlaunch, hcount r rfl, fun i row hrow => (hdistinct i row hrow).1⟩

end RobustSolve

end RobustLP
