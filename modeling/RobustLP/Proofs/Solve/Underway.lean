import RobustLP.Proofs.Solve.Launch
import RobustLP.Proofs.Solve.Trail

/-!
# Solves that may fail

A solve fails where its solver or an oracle does, and this may be in the middle of its loop. The rounds that it made before are a
course as those of any other solve, with answers that are as they have to be (`SolveLoop.Trail.course`). So what follows from a
course is true of every run that reaches its loop, whatever becomes of it (`RobustSolve.underway_of_run`): also of the program
that was handed to the solver in the round that failed, as this is the program of the state to which the rounds led.
-/

namespace RobustLP

open ExtRat UncertaintySet Run

namespace SolveLoop

variable [Written Rat] [Written ExtRat] {right : LinearProgram Rat ExtRat → SolverResults Rat → Prop} {P : Condition}
  {S : Option (List Rat) → MixedRow Rat ExtRat → Option (Realization Rat ExtRat) → Prop} {options : LoopOptions Rat}
  {rows : List (MixedRow Rat ExtRat)} {l l' : LoopState Rat ExtRat} {env env' : Environment Rat ExtRat}
  {laps : List (Lap Rat ExtRat)} {ending : Option (LoopEnd Rat ExtRat)} {fuel : Nat}

/-! ## The rounds of a trail -/

/-- **A lap is a step** of the course of the loop, and if the loop goes on, the oracles are as they have to be. -/
theorem step_of_succeeds (hseparable : Separable right P S rows) {lap : Lap Rat ExtRat} (h : Succeeds options rows lap l' ending) :
    lap.before.Before lap.after ∧ (P lap.before.oracles → lap.before.Trusted right lap.after →
      Step options rows lap.state lap.round l' ending ∧ lap.round.Proper rows right S ∧ (ending = none → P lap.after.oracles)) := by
  have hconsult : Ensures right (consult options rows lap.state.program lap.state.timing) P _ := ensures_consult hseparable _ _
  have hjudge : ∀ P', Ensures right (judge options rows lap.round
      { lap.state with iterations := lap.state.iterations + 1, timing := lap.timing }) P' _ := fun P' => ensures_judge _ _
  have hbefore := hconsult.before h.consult
  have hbefore' := (hjudge P).before h.judge
  refine ⟨hbefore.trans hbefore', fun hP ht => ?_⟩
  obtain ⟨ht₁, ht₂⟩ := ht.split hbefore hbefore'
  obtain ⟨hprogram, hproper, hready⟩ := (hconsult lap.before).2 _ _ h.consult hP ht₁
  obtain ⟨-, hjudged⟩ := ((hjudge fun _ => True) lap.consulted).2 _ _ h.judge trivial ht₂
  refine ⟨⟨hprogram, lap.timing, hjudged⟩, hproper, ?_⟩
  rintro rfl
  exact ((hjudge P lap.consulted).2 _ _ h.judge (hready hjudged.exists_found) ht₂).1

/-- **The rounds of a trail are a course,** and their answers are as they have to be. -/
theorem Trail.course (hseparable : Separable right P S rows) (h : Trail options rows l env laps l' env' ending) :
    env.Before env' ∧ (P env.oracles → env.Trusted right env' → Course options rows l (laps.map (·.round)) l' ending
      ∧ (∀ r ∈ laps.map (·.round), r.Proper rows right S) ∧ (ending = none → P env'.oracles)) := by
  induction h with
  | start env => exact ⟨.of_eq rfl rfl, fun hP _ => ⟨.spent l, List.forall_mem_nil _, fun _ => hP⟩⟩
  | next _ hlap ih =>
    obtain ⟨hbefore, hcourse⟩ := ih
    obtain ⟨hbefore', hstep⟩ := step_of_succeeds hseparable hlap
    refine ⟨hbefore.trans hbefore', fun hP ht => ?_⟩
    obtain ⟨ht₁, ht₂⟩ := ht.split hbefore hbefore'
    obtain ⟨hrounds, hall, hready⟩ := hcourse hP ht₁
    obtain ⟨hlast, hproper, hready'⟩ := hstep (hready rfl) ht₂
    rw [List.map_append, List.map_singleton]
    exact ⟨hrounds.snoc hlast, List.forall_mem_append.mpr ⟨hall, List.forall_mem_singleton.mpr hproper⟩, hready'⟩

theorem ensures_round (hseparable : Separable right P S rows) (l : LoopState Rat ExtRat) :
    Ensures right (round options rows l) P fun _ _ => True :=
  .bind (ensures_consult hseparable l.program l.timing) fun _ => (ensures_judge _ _).mono (fun _ h => h) fun _ _ _ => trivial

/-- A run goes on from where its trail ends. -/
theorem Passes.before_run (hseparable : Separable right P S rows) (h : Passes fuel options rows l env laps l' env' ending) :
    env'.Before ((SolveLoop.run fuel options rows l).run env).2 := by
  have hleaves := h.leaves
  generalize (SolveLoop.run fuel options rows l).run env = out at hleaves
  cases hleaves with
  | ok => exact .of_eq rfl rfl
  | error hround => exact (ensures_round hseparable l').before hround

/-- **The rounds through which a run passes** are a course. -/
theorem Passes.course (hseparable : Separable right P S rows) (h : Passes fuel options rows l env laps l' env' ending) :
    env.Before env' ∧ (P env.oracles → env.Trusted right env' → Course options rows l (laps.map (·.round)) l' ending
      ∧ ∀ r ∈ laps.map (·.round), r.Proper rows right S) := by
  obtain ⟨env₁, hheader, htrail⟩ := h.trail
  have htitles : Ensures right ((Report.header true).forM Run.progress) P fun _ => P :=
    Quiet.ensures (.forM (fun _ => quiet_progress _) _)
  have hbefore := htitles.before hheader
  obtain ⟨hbefore', hcourse⟩ := htrail.course hseparable
  refine ⟨hbefore.trans hbefore', fun hP ht => ?_⟩
  obtain ⟨ht₁, ht₂⟩ := ht.split hbefore hbefore'
  obtain ⟨hrounds, hall, -⟩ := hcourse ((htitles env).2 _ _ hheader hP ht₁) ht₂
  exact ⟨hrounds, hall⟩

end SolveLoop

namespace RobustSolve

open SolveLoop

variable [Written Rat] [Written ExtRat] {s : UncertaintySet Rat ExtRat} {drawn : List Rat → Prop} {m : Model Rat ExtRat}
  {fuel : Nat} {naming : Naming} {options : RobustOptions Rat} {model : ModelId} {env env' env₀ env₁ : Environment Rat ExtRat}
  {answer : Except Error (RobustResults Rat ExtRat)} {l : Launch Rat ExtRat} {laps : List (Lap Rat ExtRat)}
  {state : LoopState Rat ExtRat} {ending : Option (LoopEnd Rat ExtRat)}

/-- **Every solve that reaches its loop is on its way** in the rounds that it makes, also if it fails later. -/
theorem underway_of_run (hm : m.WellFormed) (hs : UncertaintySet.ofModel naming m = .ok s)
    (horacles : m.HandledBy naming Oracle.Standard env.oracles) (hrun : (attempt fuel naming options model m).run env = (answer, env'))
    (hlaunch : (launch naming options m).run env = (.ok l, env₀))
    (hpasses : Passes fuel options.forLoop l.separated l.start env₀ laps state env₁ ending)
    (htrusted : env.Trusted (SolverResults.Draws s drawn) env') :
    Underway naming options m s drawn env.oracles env₀.oracles l (laps.map (·.round)) state ending := by
  have hlaunched : Ensures (SolverResults.Draws s drawn) (launch naming options m) (fun os => os = env.oracles) _ :=
    ensures_launch drawn hm hs horacles
  have hseparable : Separable (SolverResults.Draws s drawn) _ (Found s options.tolerance drawn) l.separated :=
    separable_of_ready options.tolerance l.separated
  have hbefore := hlaunched.before hlaunch
  obtain ⟨hbefore₁, hcourse⟩ := hpasses.course hseparable
  -- a round that fails, and the end of the solve, only add to the calls
  have hafter : env₁.Before env' := by
    have hloop := hpasses.before_run hseparable
    rw [attempt, Edit.run_bind_of_ok hlaunch] at hrun
    rcases hout : (SolveLoop.run fuel options.forLoop l.separated l.start).run env₀ with ⟨out, env₂⟩
    rw [hout] at hloop
    cases out with
    | error e =>
      rw [Edit.run_bind_of_error hout] at hrun
      cases hrun
      exact hloop
    | ok out =>
      rw [Edit.run_bind_of_ok hout] at hrun
      have hfinish : Ensures (SolverResults.Draws s drawn) (finish model m l out.1 out.2) (fun _ => True) _ :=
        ensures_finish model l out.1 out.2
      exact hloop.trans (hfinish.before hrun)
  obtain ⟨ht₁, ht₂⟩ := htrusted.split (hbefore.trans hbefore₁) hafter
  obtain ⟨ht₀, ht₁⟩ := ht₁.split hbefore hbefore₁
  have hlaunched := (hlaunched env).2 l env₀ hlaunch rfl ht₀
  obtain ⟨hrounds, hproper⟩ := hcourse hlaunched.prepared ht₁
  exact ⟨hlaunched, hrounds, hproper⟩

/-- The results count the rounds. -/
theorem iterations_of_run {r : RobustResults Rat ExtRat} (hrun : (attempt fuel naming options model m).run env = (.ok r, env'))
    (hlaunch : (launch naming options m).run env = (.ok l, env₀))
    (hpasses : Passes fuel options.forLoop l.separated l.start env₀ laps state env₁ ending) : r.iterations = state.iterations := by
  rw [attempt, Edit.run_bind_of_ok hlaunch] at hrun
  obtain ⟨⟨state', ending'⟩, env₂, hloop, hfinish⟩ := Edit.run_bind_eq_ok.mp hrun
  have hleaves := hpasses.leaves
  rw [hloop] at hleaves
  cases hleaves
  have hfinished : Ensures (fun _ _ => True) (finish model m l state ending) (fun _ => True) _ :=
    ensures_finish model l state ending
  exact ((hfinished env₁).2 r env' hfinish trivial fun _ _ _ _ _ _ => trivial).2.iterations

end RobustSolve

end RobustLP
