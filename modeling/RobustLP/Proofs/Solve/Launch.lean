import RobustLP.Proofs.Solve.Correct
import RobustLP.Proofs.Solve.Decisions
import RobustLP.Proofs.Solve.Ends

/-!
# A solve from its beginning to its results

The stages before the loop leave a program that has the rows without parameters, and what the oracles answered in place of the
others (`Launched`); then the rounds of the loop follow. `recorded` is the solve together with all that it went through, and what
is known of it (`Traced`) is what the properties of solves are derived from. Of the solvers only the answers they gave in the
course of the solve have to be right.
-/

namespace RobustLP

open ExtRat UncertaintySet Run

/-! ## The expanded working model -/

/-- The working model of a model, with its decision rules substituted. -/
def Model.expanded [Written Rat] [Written ExtRat] (naming : Naming) (m : Model Rat ExtRat) :
    Except Error (WorkingModel Rat ExtRat) := do
  (Expander.ofModel m).apply (← WorkingModel.ofModel naming m)

/-- The oracles of all rows that involve parameters are of some kind. -/
def Model.HandledBy [Written Rat] [Written ExtRat] (naming : Naming) (m : Model Rat ExtRat)
    (kind : Oracle Rat ExtRat → Prop) (os : List (Oracle Rat ExtRat)) : Prop :=
  ∀ wm, m.expanded naming = .ok wm → ∀ r ∈ RobustSolve.uncertainRows wm, ∀ o, r.oracle = some o →
    ∀ x, os[o]? = some x → kind x

theorem Model.handledBy_of_forall [Written Rat] [Written ExtRat] {naming : Naming} {m : Model Rat ExtRat}
    {kind : Oracle Rat ExtRat → Prop} {os : List (Oracle Rat ExtRat)} (h : ∀ x ∈ os, kind x) : m.HandledBy naming kind os :=
  fun _ _ _ _ _ _ x hx => h x (List.mem_of_getElem? hx)

/-- A working model in which the decision rules of a model are substituted. -/
def WorkingModel.Expands (m : Model Rat ExtRat) (wm : WorkingModel Rat ExtRat) : Prop :=
  ∃ wm₀ : WorkingModel Rat ExtRat, wm₀.Mirrors m ∧ (Expander.ofModel m).Expanded wm₀ wm

section

variable [Written Rat] [Written ExtRat] {naming : Naming} {m : Model Rat ExtRat} {wm : WorkingModel Rat ExtRat}

theorem Model.expands_of_expanded (hm : m.WellFormed) (h : m.expanded naming = .ok wm) : wm.Expands m := by
  obtain ⟨wm₀, hwm₀, happly⟩ := bind_eq_ok.mp h
  have hmirrors := WorkingModel.mirrors_ofModel hm hwm₀
  have hfits := hmirrors.numColumns.symm ▸ Expander.fits_ofModel hm
  exact ⟨wm₀, hmirrors, Expander.expanded_of_apply hmirrors.wellFormed hmirrors.auxColumns hmirrors.epigraphColumn hfits happly⟩

omit [Written Rat] [Written ExtRat] in
theorem WorkingModel.Expands.aligned (h : wm.Expands m) : wm.program.rows.Aligned := by
  obtain ⟨wm₀, -, hexpanded⟩ := h
  exact hexpanded.wellFormed.aligned

/-- The mixed rows are rows over the uncertainty set. -/
theorem WorkingModel.Expands.covers {s : UncertaintySet Rat ExtRat} (h : wm.Expands m) (hm : m.WellFormed)
    (hs : UncertaintySet.ofModel naming m = .ok s) {r : MixedRow Rat ExtRat} (hr : r ∈ wm.rows) : s.Covers r := by
  obtain ⟨wm₀, hwm₀, hexpanded⟩ := h
  refine ⟨(hexpanded.wellFormed.rows r hr).tabular, fun k hk => ?_⟩
  rw [numParameters_of_narrowed (hm.narrowed hs)]
  rcases (hexpanded.origin r hr).2 k hk with ⟨r₀, hr₀, hk₀⟩ | hobjective | ⟨p, hp, hkp⟩
  · obtain ⟨c, hc, -, hpositions⟩ := hwm₀.origin r₀ hr₀
    exact (hm.uncertain c hc).positions k (hpositions k hk₀)
  · exact hm.objective.positions k (hwm₀.objective.positions k hobjective)
  · exact (hm.adaptive p (List.mem_filter.mp hp).1).2 k hkp

end

/-! ## The end of the stages before the loop -/

namespace RobustSolve

/-- **What the stages before the loop leave:** the program of the expanded working model with what stands for its rows, and the
rows of the separating oracles, which are ready. -/
structure Launched [Written Rat] [Written ExtRat] (naming : Naming) (options : RobustOptions Rat) (m : Model Rat ExtRat)
    (s : UncertaintySet Rat ExtRat) (drawn : List Rat → Prop) (os₀ os : List (Oracle Rat ExtRat)) (l : Launch Rat ExtRat) :
    Prop where
  expanded : m.expanded naming = .ok l.working
  ready : Readied s options.tolerance drawn os₀ (SolveLoop.oraclesOf (uncertainRows l.working)) os
  separated : l.separated = (uncertainRows l.working).filter (separatesRow os₀)
  adds : l.working.program.Adds (∀ r ∈ uncertainRows l.working, separatesRow os₀ r = true)
    (fun x => (∀ r ∈ l.working.rows, isDeterministic r = true → ∀ v, r.Holds x v)
      ∧ ∀ r ∈ uncertainRows l.working, (separatesRow os₀ r = false ∨ options.nominalCuts = true) →
        r.Replaced s os₀ os x) l.program

variable {right : LinearProgram Rat ExtRat → SolverResults Rat → Prop} {s : UncertaintySet Rat ExtRat}
  {drawn : List Rat → Prop} {naming : Naming} {m : Model Rat ExtRat} {P : Condition} {os₀ : List (Oracle Rat ExtRat)}

theorem quiet_logIntro (options : RobustOptions Rat) : Quiet (logIntro options : Run Rat ExtRat Unit) := by
  refine .bind (quiet_progress _) fun _ => .bind (quiet_progress _) fun _ => .bind (quiet_progress _) fun _ => ?_
  exact .bind (quiet_progress _) fun _ => .bind (.forM (fun _ => quiet_progress _) _) fun _ => quiet_progress _

theorem quiet_logStatistics (m : Model Rat ExtRat) (wm : WorkingModel Rat ExtRat) : Quiet (logStatistics m wm) :=
  .bind (quiet_progress _) fun _ => .bind (.forM (fun _ => quiet_progress _) _) fun _ => quiet_progress _

variable [Written Rat] [Written ExtRat] {options : RobustOptions Rat}

theorem ensures_expand : Ensures right (expand naming m) P fun wm os => P os ∧ m.expanded naming = .ok wm := by
  unfold expand
  dsimp only
  refine .bind (.lift (Q := fun wm₀ os => P os ∧ WorkingModel.ofModel naming m = .ok wm₀)
    fun wm₀ os hwm₀ hP => ⟨hP, hwm₀⟩) fun wm₀ => ?_
  refine .bind (.lift (Q := fun wm os => P os ∧ m.expanded naming = .ok wm) ?_)
    fun wm => .quiet_bind (quiet_detail _ _) fun _ => .pure fun os hP => hP
  rintro wm os hwm ⟨hP, hwm₀⟩
  exact ⟨hP, bind_eq_ok.mpr ⟨wm₀, hwm₀, hwm⟩⟩

/-- **The stages before the loop.** -/
theorem ensures_launch (drawn : List Rat → Prop) (hm : m.WellFormed) (hs : UncertaintySet.ofModel naming m = .ok s)
    (horacles : m.HandledBy naming Oracle.Standard os₀) : Ensures (SolverResults.Draws s drawn) (launch naming options m)
      (fun os => os = os₀) fun l os => Launched naming options m s drawn os₀ os l := by
  have hwell := (hm.narrowed hs).wellFormed
  unfold launch
  dsimp only
  refine .ite (.throw_bind _) (.quiet_bind quiet_now fun now => .quiet_bind (quiet_logIntro options) fun _ => ?_)
  refine .bind (SolveLoop.ensures_timed .expansion _ ensures_expand) fun (wm, t) => ?_
  refine .quiet_bind (quiet_logStatistics m wm) fun _ => ?_
  refine .bind (SolveLoop.ensures_timed .setup t (((ensures_prepare drawn os₀ naming options m hs).keep
    (p := m.expanded naming = .ok wm)).mono ?_ fun _ _ h => h)) fun ((p, rows), t) => ?_
  · rintro os ⟨rfl, hwm⟩
    have hexpands := Model.expands_of_expanded hm hwm
    exact ⟨⟨rfl, hexpands.aligned, fun r hr => ⟨hexpands.covers hm hs (mem_uncertainRows.mp hr).1, horacles wm hwm r hr⟩⟩, hwm⟩
  -- from here on the oracles stay as they are
  refine .fix fun os₁ => ?_
  dsimp only
  refine .bind (SolveLoop.ensures_timed .reformulation t (((ensures_reformulateRows options.tolerance drawn os₀ os₁
    options hwell).keep (p := m.expanded naming = .ok wm ∧ rows = uncertainRows wm
      ∧ wm.program.Adds True (fun x => ∀ r ∈ wm.rows, isDeterministic r = true → ∀ v, r.Holds x v) p)).mono ?_
        fun _ _ h => h)) fun ((p', n, separated), t) => ?_
  · rintro os ⟨rfl, ⟨hready, hrows, hadds⟩, hwm⟩
    refine ⟨⟨⟨rfl, hready, fun r hr => ?_⟩, hadds.aligned⟩, hwm, hrows, hadds⟩
    exact (Model.expands_of_expanded hm hwm).covers hm hs (mem_uncertainRows.mp (hrows ▸ hr)).1
  refine .quiet_bind (quiet_progress _) fun _ => .bind (.liftFault fun _ _ _ hknown => hknown) fun lines => ?_
  refine .quiet_bind (quiet_detail _ _) fun _ => .pure ?_
  rintro os ⟨⟨⟨rfl, hready, -⟩, hseparated, hadds'⟩, hwm, rfl, hadds⟩
  exact ⟨hwm, hready, hseparated, (hadds.trans hadds').congr (fun hplain => ⟨trivial, hplain⟩)
    (fun x hx => hx) fun _ x hx => hx⟩

/-! ## The whole solve -/

/-- A solve that gave results, together with all that it went through. -/
structure Record where
  launch : Launch Rat ExtRat
  /-- the oracles when the loop begins -/
  oracles : List (Oracle Rat ExtRat)
  rounds : List (Round Rat ExtRat)
  state : LoopState Rat ExtRat
  ending : Option (LoopEnd Rat ExtRat)
  results : RobustResults Rat ExtRat

/-- **A solve together with all that it went through.** -/
def recorded (fuel : Nat) (naming : Naming) (options : RobustOptions Rat) (model : ModelId) (m : Model Rat ExtRat) :
    Run Rat ExtRat Record := do
  let l ← launch naming options m
  let oracles := (← get).oracles
  let (rounds, state, ending) ← SolveLoop.recorded fuel options.forLoop l.separated l.start
  let results ← finish model m l state ending
  return { launch := l, oracles, rounds, state, ending, results }

/-- Every solve that gives results can be recorded. -/
theorem exists_recorded {fuel : Nat} {model : ModelId} {env env' : Environment Rat ExtRat} {r : RobustResults Rat ExtRat}
    (h : (attempt fuel naming options model m).run env = (.ok r, env')) : ∃ record : Record,
      (recorded fuel naming options model m).run env = (.ok record, env') ∧ record.results = r := by
  obtain ⟨l, env₁, hlaunch, hrest⟩ := Edit.run_bind_eq_ok.mp h
  obtain ⟨⟨state, ending⟩, env₂, hloop, hfinish⟩ := Edit.run_bind_eq_ok.mp hrest
  rw [SolveLoop.run_eq_recorded] at hloop
  obtain ⟨⟨rounds, state', ending'⟩, hrecorded, heq⟩ := Edit.run_map_eq_ok.mp hloop
  obtain ⟨rfl, rfl⟩ := Prod.mk.inj heq
  refine ⟨{ launch := l, oracles := env₁.oracles, rounds, state := state', ending := ending', results := r },
    Edit.run_bind_eq_ok.mpr ⟨l, env₁, hlaunch, ?_⟩, rfl⟩
  rw [Edit.run_bind_of_ok (Edit.run_get env₁), Edit.run_bind_of_ok hrecorded]
  exact Edit.run_bind_eq_ok.mpr ⟨r, env', hfinish, rfl⟩

/-- A solve that reaches its loop has an uncertainty set. -/
theorem exists_set_of_launch {env env' : Environment Rat ExtRat} {l : Launch Rat ExtRat}
    (hlaunch : (launch naming options m).run env = (.ok l, env')) : ∃ s, UncertaintySet.ofModel naming m = .ok s := by
  unfold launch at hlaunch
  dsimp only at hlaunch
  split at hlaunch
  next => cases hlaunch
  next =>
    obtain ⟨now, env₁, -, h⟩ := Edit.run_bind_eq_ok.mp hlaunch
    obtain ⟨-, env₂, -, h⟩ := Edit.run_bind_eq_ok.mp h
    obtain ⟨⟨wm, t⟩, env₃, -, h⟩ := Edit.run_bind_eq_ok.mp h
    obtain ⟨-, env₄, -, h⟩ := Edit.run_bind_eq_ok.mp h
    obtain ⟨a, env₅, htimed, -⟩ := Edit.run_bind_eq_ok.mp h
    obtain ⟨now', env₆, -, hstep⟩ := Edit.run_bind_eq_ok.mp htimed
    obtain ⟨b, env₇, hprepare, -⟩ := Edit.run_bind_eq_ok.mp hstep
    obtain ⟨s, env₈, hset, -⟩ := Edit.run_bind_eq_ok.mp hprepare
    exact ⟨s, (Edit.run_lift_eq_ok.mp hset).1⟩

theorem exists_set_of_attempt {fuel : Nat} {model : ModelId} {env env' : Environment Rat ExtRat} {r : RobustResults Rat ExtRat}
    (h : (attempt fuel naming options model m).run env = (.ok r, env')) : ∃ s, UncertaintySet.ofModel naming m = .ok s := by
  obtain ⟨l, env₁, hlaunch, -⟩ := Edit.run_bind_eq_ok.mp h
  exact exists_set_of_launch hlaunch

/-- **The results** of a loop that ended in some way. -/
structure Finished (model : ModelId) (m : Model Rat ExtRat) (l : Launch Rat ExtRat) (state : LoopState Rat ExtRat)
    (ending : Option (LoopEnd Rat ExtRat)) (r : RobustResults Rat ExtRat) : Prop where
  iterations : r.iterations = state.iterations
  /-- a loop that was given too few rounds is an error -/
  unfinished : ending = none → r.outcome = .error
  finished : ∀ e, ending = some e → r.outcome = e.outcome ∧ ∃ r₀, withSolution model m l.working e.final r₀ = .ok r

/-- **What is known of a solve on its way:** the stages before the loop, and the course of the loop so far. -/
structure Underway (naming : Naming) (options : RobustOptions Rat) (m : Model Rat ExtRat) (s : UncertaintySet Rat ExtRat)
    (drawn : List Rat → Prop) (os₀ os : List (Oracle Rat ExtRat)) (l : Launch Rat ExtRat) (rounds : List (Round Rat ExtRat))
    (state : LoopState Rat ExtRat) (ending : Option (LoopEnd Rat ExtRat)) : Prop where
  launched : Launched naming options m s drawn os₀ os l
  course : SolveLoop.Course options.forLoop l.separated l.start rounds state ending
  proper : ∀ r ∈ rounds, r.Proper l.separated (SolverResults.Draws s drawn) (Found s options.tolerance drawn)

/-- **What is known of a recorded solve:** the stages before the loop, the course of the loop, and the results. -/
structure Traced (fuel : Nat) (naming : Naming) (options : RobustOptions Rat) (model : ModelId) (m : Model Rat ExtRat)
    (s : UncertaintySet Rat ExtRat) (drawn : List Rat → Prop) (os₀ : List (Oracle Rat ExtRat)) (record : Record) : Prop extends
    Underway naming options m s drawn os₀ record.oracles record.launch record.rounds record.state record.ending where
  spent : record.ending = none → record.rounds.length = fuel
  finished : Finished model m record.launch record.state record.ending record.results

omit [Written Rat] [Written ExtRat] in
theorem kept_withSolution {model : ModelId} {wm : WorkingModel Rat ExtRat}
    {final : Option (Option (List Rat) × SolverResults Rat)} {r r' : RobustResults Rat ExtRat} (h : withSolution model m wm final r = .ok r') :
    r'.outcome = r.outcome ∧ r'.iterations = r.iterations := by
  unfold withSolution at h
  split at h
  next =>
    cases h
    exact ⟨rfl, rfl⟩
  next => cases h
  next =>
    obtain ⟨policies, -, hpure⟩ := bind_eq_ok.mp h
    cases hpure
    exact ⟨rfl, rfl⟩

omit [Written Rat] [Written ExtRat] in
/-- The objective of results with a final point is what the solver answered. -/
theorem objective_withSolution {model : ModelId} {wm : WorkingModel Rat ExtRat} {x : List Rat} {answer : SolverResults Rat}
    {r r' : RobustResults Rat ExtRat} (h : withSolution model m wm (some (some x, answer)) r = .ok r') :
    r'.objective = answer.objective := by
  obtain ⟨policies, -, hpure⟩ := bind_eq_ok.mp h
  cases hpure
  rfl

omit [Written Rat] [Written ExtRat] in
theorem ensures_finish (model : ModelId) (l : Launch Rat ExtRat) (state : LoopState Rat ExtRat)
    (ending : Option (LoopEnd Rat ExtRat)) :
    Ensures right (finish model m l state ending) P fun r os => P os ∧ Finished model m l state ending r := by
  unfold finish
  dsimp only
  refine .quiet_bind quiet_now fun now => .bind (.lift fun _ _ _ hP => hP) fun timing => ?_
  refine .bind (.lift fun _ _ _ hP => hP) fun time => .lift ?_
  intro r os hr hP
  obtain ⟨houtcome, hiterations⟩ := kept_withSolution hr
  refine ⟨hP, hiterations, fun hnone => ?_, fun e he => ?_⟩
  · rw [houtcome, hnone]
    rfl
  · rw [he] at houtcome hr
    exact ⟨houtcome, _, hr⟩

omit [Written Rat] [Written ExtRat] in
/-- Oracles that are ready find what they have to, and stay ready. -/
theorem separable_of_ready (tolerance : Option Rat) (rows : List (MixedRow Rat ExtRat)) : SolveLoop.Separable
    (SolverResults.Draws s drawn) (fun os => ∀ row ∈ rows, ∀ o, row.oracle = some o →
      ∃ a, os[o]? = some a ∧ a.Prepared s tolerance drawn true) (Found s tolerance drawn) rows where
  separate x row hrow := by
    unfold SolveLoop.separateRow
    split
    next o ho => exact ensures_separate tolerance o row x fun os hready => hready row hrow o ho
    next => exact .throw _
  allow o allowance := by
    refine (ensures_allow o allowance).mono ?_ fun _ _ h => h
    intro os hready a ha row hrow o' ho'
    obtain ⟨a', ha', hprepared⟩ := hready row hrow o' ho'
    by_cases heq : o = o'
    · subst heq
      cases ha.symm.trans ha'
      exact ⟨_, List.getElem?_set_self (List.getElem?_eq_some_iff.mp ha).1, hprepared.allow allowance⟩
    · exact ⟨a', (List.getElem?_set_ne heq).trans ha', hprepared⟩

/-- The oracles of the separated rows are ready when the loop begins. -/
theorem Launched.prepared {os : List (Oracle Rat ExtRat)} {l : Launch Rat ExtRat}
    (h : Launched naming options m s drawn os₀ os l) :
    ∀ row ∈ l.separated, ∀ o, row.oracle = some o → ∃ a, os[o]? = some a ∧ a.Prepared s options.tolerance drawn true := by
  intro row hrow o ho
  rw [h.separated] at hrow
  obtain ⟨huncertain, hseparates⟩ := List.mem_filter.mp hrow
  obtain ⟨a, ha, hprepared⟩ := Readied.of_mem h.ready huncertain ho
  exact ⟨a, ha, hseparates ▸ hprepared⟩

/-- **A solve from its beginning to its results.** -/
theorem ensures_recorded (drawn : List Rat → Prop) (fuel : Nat) (model : ModelId) (hm : m.WellFormed)
    (hs : UncertaintySet.ofModel naming m = .ok s) (horacles : m.HandledBy naming Oracle.Standard os₀) :
    Ensures (SolverResults.Draws s drawn) (recorded fuel naming options model m) (fun os => os = os₀) fun record _ =>
      Traced fuel naming options model m s drawn os₀ record := by
  unfold recorded
  refine .bind (ensures_launch drawn hm hs horacles) fun l => .bind ensures_get fun env => ?_
  dsimp only
  refine .bind (((SolveLoop.ensures_recorded (separable_of_ready options.tolerance l.separated) fuel l.start).keep
    (p := Launched naming options m s drawn os₀ env.oracles l)).mono ?_ fun _ _ h => h) fun (rounds, state, ending) => ?_
  · rintro os ⟨hlaunched, rfl⟩
    exact ⟨hlaunched.prepared, hlaunched⟩
  refine .bind (ensures_finish model l state ending) fun results => .pure ?_
  rintro os ⟨⟨⟨hcourse, hspent, hproper⟩, hlaunched⟩, hfinished⟩
  exact ⟨⟨hlaunched, hcourse, hproper⟩, hspent, hfinished⟩

/-- The answers in the rounds are among those that the solvers gave. -/
theorem ensures_answers (right : LinearProgram Rat ExtRat → SolverResults Rat → Prop) (fuel : Nat) (model : ModelId)
    (hm : m.WellFormed) (hs : UncertaintySet.ofModel naming m = .ok s) (horacles : m.HandledBy naming Oracle.Standard os₀) :
    Ensures right (recorded fuel naming options model m) (fun os => os = os₀) fun record _ =>
      ∀ r ∈ record.rounds, right r.program r.answer := by
  unfold recorded
  refine .bind ((ensures_launch (fun _ => True) hm hs horacles).of_forall fun _ _ => (trivial : True)) fun l =>
    .bind ensures_get fun env => ?_
  dsimp only
  refine .bind ((SolveLoop.ensures_recorded (SolveLoop.separable_trivially right l.separated) fuel l.start).mono
    (fun _ _ => trivial) fun _ _ h => h) fun (rounds, state, ending) => ?_
  refine .bind (ensures_finish model l state ending) fun results => .pure ?_
  rintro os ⟨⟨-, -, hproper⟩, -⟩ r hr
  exact (hproper r hr).answer

/-! ## What follows -/

section

variable {fuel : Nat} {model : ModelId} {record : Record} {env env' : Environment Rat ExtRat} {r : RobustResults Rat ExtRat}

/-- **A solve that gave results,** of which the solvers gave right answers, can be traced. -/
theorem exists_traced (hm : m.WellFormed) (horacles : m.HandledBy naming Oracle.Standard env.oracles)
    (hrun : (attempt fuel naming options model m).run env = (.ok r, env'))
    (htrusted : ∀ s, UncertaintySet.ofModel naming m = .ok s → env.Trusted (SolverResults.Draws s drawn) env') :
    ∃ s record, UncertaintySet.ofModel naming m = .ok s ∧ (recorded fuel naming options model m).run env = (.ok record, env')
      ∧ record.results = r ∧ Traced fuel naming options model m s drawn env.oracles record := by
  obtain ⟨s, hs⟩ := exists_set_of_attempt hrun
  obtain ⟨record, hrecorded, hresults⟩ := exists_recorded hrun
  have htraced := (ensures_recorded drawn fuel model hm hs horacles env).2 record env' hrecorded rfl (htrusted s hs)
  exact ⟨s, record, hs, hrecorded, hresults, htraced⟩

/-- With correct answers, the realizations are drawn from the set. -/
theorem exists_traced_of_correct (hm : m.WellFormed) (horacles : m.HandledBy naming Oracle.Standard env.oracles)
    (hrun : (attempt fuel naming options model m).run env = (.ok r, env'))
    (htrusted : env.Trusted (fun p a => a.Correct p) env') :
    ∃ s record, UncertaintySet.ofModel naming m = .ok s ∧ (recorded fuel naming options model m).run env = (.ok record, env')
      ∧ record.results = r ∧ Traced fuel naming options model m s s.Admits env.oracles record
      ∧ ∀ round ∈ record.rounds, round.answer.Correct round.program := by
  obtain ⟨s, hs⟩ := exists_set_of_attempt hrun
  obtain ⟨record, hrecorded, hresults⟩ := exists_recorded hrun
  have htraced := (ensures_recorded s.Admits fuel model hm hs horacles env).2 record env' hrecorded rfl
    (htrusted.mono fun p a hcorrect => hcorrect.draws (hm.narrowed hs).wellFormed)
  have hcorrect := (ensures_answers (fun p a => a.Correct p) fuel model hm hs horacles env).2 record env' hrecorded rfl htrusted
  exact ⟨s, record, hs, hrecorded, hresults, htraced, hcorrect⟩

/-- Every program that was solved narrows the one with which the loop began, and so does the next one. -/
theorem Underway.narrows {l : Launch Rat ExtRat} {os : List (Oracle Rat ExtRat)} {rounds : List (Round Rat ExtRat)}
    {state : LoopState Rat ExtRat} {ending : Option (LoopEnd Rat ExtRat)}
    (h : Underway naming options m s drawn os₀ os l rounds state ending) :
    (∀ r ∈ rounds, l.program.Narrows r.program) ∧ l.program.Narrows state.program :=
  h.course.narrows h.proper h.launched.adds.aligned

/-- A solve that does not end with an error ended its loop. -/
theorem Traced.exists_ending (h : Traced fuel naming options model m s drawn os₀ record)
    (hends : record.results.outcome ≠ .error) : ∃ e, record.ending = some e ∧ record.results.outcome = e.outcome
      ∧ (∃ r₀, withSolution model m record.launch.working e.final r₀ = .ok record.results)
      ∧ ∃ r ∈ record.rounds,
        e.Follows record.launch.separated (SolveLoop.candidates record.launch.separated record.rounds) r := by
  cases hending : record.ending with
  | none => exact absurd (h.finished.unfinished hending) hends
  | some e =>
    obtain ⟨houtcome, hsolution⟩ := h.finished.finished e hending
    have hbest : record.launch.start.best = SolveLoop.leader [] := rfl
    obtain ⟨before, r, hrounds, -, hfollows⟩ := h.course.follows h.proper hbest e hending
    exact ⟨e, rfl, houtcome, hsolution, r, hrounds ▸ List.mem_append_right _ List.mem_cons_self, hfollows⟩

/-- **The last round of a solve that ends as optimal:** the answer is a point of its program, at which every separated row holds
robustly up to the tolerance. -/
theorem Traced.optimal (h : Traced fuel naming options model m s drawn os₀ record)
    (hoptimal : record.results.outcome = .optimal) :
    ∃ r ∈ record.rounds, ∃ x : List Rat, r.answer.termination = .optimal ∧ r.answer.point = some x
      ∧ x.length = r.program.numColumns ∧ r.program.Feasible (entries x)
      ∧ r.answer.objective = some (r.program.objectiveAt (entries x))
      ∧ (∀ row ∈ record.launch.separated, row.Robust s (slackOf options.tolerance) (entries x))
      ∧ ∃ r₀, withSolution model m record.launch.working (some (some x, r.answer)) r₀ = .ok record.results := by
  obtain ⟨e, -, houtcome, ⟨r₀, hsolution⟩, r, hr, hfollows⟩ := h.exists_ending (hoptimal ▸ nofun)
  obtain ⟨htermination, hfound, hfinal⟩ := hfollows.optimal (houtcome.symm.trans hoptimal)
  have hproper := h.proper r hr
  obtain ⟨x, hx, hlength, hfeasible, hobjective, -⟩ := hproper.answer.1 htermination
  rw [hfinal, hx] at hsolution
  refine ⟨r, hr, x, htermination, hx, hlength, hfeasible, hobjective, fun row hrow v hv hint => ?_, r₀, hsolution⟩
  have hall := hproper.found _ hfound
  rw [List.forall₂_map_right_iff, List.forall₂_same] at hall
  have hholds := (hall row hrow).none rfl v hv hint
  rw [hx, candidateLookup, number_ofList] at hholds
  exact hholds

end

end RobustSolve

/-! ## An example -/

/-- What a quantity exceeds a demand by. -/
def surplus : Expr Rat :=
  .full { terms := [(⟨0, 0⟩, { terms := [], constant := 1 })], constant := { terms := [(⟨0, 0⟩, -1)], constant := 0 } }

/-- A quantity `x`, with bounds for what it exceeds a demand `u` between zero and one by. -/
def surplusModel (least : ExtRat) (cost : Rat) (lower upper : ExtRat) : Model Rat ExtRat where
  name := "surplus"
  robust := true
  decisions := [{ name := some "x", lower := ⟨least, false⟩, upper := ⟨posInf, false⟩, domain := .reals }]
  values := [none]
  objective := .linear { terms := [(⟨0, 0⟩, cost)], constant := 0 }
  parameters := [{ name := some "u", lower := ⟨finite 0, false⟩, upper := ⟨finite 1, false⟩, domain := .reals }]
  uncertain := [(⟨surplus, lower, upper⟩, none)]

theorem wellFormed_surplusModel (least : ExtRat) (cost : Rat) (lower upper : ExtRat) :
    (surplusModel least cost lower upper).WellFormed where
  constraints := nofun
  setConstraints := nofun
  setColumns := nofun
  uncertain := by
    refine List.forall_mem_singleton.mpr ⟨?_, ?_⟩
    · exact (List.forall_mem_singleton (a := 0)).mpr Nat.one_pos
    · exact (List.forall_mem_singleton (a := 0)).mpr Nat.one_pos
  objective := ⟨(List.forall_mem_singleton (a := 0)).mpr Nat.one_pos, nofun⟩
  distinct := List.nodup_nil
  adaptive := nofun
  continuous := nofun

theorem realizes_surplusModel (least : ExtRat) (cost : Rat) (lower upper : ExtRat) :
    (surplusModel least cost lower upper).Realizes [1] where
  size := rfl
  bounds
    | 0, _, rfl => by decide +kernel
  integral
    | 0, _, rfl => nofun
  constraints := nofun

/-- The smallest quantity that covers the demand. -/
def coverModel : Model Rat ExtRat := surplusModel (finite 0) 1 (finite 0) posInf

def exactOptions (nominalCuts : Bool) : RobustOptions Rat := { solver := some 0, tolerance := some 0, nominalCuts }

def replayedPoint (x : List Rat) : ReplayedAnswer Rat := { delay := 0, point := some x }

/-- A solver whose answers lead to one cut, and a separating oracle. -/
def coverEnvironment : Environment Rat ExtRat where
  clock := 0
  solvers := [.replaying "replayed" ([[0], [0], [1], [1], [1]].map replayedPoint)]
  oracles := [.separating false { tolerance := none }]

def coverSolve : Run Rat ExtRat (RobustResults Rat ExtRat) :=
  RobustSolve.attempt 9 (Catalog.naming [coverModel]) (exactOptions true) 0 coverModel

/-- A solve that was run, with the certificates of the answers. -/
theorem exists_run_of_certified (solve : Run Rat ExtRat (RobustResults Rat ExtRat)) (env : Environment Rat ExtRat)
    (outcome : Outcome) (cs : List Certificate) (houtcome : (solve.run env).1.toOption.map (·.outcome) = some outcome)
    (hcertified : env.certified (solve.run env).2 cs = true) :
    ∃ r env', solve.run env = (.ok r, env') ∧ r.outcome = outcome ∧ env.Trusted (fun p a => a.Correct p) env' := by
  rcases hrun : solve.run env with ⟨r, env'⟩
  rw [hrun] at houtcome hcertified
  cases r with
  | error err => cases houtcome
  | ok r => exact ⟨r, env', rfl, Option.some.inj houtcome, Environment.trusted_of_certified hcertified⟩

/-- The solve ends as optimal, and the solver answers correctly. -/
theorem cover_optimal : ∃ r env', coverSolve.run coverEnvironment = (.ok r, env') ∧ r.outcome = .optimal
    ∧ coverEnvironment.Trusted (fun p a => a.Correct p) env' :=
  exists_run_of_certified coverSolve coverEnvironment .optimal
    [.optimum [0], .optimum [0, 1], .optimum [-1], .optimum [0, 1, 0], .optimum [-1]] (by decide +kernel) (by decide +kernel)

end RobustLP
