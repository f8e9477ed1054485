import RobustLP.Proofs.Solve.Questions

/-!
# The rounds that a loop made

A loop consults the solver and the oracles, draws its conclusions, and begins again. `Trail` lists the rounds in which it did so,
each with the state and the environments around it (`Lap`), as far as they succeeded. Every run of the loop has a trail, also one
that fails: it then ends with a round that fails, in the state to which its trail leads (`exists_passes_of_run`). A solve that
gives results launches a loop, goes through such rounds, and finishes with the state of the last one (`RobustSolve.Proceeds`).
-/

namespace RobustLP

open Run

variable {K B : Type}

/-- Only time passed between two environments. -/
def Environment.Later (env env' : Environment K B) : Prop :=
  ∃ clock pauses, env' = { env with clock, pauses }

theorem Environment.Later.calls {env env' : Environment K B} (h : env.Later env') : env'.calls = env.calls := by
  obtain ⟨clock, pauses, rfl⟩ := h
  rfl

theorem Environment.Later.asked {env env' : Environment K B} (h : env.Later env') : env.Asked [] env' := by
  obtain ⟨clock, pauses, rfl⟩ := h
  exact .of_eq rfl List.prefix_rfl rfl

namespace SolveLoop

variable {env env' : Environment K B} {sorts : List Bool}

/-! ## Clock and solvers -/

theorem eq_of_run_solverOf {id : Option SolverId} {solver : SolverId × Solver K B}
    (h : (solverOf id : Run K B _).run env = (.ok solver, env')) : env' = env := by
  cases id with
  | none => cases h
  | some i =>
    unfold solverOf at h
    dsimp only at h
    rw [Edit.run_bind_of_ok (Edit.run_get env)] at h
    cases hsolver : env.solvers[i]? with
    | none =>
      rw [hsolver] at h
      cases h
    | some solver =>
      rw [hsolver] at h
      cases h
      rfl

theorem eq_of_run_secondsOf {a : Option (TimeAllowance K)} {limit : Option K}
    (h : (secondsOf a : Run K B _).run env = (.ok limit, env')) : env' = env := by
  cases a with
  | none =>
    cases h
    rfl
  | some a =>
    obtain ⟨t, env₁, hlift, h⟩ := Edit.run_bind_eq_ok.mp h
    cases h
    exact (Edit.run_lift_eq_ok.mp hlift).2

/-- The titles of the iteration log change nothing but the log. -/
theorem run_header (env : Environment K B) : ∃ env₁ : Environment K B, ((Report.header true).forM Run.progress).run env = (.ok ⟨⟩, env₁)
    ∧ env₁.questions = env.questions ∧ env₁.sorts = env.sorts :=
  ⟨_, rfl, rfl, rfl⟩

section

variable [Scalar K B]

theorem later_of_run_now {time : K} (h : (now : Run K B K).run env = (.ok time, env')) : env.Later env' := by
  unfold now at h
  rw [Edit.run_bind_of_ok (Edit.run_get env)] at h
  cases hpauses : env.pauses with
  | nil =>
    rw [hpauses] at h
    cases h
    exact ⟨env.clock, env.pauses, rfl⟩
  | cons pause rest =>
    rw [hpauses] at h
    cases h
    exact ⟨_, _, rfl⟩

theorem later_of_run_remaining {t : TimerTree K} {left : Option K}
    (h : (remaining options t).run env = (.ok left, env')) : env.Later env' := by
  obtain ⟨time, env₁, hnow, hlift⟩ := Edit.run_bind_eq_ok.mp h
  rw [(Edit.run_lift_eq_ok.mp hlift).2]
  exact later_of_run_now hnow

/-- A timed step is run between two looks at the clock. -/
theorem exists_run_of_timed {α : Type} {stage : Stage} {t t' : TimerTree K} {step : Run K B α} {a : α}
    (h : (timed stage t step).run env = (.ok (a, t'), env')) :
    ∃ env₁ env₂, env.Later env₁ ∧ step.run env₁ = (.ok a, env₂) ∧ env₂.Later env' := by
  obtain ⟨time, env₁, hnow, h⟩ := Edit.run_bind_eq_ok.mp h
  obtain ⟨b, env₂, hstep, h⟩ := Edit.run_bind_eq_ok.mp h
  obtain ⟨time', env₃, hnow', h⟩ := Edit.run_bind_eq_ok.mp h
  obtain ⟨t₁, env₄, hlift, h⟩ := Edit.run_bind_eq_ok.mp h
  cases h
  rw [(Edit.run_lift_eq_ok.mp hlift).2]
  exact ⟨env₁, env₂, later_of_run_now hnow, hstep, later_of_run_now hnow'⟩

/-- A call that was answered is recorded, with the program that the solver was handed. -/
theorem calls_of_run_solve {id : Option SolverId} {a : Option (TimeAllowance K)} {p : LinearProgram K B}
    {answer : SolverResults K} (h : (Run.solve id a p).run env = (.ok answer, env')) :
    ∃ c, env'.calls = env.calls ++ [c] ∧ c.program = p := by
  obtain ⟨⟨i, solver⟩, env₁, hsolver, h⟩ := Edit.run_bind_eq_ok.mp h
  obtain ⟨limit, env₂, hseconds, h⟩ := Edit.run_bind_eq_ok.mp h
  rw [eq_of_run_solverOf hsolver] at hseconds
  rw [eq_of_run_secondsOf hseconds] at h
  obtain ⟨⟨⟩, env₃, hmodify, h⟩ := Edit.run_bind_eq_ok.mp h
  cases hmodify
  rw [(Edit.run_lift_eq_ok.mp h).2]
  exact ⟨_, rfl, rfl⟩

/-! ## Separating all rows -/

variable [Bound B] {options : LoopOptions K} {rows : List (MixedRow K B)}

/-- The request to separate a candidate from a row. -/
def requests (x : Option (List K)) (row : MixedRow K B) : List (OracleCall K B) :=
  row.oracle.toList.map fun o => .separate o row x

theorem asks_separateRow (x : Option (List K)) (row : MixedRow K B) :
    Asks sorts (separateRow x row) fun _ qs => qs = requests x row := by
  unfold separateRow requests
  cases row.oracle with
  | none => exact .throw rfl
  | some o => exact asks_separate o row x

/-- **Separating all rows,** one after the other or several at the same time. -/
theorem asks_separateAll (workers : Option Int) (x : Option (List K)) (rows : List (MixedRow K B)) :
    Asks sorts (separateAll workers x rows) fun r qs => ∃ first, first <+: rows ∧ qs = first.flatMap (requests x)
      ∧ ∀ found, r = .ok found → first = rows ∧ found.length = rows.length := by
  unfold separateAll
  cases workers with
  | none => exact .throw ⟨[], List.nil_prefix, rfl, fun _ h => nomatch h⟩
  | some n =>
    dsimp only
    split
    next =>
      unfold separateTogether
      -- each row is attempted, so that all are asked for before the first failure is reported
      refine .bind (.mapM (fun row => (asks_separateRow x row).attempt.mono fun _ _ ⟨_, _, h⟩ => h) rows) ?_ ?_
      · rintro answers qs ⟨first, hfirst, hqs, hall⟩
        obtain ⟨rfl, hlength⟩ := hall answers rfl
        refine (Asks.mapM (fun r => Silent.lift r) answers).mono ?_
        rintro r qs' ⟨rest, -, hqs', hall'⟩
        refine ⟨first, hfirst, by simp [hqs, hqs'], fun found h => ⟨rfl, ?_⟩⟩
        rw [(hall' found h).2, hlength]
      · rintro e qs ⟨first, hfirst, hqs, -⟩
        exact ⟨first, hfirst, hqs, fun _ h => nomatch h⟩
    next => exact .mapM (asks_separateRow x) rows

theorem asks_separation (x : Option (List K)) (t : TimerTree K) {found : Option (List (Option (Realization K B)))}
    {t' : TimerTree K} (h : (separation options rows x t).run env = (.ok (found, t'), env')) :
    ∃ first, first <+: rows ∧ env.Asked (first.flatMap (requests x)) env' ∧ (∀ fs, found = some fs → first = rows ∧ fs.length = rows.length)
      ∧ (found = none → ∃ env₁ env₂ e, isTimeLimit e = true
        ∧ (separateAll options.workers x rows).run env₁ = (.error e, env₂)) := by
  obtain ⟨⟨r, t₁⟩, env₁, htimed, h⟩ := Edit.run_bind_eq_ok.mp h
  obtain ⟨env₂, env₃, hlater, hattempt, hlater'⟩ := exists_run_of_timed htimed
  have hrun : (separateAll options.workers x rows).run env₂ = (r, env₃) := by
    cases hattempt
    rfl
  obtain ⟨qs, hasked, first, hfirst, rfl, hall⟩ := (asks_separateAll options.workers x rows).of_run rfl hrun
  have henv : env.Asked (first.flatMap (requests x)) env₁ := by
    have h := (hlater.asked.trans hasked).trans hlater'.asked
    rwa [List.nil_append, List.append_nil] at h
  cases r with
  | ok fs =>
    cases h
    exact ⟨first, hfirst, henv, fun fs' hfs => by cases hfs; exact hall fs rfl, fun h => nomatch h⟩
  | error e =>
    dsimp only at h
    split at h
    next hlimit =>
      obtain ⟨⟨⟩, env₄, hdetail, h⟩ := Edit.run_bind_eq_ok.mp h
      cases h
      obtain ⟨qs, hdetail, rfl⟩ := (silent_detail .loop (e.message.getD "")).of_run rfl hdetail
      refine ⟨first, hfirst, ?_, fun fs h => (nomatch h), fun _ => ⟨env₂, env₃, e, hlimit, hrun⟩⟩
      have h := henv.trans hdetail
      rwa [List.append_nil] at h
    next => cases h

end

end SolveLoop

/-! ## Laps -/

/-- A round, the state and the environment in which it began, and the environments after the solver and the oracles were
consulted and after the conclusions were drawn. -/
structure Lap (K B : Type) where
  state : LoopState K B
  before : Environment K B
  round : Round K B
  timing : TimerTree K
  consulted : Environment K B
  after : Environment K B

/-- What a round found for the row at a position. -/
def Round.realizationAt (i : Nat) (r : Round K B) : Option (Realization K B) := (r.found.bind fun found => found[i]?).join

/-- What a lap found for the row at a position. -/
def Lap.foundAt (i : Nat) (lap : Lap K B) : Option (Realization K B) := lap.round.realizationAt i

namespace SolveLoop

variable [Bound B] [Scalar K B] [Written K] [Written B]

/-- A round that succeeded, and the state and ending to which it led. -/
structure Succeeds (options : LoopOptions K) (rows : List (MixedRow K B)) (lap : Lap K B) (s' : LoopState K B)
    (ending : Option (LoopEnd K B)) : Prop where
  consult : (consult options rows lap.state.program lap.state.timing).run lap.before
    = (.ok (lap.round, lap.timing), lap.consulted)
  judge : (judge options rows lap.round
      { lap.state with iterations := lap.state.iterations + 1, timing := lap.timing }).run lap.consulted
    = (.ok (s', ending), lap.after)

/-- **The rounds between two states of a loop.** -/
inductive Trail (options : LoopOptions K) (rows : List (MixedRow K B)) :
    LoopState K B → Environment K B → List (Lap K B) → LoopState K B → Environment K B → Option (LoopEnd K B) → Prop where
  | start (s : LoopState K B) (env : Environment K B) : Trail options rows s env [] s env none
  | next {s s' : LoopState K B} {env : Environment K B} {laps : List (Lap K B)} {lap : Lap K B}
      {ending : Option (LoopEnd K B)} (h : Trail options rows s env laps lap.state lap.before none)
      (hlap : Succeeds options rows lap s' ending) : Trail options rows s env (laps ++ [lap]) s' lap.after ending

variable {options : LoopOptions K} {rows : List (MixedRow K B)} {s s' : LoopState K B} {env env' : Environment K B}
  {ending : Option (LoopEnd K B)} {laps : List (Lap K B)} {sorts : List Bool}

/-! ## Trails of runs -/

theorem exists_lap_of_run_round (h : (round options rows s).run env = (.ok (s', ending), env')) :
    ∃ lap : Lap K B, lap.state = s ∧ lap.before = env ∧ lap.after = env' ∧ Succeeds options rows lap s' ending := by
  obtain ⟨⟨r, timing⟩, env₁, hconsult, hjudge⟩ := Edit.run_bind_eq_ok.mp h
  exact ⟨⟨s, env, r, timing, env₁, env'⟩, rfl, rfl, rfl, hconsult, hjudge⟩

theorem Trail.single {lap : Lap K B} (hlap : Succeeds options rows lap s ending) :
    Trail options rows lap.state lap.before [lap] s lap.after ending :=
  List.nil_append [lap] ▸ .next (.start lap.state lap.before) hlap

theorem Trail.cons {lap : Lap K B} (hlap : Succeeds options rows lap s none)
    (h : Trail options rows s lap.after laps s' env' ending) :
    Trail options rows lap.state lap.before (lap :: laps) s' env' ending := by
  -- the trail grows at its end, so the first lap is put before it by induction
  generalize hafter : lap.after = env at h
  induction h with
  | start s =>
    subst hafter
    exact .single hlap
  | next _ hlast ih => exact .next (ih hafter) hlast

theorem Trail.succeeds (h : Trail options rows s env laps s' env' ending) {lap : Lap K B} (hlap : lap ∈ laps) :
    ∃ s₁ ending₁, Succeeds options rows lap s₁ ending₁ := by
  induction h with
  | start env => cases hlap
  | next _ hlast ih =>
    rcases List.mem_append.mp hlap with hlap | hlap
    · exact ih hlap
    · rw [List.mem_singleton.mp hlap]
      exact ⟨_, _, hlast⟩

/-- How a run of the loop ended: as its trail says, or with a round that failed. -/
inductive Leaves (options : LoopOptions K) (rows : List (MixedRow K B)) (s : LoopState K B) (env : Environment K B) :
    Option (LoopEnd K B) → Except Error (LoopState K B × Option (LoopEnd K B)) × Environment K B → Prop where
  | ok (ending : Option (LoopEnd K B)) : Leaves options rows s env ending (.ok (s, ending), env)
  | error {e : Error} {env' : Environment K B} (h : (round options rows s).run env = (.error e, env')) :
      Leaves options rows s env none (.error e, env')

/-- **Every run of some rounds has a trail;** if the loop did not end, it made all of them. -/
theorem exists_trail_of_run_rounds (options : LoopOptions K) (rows : List (MixedRow K B)) :
    ∀ (n : Nat) (s : LoopState K B) (env : Environment K B), ∃ laps s' env' ending, Trail options rows s env laps s' env' ending
      ∧ Leaves options rows s' env' ending ((rounds options rows n s).run env)
      ∧ (∀ r, ((rounds options rows n s).run env).1 = .ok r → ending = none → laps.length = n)
  | 0, s, env => ⟨[], s, env, none, .start s env, .ok none, fun _ _ _ => rfl⟩
  | n + 1, s, env => by
    rw [rounds]
    rcases hround : (round options rows s).run env with ⟨r, env₁⟩
    cases r with
    | error e =>
      rw [Edit.run_bind_of_error hround]
      exact ⟨[], s, env, none, .start s env, .error hround, fun _ h => nomatch h⟩
    | ok step =>
      obtain ⟨s₁, ending⟩ := step
      rw [Edit.run_bind_of_ok hround]
      obtain ⟨lap, rfl, rfl, rfl, hlap⟩ := exists_lap_of_run_round hround
      cases ending with
      | some e => exact ⟨[lap], s₁, lap.after, some e, .single hlap, .ok (some e), fun _ _ h => nomatch h⟩
      | none =>
        obtain ⟨laps, s', env', ending, htrail, hleaves, hlength⟩ := exists_trail_of_run_rounds options rows n s₁ lap.after
        refine ⟨lap :: laps, s', env', ending, htrail.cons hlap, hleaves, fun r hr hnone => ?_⟩
        rw [List.length_cons, hlength r hr hnone]

/-- **A run of the loop from an environment:** behind the titles of the iteration log it goes through the rounds of a trail, and
leaves where the trail leads. -/
structure Passes (fuel : Nat) (options : LoopOptions K) (rows : List (MixedRow K B)) (s : LoopState K B) (env : Environment K B)
    (laps : List (Lap K B)) (s' : LoopState K B) (env' : Environment K B) (ending : Option (LoopEnd K B)) : Prop where
  trail : ∃ env₁, ((Report.header true).forM Run.progress).run env = (.ok ⟨⟩, env₁)
    ∧ Trail options rows s env₁ laps s' env' ending
  leaves : Leaves options rows s' env' ending ((SolveLoop.run fuel options rows s).run env)
  /-- a loop that neither fails nor ends makes all rounds that it may -/
  complete : ∀ r, ((SolveLoop.run fuel options rows s).run env).1 = .ok r → ending = none → laps.length = fuel

/-- **Every run of the loop has a trail.** -/
theorem exists_passes_of_run (fuel : Nat) (options : LoopOptions K) (rows : List (MixedRow K B)) (s : LoopState K B)
    (env : Environment K B) : ∃ laps s' env' ending, Passes fuel options rows s env laps s' env' ending := by
  obtain ⟨env₁, hheader, -, -⟩ := run_header env
  obtain ⟨laps, s', env', ending, htrail, hleaves, hlength⟩ := exists_trail_of_run_rounds options rows fuel s env₁
  have hrun : (SolveLoop.run fuel options rows s).run env = (rounds options rows fuel s).run env₁ := by
    rw [SolveLoop.run, Edit.run_bind_of_ok hheader]
  exact ⟨laps, s', env', ending, ⟨env₁, hheader, htrail⟩, hrun ▸ hleaves, hrun ▸ hlength⟩

/-- The first part of a round: the program is solved within the time that is left. -/
def solving (options : LoopOptions K) (p : LinearProgram K B) (t : TimerTree K) :
    Run K B (SolverResults K × TimerTree K) := do
  let left ← remaining options t
  timed .solve t (Run.solve options.solver (allowance left) p)

/-- The time that is left when the answer of a round has come in. -/
def TimeLeft (options : LoopOptions K) (lap : Lap K B) (left : Option K) : Prop :=
  ∃ t env₁ env₂, (solving options lap.state.program lap.state.timing).run lap.before = (.ok (lap.round.answer, t), env₁)
    ∧ (remaining options t).run env₁ = (.ok left, env₂)

/-- **What a round asks of oracles.** Only an optimal answer is separated, and only while time is left; then each row is asked
for once, unless the time limit cuts the round short. -/
inductive Requests (options : LoopOptions K) (rows : List (MixedRow K B)) (lap : Lap K B) : List (OracleCall K B) → Prop where
  | refused (hanswer : Outcome.ofTermination lap.round.answer.termination ≠ .optimal) (hfound : lap.round.found = none) :
      Requests options rows lap []
  | certain (hanswer : Outcome.ofTermination lap.round.answer.termination = .optimal) (hrows : rows = [])
      (hfound : lap.round.found = some []) : Requests options rows lap []
  | late (hanswer : Outcome.ofTermination lap.round.answer.termination = .optimal) (hrows : rows ≠ []) (left : Option K)
      (htime : TimeLeft options lap left) (hleft : timeLeft left = false) (hfound : lap.round.found = none) :
      Requests options rows lap []
  | cut (hanswer : Outcome.ofTermination lap.round.answer.termination = .optimal) (hrows : rows ≠ []) (left : Option K)
      (htime : TimeLeft options lap left) (hleft : timeLeft left = true) (hfound : lap.round.found = none)
      (env env' : Environment K B) (e : Error) (hlimit : isTimeLimit e = true)
      (hcut : (separateAll options.workers lap.round.answer.point rows).run env = (.error e, env'))
      (first : List (MixedRow K B)) (hfirst : first <+: rows) :
      Requests options rows lap (first.flatMap (requests lap.round.answer.point))
  | all (hanswer : Outcome.ofTermination lap.round.answer.termination = .optimal) (hrows : rows ≠ []) (left : Option K)
      (htime : TimeLeft options lap left) (hleft : timeLeft left = true) (found : List (Option (Realization K B)))
      (hfound : lap.round.found = some found) (hlength : found.length = rows.length) :
      Requests options rows lap (rows.flatMap (requests lap.round.answer.point))

omit [Bound B] in
theorem silent_logRound (s : LoopState K B) (objective : Option K) (cuts violated : Option Nat) (violation : Option B) :
    Silent sorts (logRound s objective cuts violated violation : Run K B Unit) :=
  .bind (.bind silent_now fun _ => .lift _) fun _ => silent_progress _

/-- **Drawing conclusions asks nothing of oracles.** -/
theorem silent_judge (r : Round K B) (s : LoopState K B) : Silent sorts (judge options rows r s) := by
  have hspent : ∀ s : LoopState K B, Silent sorts (roundsSpent options s : Run K B Bool) := by
    intro s
    unfold roundsSpent
    split
    next => exact .throw _
    next => exact .pure _
  have hlate : ∀ t, Silent sorts (outOfTime options t : Run K B Bool) := by
    intro t
    unfold outOfTime
    split
    next => exact .pure _
    next => exact .bind (.bind silent_now fun _ => .lift _) fun _ => .pure _
  unfold judge
  dsimp only
  split
  next =>
    split
    next => exact .bind (silent_logRound _ _ _ _ _) fun _ => .pure _
    next found hfound =>
      refine .ite (.bind (silent_logRound _ _ _ _ _) fun _ => .pure _) ?_
      unfold conclude
      refine .bind (.lift _) fun s => .bind (silent_logRound _ _ _ _ _) fun _ => .ite (.pure _) ?_
      refine .bind (hspent s) fun spent => .ite (.pure _) (.bind (hlate _) fun late => .ite (.pure _) (.pure _))
  next => exact .bind (silent_logRound _ _ _ _ _) fun _ => .ite (.pure _) (.pure _)

omit [Bound B] [Written B] in
theorem calls_of_run_solving {p : LinearProgram K B} {t t' : TimerTree K} {answer : SolverResults K}
    (h : (solving options p t).run env = (.ok (answer, t'), env')) : ∃ c, env'.calls = env.calls ++ [c] ∧ c.program = p := by
  obtain ⟨left, env₁, hleft, h⟩ := Edit.run_bind_eq_ok.mp h
  obtain ⟨env₂, env₃, hlater, hsolve, hlater'⟩ := exists_run_of_timed h
  rw [hlater'.calls, ← (later_of_run_remaining hleft).calls, ← hlater.calls]
  exact calls_of_run_solve hsolve

omit [Bound B] [Written B] in
theorem asked_of_run_solving {p : LinearProgram K B} {t t' : TimerTree K} {answer : SolverResults K}
    (h : (solving options p t).run env = (.ok (answer, t'), env')) : env.Asked [] env' := by
  obtain ⟨left, env₁, hleft, h⟩ := Edit.run_bind_eq_ok.mp h
  obtain ⟨env₂, env₃, hlater, hsolve, hlater'⟩ := exists_run_of_timed h
  obtain ⟨qs, hasked, rfl⟩ := (silent_solve _ _ _).of_run rfl hsolve
  exact (((later_of_run_remaining hleft).asked.trans hlater.asked).trans hasked).trans hlater'.asked

variable {lap : Lap K B}

omit [Written B] in
/-- **The solver and the oracles are consulted** one after the other; only optimal answers are separated. -/
theorem exists_solving_of_run_consult
    (h : (consult options rows lap.state.program lap.state.timing).run lap.before = (.ok (lap.round, lap.timing), lap.consulted)) :
    lap.round.program = lap.state.program ∧ ∃ t env₁,
      (solving options lap.state.program lap.state.timing).run lap.before = (.ok (lap.round.answer, t), env₁)
      ∧ (Outcome.ofTermination lap.round.answer.termination ≠ .optimal ∧ lap.round.found = none ∧ lap.consulted = env₁
        ∨ Outcome.ofTermination lap.round.answer.termination = .optimal
          ∧ (examine options rows lap.round.answer.point t).run env₁ = (.ok (lap.round.found, lap.timing), lap.consulted)) := by
  obtain ⟨left, env₁, hleft, h⟩ := Edit.run_bind_eq_ok.mp h
  obtain ⟨⟨answer, t⟩, env₂, hsolve, h⟩ := Edit.run_bind_eq_ok.mp h
  have hsolving : (solving options lap.state.program lap.state.timing).run lap.before = (.ok (answer, t), env₂) :=
    (Edit.run_bind_of_ok hleft).trans hsolve
  dsimp only at h
  split at h
  next hoptimal =>
    obtain ⟨⟨found, t'⟩, env₃, hexamine, h⟩ := Edit.run_bind_eq_ok.mp h
    obtain ⟨hpair, henv⟩ := Edit.run_pure_eq_ok.mp h
    obtain ⟨hround, htiming⟩ := Prod.mk.inj hpair
    rw [← hround, ← htiming, ← henv]
    exact ⟨rfl, t, env₂, hsolving, .inr ⟨hoptimal, hexamine⟩⟩
  next hne =>
    obtain ⟨hpair, henv⟩ := Edit.run_pure_eq_ok.mp h
    obtain ⟨hround, htiming⟩ := Prod.mk.inj hpair
    rw [← hround, ← henv]
    exact ⟨rfl, t, env₂, hsolving, .inl ⟨hne, rfl, rfl⟩⟩

omit [Written B] in
/-- **What the separation of an optimal answer asks.** -/
theorem exists_requests_of_run_examine {t : TimerTree K} {env₁ : Environment K B}
    (hoptimal : Outcome.ofTermination lap.round.answer.termination = .optimal)
    (hsolving : (solving options lap.state.program lap.state.timing).run lap.before = (.ok (lap.round.answer, t), env₁))
    (h : (examine options rows lap.round.answer.point t).run env₁ = (.ok (lap.round.found, lap.timing), lap.consulted)) :
    ∃ qs, env₁.Asked qs lap.consulted ∧ Requests options rows lap qs := by
  unfold examine at h
  split at h
  next hempty =>
    obtain ⟨hpair, henv⟩ := Edit.run_pure_eq_ok.mp h
    exact ⟨[], henv ▸ .of_eq rfl List.prefix_rfl rfl,
      .certain hoptimal (List.isEmpty_iff.mp hempty) (Prod.mk.inj hpair).1.symm⟩
  next hempty =>
    have hrows : rows ≠ [] := fun h => hempty (List.isEmpty_iff.mpr h)
    obtain ⟨left, env₂, hleft, h⟩ := Edit.run_bind_eq_ok.mp h
    have htime : TimeLeft options lap left := ⟨t, env₁, env₂, hsolving, hleft⟩
    have hread := (later_of_run_remaining hleft).asked
    split at h
    next htrue =>
      obtain ⟨⟨⟩, env₃, hallow, h⟩ := Edit.run_bind_eq_ok.mp h
      obtain ⟨qs, hallowed, rfl⟩ := (Silent.forM fun o _ => silent_allow o (allowance left)).of_run rfl hallow
      obtain ⟨first, hfirst, hasked, hall, hcut⟩ := asks_separation lap.round.answer.point t h
      -- realizations are only found if no time limit cut the separation short
      refine ⟨first.flatMap (requests lap.round.answer.point), (hread.trans hallowed).trans hasked, ?_⟩
      cases hfound : lap.round.found with
      | none =>
        obtain ⟨env₄, env₅, e, hlimit, hrun⟩ := hcut hfound
        exact .cut hoptimal hrows left htime htrue hfound env₄ env₅ e hlimit hrun first hfirst
      | some found =>
        obtain ⟨rfl, hlength⟩ := hall found hfound
        exact .all hoptimal hrows left htime htrue found hfound hlength
    next hfalse =>
      obtain ⟨hpair, henv⟩ := Edit.run_pure_eq_ok.mp h
      exact ⟨[], henv ▸ hread,
        .late hoptimal hrows left htime (Bool.eq_false_iff.mpr hfalse) (Prod.mk.inj hpair).1.symm⟩

omit [Written B] in
/-- **What a round asks** goes behind what was asked before. -/
theorem exists_requests
    (h : (consult options rows lap.state.program lap.state.timing).run lap.before = (.ok (lap.round, lap.timing), lap.consulted)) :
    ∃ qs, lap.before.Asked qs lap.consulted ∧ Requests options rows lap qs := by
  obtain ⟨-, t, env₁, hsolving, ⟨hne, hfound, henv⟩ | ⟨hoptimal, hexamine⟩⟩ := exists_solving_of_run_consult h
  · exact ⟨[], henv ▸ asked_of_run_solving hsolving, .refused hne hfound⟩
  · obtain ⟨qs, hasked, hrequests⟩ := exists_requests_of_run_examine hoptimal hsolving hexamine
    exact ⟨qs, (asked_of_run_solving hsolving).trans hasked, hrequests⟩

end SolveLoop

namespace RobustSolve

open SolveLoop

variable [Bound B] [Scalar K B] [Written K] [Written B]

/-- **The way of a solve to its results:** the loop that was launched, the rounds through which it went, and the state with which
the solve was finished. -/
def Proceeds (fuel : Nat) (naming : Naming) (options : RobustOptions K) (model : ModelId) (m : Model K B)
    (env : Environment K B) (l : Launch K B) (laps : List (Lap K B)) (r : RobustResults K B) (env' : Environment K B) : Prop :=
  ∃ env₀ env₁ s ending, (launch naming options m).run env = (.ok l, env₀)
    ∧ Passes fuel options.forLoop l.separated l.start env₀ laps s env₁ ending
    ∧ (finish model m l s ending).run env₁ = (.ok r, env')

/-- **Every solve that gives results goes this way.** -/
theorem exists_proceeds_of_run {fuel : Nat} {naming : Naming} {options : RobustOptions K} {model : ModelId} {m : Model K B}
    {env env' : Environment K B} {r : RobustResults K B} (h : (attempt fuel naming options model m).run env = (.ok r, env')) :
    ∃ l laps, Proceeds fuel naming options model m env l laps r env' := by
  obtain ⟨l, env₀, hlaunch, h⟩ := Edit.run_bind_eq_ok.mp h
  obtain ⟨⟨s, ending⟩, env₁, hloop, hfinish⟩ := Edit.run_bind_eq_ok.mp h
  obtain ⟨laps, s', env₂, ending', hpasses⟩ := exists_passes_of_run fuel options.forLoop l.separated l.start env₀
  -- the loop did not fail, so its trail leads to the state that it left
  have hleaves := hpasses.leaves
  rw [hloop] at hleaves
  cases hleaves
  exact ⟨l, laps, env₀, env₁, s, ending, hlaunch, hpasses, hfinish⟩

end RobustSolve

end RobustLP
