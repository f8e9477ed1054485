import RobustLP.Environment
import RobustLP.Proofs.Value

/-!
# Runs and the answers of solvers

About a solver nothing is known but what it answers. An environment records the programs that solvers were handed, and each
answer can be recovered from this record (`answers`); so what a run achieves may be said under the condition that the answers
given in the course of it are right (`Environment.Trusted`).

`Run.Ensures` says what a run achieves in this sense. Besides its answer this may concern the oracles, the only other part of an
environment that matters to a solve.
-/

namespace RobustLP

/-- The solvers after some calls. -/
def solversAfter (solvers : List (Solver Rat ExtRat)) (calls : List (SolverCall Rat ExtRat)) : List (Solver Rat ExtRat) :=
  calls.foldl (fun ss c => match ss[c.solver]? with
    | some s => ss.set c.solver (s.answer c.program).2.2
    | none => ss) solvers

/-- The programs of some calls, with what was answered to each of them. -/
def answers : List (Solver Rat ExtRat) → List (SolverCall Rat ExtRat) →
    List (LinearProgram Rat ExtRat × Except Error (SolverResults Rat))
  | _, [] => []
  | ss, c :: cs => match ss[c.solver]? with
    | some s => (c.program, (s.answer c.program).1) :: answers (ss.set c.solver (s.answer c.program).2.2) cs
    | none => answers ss cs

theorem answers_append (cs cs' : List (SolverCall Rat ExtRat)) : ∀ ss : List (Solver Rat ExtRat),
    answers ss (cs ++ cs') = answers ss cs ++ answers (solversAfter ss cs) cs' := by
  induction cs with
  | nil => exact fun _ => rfl
  | cons c cs ih =>
    intro ss
    rw [List.cons_append, answers, answers, solversAfter, List.foldl_cons]
    split
    next s hs =>
      rw [ih, List.cons_append]
      rfl
    next hs => exact ih ss

namespace Environment

/-- An environment after some more calls. -/
def Before (env env' : Environment Rat ExtRat) : Prop :=
  ∃ new, env'.calls = env.calls ++ new ∧ env'.solvers = solversAfter env.solvers new

/-- All answers between two environments are good ones, failures among them. -/
def Answered (good : LinearProgram Rat ExtRat → Except Error (SolverResults Rat) → Prop) (env env' : Environment Rat ExtRat) :
    Prop :=
  ∀ new, env'.calls = env.calls ++ new → ∀ a ∈ answers env.solvers new, good a.1 a.2

/-- **All answers between two environments are right.** -/
def Trusted (right : LinearProgram Rat ExtRat → SolverResults Rat → Prop) (env env' : Environment Rat ExtRat) : Prop :=
  ∀ new, env'.calls = env.calls ++ new → ∀ a ∈ answers env.solvers new, ∀ r, a.2 = .ok r → right a.1 r

variable {good : LinearProgram Rat ExtRat → Except Error (SolverResults Rat) → Prop}
  {right : LinearProgram Rat ExtRat → SolverResults Rat → Prop} {env env' env'' : Environment Rat ExtRat}

theorem Before.of_eq (hcalls : env'.calls = env.calls) (hsolvers : env'.solvers = env.solvers) : env.Before env' :=
  ⟨[], by rw [hcalls, List.append_nil], hsolvers⟩

theorem Before.trans (h : env.Before env') (h' : env'.Before env'') : env.Before env'' := by
  obtain ⟨new, hcalls, hsolvers⟩ := h
  obtain ⟨new', hcalls', hsolvers'⟩ := h'
  refine ⟨new ++ new', by rw [hcalls', hcalls, List.append_assoc], ?_⟩
  rw [hsolvers', hsolvers, solversAfter, solversAfter, solversAfter, List.foldl_append]

/-- Answers that are good in a whole course are good in its parts. -/
theorem Answered.split (h : env.Before env') (h' : env'.Before env'') (ht : Answered good env env'') :
    Answered good env env' ∧ Answered good env' env'' := by
  obtain ⟨new, hcalls, hsolvers⟩ := h
  obtain ⟨new', hcalls', -⟩ := h'
  have hall := ht (new ++ new') (by rw [hcalls', hcalls, List.append_assoc])
  rw [answers_append, ← hsolvers] at hall
  constructor
  · intro calls hc a ha
    obtain rfl : new = calls := List.append_cancel_left (hcalls.symm.trans hc)
    exact hall a (List.mem_append_left _ ha)
  · intro calls hc a ha
    obtain rfl : new' = calls := List.append_cancel_left (hcalls'.symm.trans hc)
    exact hall a (List.mem_append_right _ ha)

theorem Trusted.mono {right' : LinearProgram Rat ExtRat → SolverResults Rat → Prop} (h : Trusted right env env')
    (hright : ∀ p r, right p r → right' p r) : Trusted right' env env' :=
  fun new hnew a ha r hr => hright _ _ (h new hnew a ha r hr)

theorem Trusted.and {right' : LinearProgram Rat ExtRat → SolverResults Rat → Prop} (h : Trusted right env env')
    (h' : Trusted right' env env') : Trusted (fun p r => right p r ∧ right' p r) env env' :=
  fun new hnew a ha r hr => ⟨h new hnew a ha r hr, h' new hnew a ha r hr⟩

/-- Answers that are right in a whole course are right in its parts. -/
theorem Trusted.split (h : env.Before env') (h' : env'.Before env'') (ht : Trusted right env env'') :
    Trusted right env env' ∧ Trusted right env' env'' :=
  @Answered.split (fun p a => ∀ r, a = .ok r → right p r) env env' env'' h h' ht

end Environment

namespace Run

open Environment

variable {right : LinearProgram Rat ExtRat → SolverResults Rat → Prop} {α β : Type}

/-- The oracles of an environment satisfy a condition. -/
abbrev Condition := List (Oracle Rat ExtRat) → Prop

/-- **What a run ensures** of its answer and the oracles, if every solver answers rightly in the course of it. -/
def Ensures (right : LinearProgram Rat ExtRat → SolverResults Rat → Prop) (m : Run Rat ExtRat α) (P : Condition)
    (Q : α → Condition) : Prop :=
  ∀ env, env.Before (m.run env).2
    ∧ ∀ a env', m.run env = (.ok a, env') → P env.oracles → Trusted right env env' → Q a env'.oracles

/-- A run that hands nothing to solvers and leaves the oracles alone. -/
def Quiet (m : Run Rat ExtRat α) : Prop := ∀ env,
  (m.run env).2.calls = env.calls ∧ (m.run env).2.solvers = env.solvers ∧ (m.run env).2.oracles = env.oracles

variable {m : Run Rat ExtRat α} {f : α → Run Rat ExtRat β} {P P' : Condition} {Q Q' : α → Condition} {R : β → Condition}

/-! ## Rules -/

/-- A run only adds to the calls, whether it succeeds or not. -/
theorem Ensures.before {r : Except Error α} {env env' : Environment Rat ExtRat} (h : Ensures right m P Q)
    (hrun : m.run env = (r, env')) : env.Before env' := by
  have hbefore := (h env).1
  rwa [hrun] at hbefore

theorem Ensures.pure {a : α} (h : ∀ os, P os → Q a os) : Ensures right (pure a) P Q := by
  refine fun env => ⟨.of_eq rfl rfl, fun b env' hrun hP _ => ?_⟩
  cases hrun
  exact h _ hP

theorem Ensures.throw (err : Error) : Ensures right (throw err) P Q := by
  refine fun env => ⟨.of_eq rfl rfl, fun b env' hrun _ _ => ?_⟩
  cases hrun

theorem Ensures.bind (h : Ensures right m P Q) (hf : ∀ a, Ensures right (f a) (Q a) R) : Ensures right (m >>= f) P R := by
  intro env
  obtain ⟨hbefore, hok⟩ := h env
  cases hm : m.run env with
  | mk r env₁ =>
    rw [hm] at hbefore
    cases r with
    | error err =>
      rw [Edit.run_bind_of_error hm]
      refine ⟨hbefore, fun b env' hrun _ _ => ?_⟩
      cases hrun
    | ok a =>
      rw [Edit.run_bind_of_ok hm]
      obtain ⟨hbefore', hok'⟩ := hf a env₁
      refine ⟨hbefore.trans hbefore', fun b env' hrun hP ht => ?_⟩
      rw [hrun] at hbefore'
      obtain ⟨ht₁, ht₂⟩ := ht.split hbefore hbefore'
      exact hok' b env' hrun (hok a env₁ hm hP ht₁) ht₂

theorem Ensures.throw_bind (err : Error) : Ensures right (MonadExcept.throw err >>= f) P R := by
  intro env
  rw [Edit.run_bind_of_error (Edit.run_throw err env)]
  exact Ensures.throw err env

theorem Ensures.ite {c : Prop} [Decidable c] {m' : Run Rat ExtRat α} (h : Ensures right m P Q)
    (h' : Ensures right m' P Q) : Ensures right (if c then m else m') P Q := by
  split
  next => exact h
  next => exact h'

theorem Ensures.mono (h : Ensures right m P Q) (hP : ∀ os, P' os → P os) (hQ : ∀ a os, Q a os → Q' a os) :
    Ensures right m P' Q' :=
  fun env => ⟨(h env).1, fun a env' hrun hP' ht => hQ _ _ ((h env).2 a env' hrun (hP _ hP') ht)⟩

/-- What does not concern the oracles stays true. -/
theorem Ensures.keep {p : Prop} (h : Ensures right m P Q) : Ensures right m (fun os => P os ∧ p) fun a os => Q a os ∧ p :=
  fun env => ⟨(h env).1, fun a env' hrun hP ht => ⟨(h env).2 a env' hrun hP.1 ht, hP.2⟩⟩

theorem Ensures.lift {r : Except Error α} (h : ∀ a os, r = .ok a → P os → Q a os) : Ensures right (Edit.lift r) P Q := by
  cases r with
  | error err => exact .throw err
  | ok a => exact .pure fun os hP => h a os rfl hP

theorem Ensures.liftFault {r : Except Fault α} (h : ∀ a os, r = .ok a → P os → Q a os) :
    Ensures right (Edit.liftFault r) P Q := by
  cases r with
  | error err => exact .throw _
  | ok a => exact .pure fun os hP => h a os rfl hP

theorem Ensures.foldlM {γ : Type} {f : β → γ → Run Rat ExtRat β} {I : List γ → β → Condition}
    (h : ∀ c rest b, Ensures right (f b c) (I (c :: rest) b) fun b' => I rest b') :
    ∀ (cs : List γ) (b : β), Ensures right (cs.foldlM f b) (I cs b) fun b' => I [] b'
  | [], _ => .pure fun _ hI => hI
  | c :: cs, b => by
    rw [List.foldlM_cons]
    exact .bind (h c cs b) fun b' => Ensures.foldlM h cs b'

theorem Ensures.forM {γ : Type} {f : γ → Run Rat ExtRat PUnit} {I : List γ → Condition}
    (h : ∀ c rest, Ensures right (f c) (I (c :: rest)) fun _ => I rest) :
    ∀ cs : List γ, Ensures right (cs.forM f) (I cs) fun _ => I []
  | [] => .pure fun _ hI => hI
  | c :: cs => .bind (h c cs) fun _ => Ensures.forM h cs

theorem Ensures.mapM {γ : Type} {f : γ → Run Rat ExtRat α} {S : γ → α → Prop} :
    ∀ {cs : List γ}, (∀ c ∈ cs, Ensures right (f c) P fun a os => P os ∧ S c a) →
      Ensures right (cs.mapM f) P fun as os => P os ∧ List.Forall₂ S cs as
  | [], _ => .pure fun _ hP => ⟨hP, .nil⟩
  | c :: cs, h => by
    rw [List.mapM_cons]
    refine .bind (h c List.mem_cons_self) fun a =>
      .bind (Ensures.mapM fun c' hc' => h c' (List.mem_cons_of_mem _ hc')).keep fun as => ?_
    exact .pure fun os hall => ⟨hall.1.1, .cons hall.2 hall.1.2⟩

/-- Where nothing is claimed, nothing is needed. -/
theorem Ensures.of_forall {right' : LinearProgram Rat ExtRat → SolverResults Rat → Prop} (h : Ensures right m P Q)
    (hQ : ∀ a os, Q' a os) : Ensures right' m P' Q' :=
  fun env => ⟨(h env).1, fun a _ _ _ _ => hQ a _⟩

/-- The oracles before a run may be named. -/
theorem Ensures.fix (h : ∀ os₀, Ensures right m (fun os => os = os₀ ∧ P os₀) Q) : Ensures right m P Q :=
  fun env => ⟨(h env.oracles env).1, fun a env' hrun hP ht => (h env.oracles env).2 a env' hrun ⟨rfl, hP⟩ ht⟩

/-! ## Steps that concern neither solvers nor oracles -/

theorem Quiet.ensures (h : Quiet m) : Ensures right m P fun _ => P := by
  intro env
  obtain ⟨hcalls, hsolvers, horacles⟩ := h env
  refine ⟨.of_eq hcalls hsolvers, fun a env' hrun hP _ => ?_⟩
  rw [hrun] at horacles
  exact horacles ▸ hP

theorem Ensures.quiet_bind (h : Quiet m) (hf : ∀ a, Ensures right (f a) P R) : Ensures right (m >>= f) P R :=
  .bind h.ensures hf

theorem Quiet.pure (a : α) : Quiet (pure a) := fun _ => ⟨rfl, rfl, rfl⟩

theorem Quiet.throw (err : Error) : Quiet (throw err : Run Rat ExtRat α) := fun _ => ⟨rfl, rfl, rfl⟩

theorem Quiet.bind (h : Quiet m) (hf : ∀ a, Quiet (f a)) : Quiet (m >>= f) := by
  intro env
  obtain ⟨hcalls, hsolvers, horacles⟩ := h env
  cases hm : m.run env with
  | mk r env₁ =>
    rw [hm] at hcalls hsolvers horacles
    cases r with
    | error err =>
      rw [Edit.run_bind_of_error hm]
      exact ⟨hcalls, hsolvers, horacles⟩
    | ok a =>
      obtain ⟨hcalls', hsolvers', horacles'⟩ := hf a env₁
      rw [Edit.run_bind_of_ok hm]
      exact ⟨hcalls'.trans hcalls, hsolvers'.trans hsolvers, horacles'.trans horacles⟩

theorem Quiet.lift (r : Except Error α) : Quiet (Edit.lift r : Run Rat ExtRat α) := by
  cases r with
  | error err => exact .throw err
  | ok a => exact .pure a

theorem Quiet.forM {γ : Type} {f : γ → Run Rat ExtRat PUnit} (h : ∀ c, Quiet (f c)) : ∀ cs : List γ, Quiet (cs.forM f)
  | [] => .pure _
  | c :: cs => .bind (h c) fun _ => Quiet.forM h cs

theorem quiet_get : Quiet (get : Run Rat ExtRat _) := fun _ => ⟨rfl, rfl, rfl⟩

theorem quiet_now : Quiet (now : Run Rat ExtRat Rat) := by
  intro env
  unfold now
  rw [Edit.run_bind_of_ok (Edit.run_get env)]
  cases env.pauses with
  | nil => exact ⟨rfl, rfl, rfl⟩
  | cons pause rest => exact ⟨rfl, rfl, rfl⟩

theorem quiet_progress (text : String) : Quiet (progress text : Run Rat ExtRat Unit) := fun _ => ⟨rfl, rfl, rfl⟩

theorem quiet_ask (q : OracleCall Rat ExtRat) : Quiet (ask q) := fun _ => ⟨rfl, rfl, rfl⟩

theorem quiet_detail (topic : LogTopic) (text : String) : Quiet (detail topic text : Run Rat ExtRat Unit) := by
  intro env
  have hrun : (detail topic text).run env
      = (.ok ⟨⟩, if env.verbose then { env with log := env.log ++ [⟨topic, text⟩] } else env) := rfl
  rw [hrun]
  dsimp only
  split
  next => exact ⟨rfl, rfl, rfl⟩
  next => exact ⟨rfl, rfl, rfl⟩

theorem quiet_solverOf (s : Option SolverId) : Quiet (solverOf s : Run Rat ExtRat _) := by
  unfold solverOf
  split
  next => exact .throw _
  next i =>
    refine .bind quiet_get fun env => ?_
    split
    next => exact .pure _
    next => exact .throw _

theorem quiet_solverName (s : Option SolverId) : Quiet (solverName s : Run Rat ExtRat _) :=
  .bind (quiet_solverOf s) fun _ => .pure _

/-! ## Solvers and oracles -/

/-- The environment after a solver was asked. -/
def asked (env : Environment Rat ExtRat) (i : SolverId) (solver : Solver Rat ExtRat) (timeLimit : Option Rat)
    (p : LinearProgram Rat ExtRat) : Environment Rat ExtRat :=
  { env with
    calls := env.calls ++ [{ solver := i, timeLimit, program := p }]
    clock := env.clock + (solver.answer p).2.1
    solvers := env.solvers.set i (solver.answer p).2.2 }

theorem before_asked {env : Environment Rat ExtRat} {i : SolverId} {solver : Solver Rat ExtRat}
    (h : env.solvers[i]? = some solver) (timeLimit : Option Rat) (p : LinearProgram Rat ExtRat) :
    env.Before (asked env i solver timeLimit p) := by
  refine ⟨_, rfl, ?_⟩
  rw [asked, solversAfter, List.foldl_cons, h]
  rfl

theorem run_solverOf {K B : Type} {env : Environment K B} {i : SolverId} {solver : Solver K B}
    (h : env.solvers[i]? = some solver) : (solverOf (some i)).run env = (.ok (i, solver), env) := by
  unfold solverOf
  dsimp only
  rw [Edit.run_bind_of_ok (Edit.run_get env), h]
  rfl

theorem run_solverOf_of_none {env : Environment Rat ExtRat} {i : SolverId} (h : env.solvers[i]? = none) :
    (solverOf (some i)).run env = (.error (.fault .noAttribute), env) := by
  unfold solverOf
  dsimp only
  rw [Edit.run_bind_of_ok (Edit.run_get env), h]
  rfl

/-- A solver is asked within a limit that is admissible. -/
theorem run_solve_of_seconds {env : Environment Rat ExtRat} {i : SolverId} {solver : Solver Rat ExtRat}
    (h : env.solvers[i]? = some solver) {allowance : Option (TimeAllowance Rat)} {t : Option Rat}
    (ht : (secondsOf allowance).run env = (.ok t, env)) (p : LinearProgram Rat ExtRat) :
    (solve (some i) allowance p).run env = ((solver.answer p).1, asked env i solver t p) := by
  unfold solve
  rw [Edit.run_bind_of_ok (run_solverOf h)]
  dsimp only
  rw [Edit.run_bind_of_ok ht, Edit.run_bind_of_ok (Edit.run_modify _ _)]
  cases hanswer : (solver.answer p).1 with
  | error err => rfl
  | ok a => rfl

/-- A request of a solver is either refused beforehand, or the solver gives its answer. -/
theorem run_solve (s : Option SolverId) (allowance : Option (TimeAllowance Rat)) (p : LinearProgram Rat ExtRat)
    (env : Environment Rat ExtRat) : (∃ err, (solve s allowance p).run env = (.error err, env))
      ∨ ∃ i solver t, env.solvers[i]? = some solver
        ∧ (solve s allowance p).run env = ((solver.answer p).1, asked env i solver t p) := by
  have hseconds : ∃ r, (secondsOf allowance).run env = (r, env) := by
    cases allowance with
    | none => exact ⟨_, rfl⟩
    | some a =>
      unfold secondsOf
      dsimp only
      cases a.seconds with
      | error err => exact ⟨_, rfl⟩
      | ok t => exact ⟨_, rfl⟩
  obtain ⟨r, hr⟩ := hseconds
  cases s with
  | none => exact .inl ⟨_, rfl⟩
  | some i =>
    cases hsolver : env.solvers[i]? with
    | none => exact .inl ⟨_, Edit.run_bind_of_error (run_solverOf_of_none hsolver)⟩
    | some solver =>
      cases r with
      | error err =>
        have hrefused : (solve (some i) allowance p).run env = (.error err, env) :=
          (Edit.run_bind_of_ok (run_solverOf hsolver)).trans (Edit.run_bind_of_error hr)
        exact .inl ⟨err, hrefused⟩
      | ok t => exact .inr ⟨i, solver, t, hsolver, run_solve_of_seconds hsolver hr p⟩

/-- **What a solver answers is right.** -/
theorem ensures_solve (s : Option SolverId) (allowance : Option (TimeAllowance Rat)) (p : LinearProgram Rat ExtRat) :
    Ensures right (solve s allowance p) P fun r os => P os ∧ right p r := by
  intro env
  rcases run_solve s allowance p env with ⟨err, hrun⟩ | ⟨i, solver, t, hsolver, hrun⟩
  · rw [hrun]
    refine ⟨.of_eq rfl rfl, fun r env' h _ _ => ?_⟩
    cases h
  · rw [hrun]
    refine ⟨before_asked hsolver t p, fun r env' h hP ht => ?_⟩
    obtain ⟨hr, rfl⟩ := Prod.mk.inj h
    refine ⟨hP, ht _ rfl (p, (solver.answer p).1) ?_ r hr⟩
    rw [answers, hsolver]
    exact List.mem_cons_self

/-- An environment that is read holds the oracles. -/
theorem ensures_get : Ensures right (get : Run Rat ExtRat _) P fun env os => P os ∧ env.oracles = os := by
  refine fun env => ⟨.of_eq rfl rfl, fun a env' hrun hP _ => ?_⟩
  cases hrun
  exact ⟨hP, rfl⟩

/-- Looking up an oracle answers the one of its number. -/
theorem ensures_oracleOf (o : OracleId) :
    Ensures right (oracleOf o) P fun oracle os => P os ∧ os[o]? = some oracle := by
  intro env
  unfold oracleOf
  rw [Edit.run_bind_of_ok (Edit.run_get env)]
  cases horacle : env.oracles[o]? with
  | none =>
    refine ⟨.of_eq rfl rfl, fun r env' h _ _ => ?_⟩
    cases h
  | some oracle =>
    refine ⟨.of_eq rfl rfl, fun r env' h hP _ => ?_⟩
    cases h
    exact ⟨hP, horacle⟩

theorem ensures_setOracle {P : Condition} (o : OracleId) (oracle : Oracle Rat ExtRat) :
    Ensures right (setOracle o oracle) (fun os => P (os.set o oracle)) fun _ => P := by
  refine fun env => ⟨.of_eq rfl rfl, fun a env' hrun hP _ => ?_⟩
  cases hrun
  exact hP

end Run

end RobustLP
