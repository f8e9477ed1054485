import RobustLP.Proofs.Solve.Correct

/-!
# Definite answers

A correct answer may leave a question open: the solver may have stopped early. A *definite* answer is correct and says what is the
case: it comes with an optimum, or it says that there is none (`SolverResults.Definite`).

`Run.Ensures` says what a run achieves that succeeds. `Run.Settles` says how a run comes out in any case, whether it succeeds or
fails, if all answers in the course of it are definite.
-/

namespace RobustLP

open ExtRat UncertaintySet

/-- The objective of a program takes arbitrarily good values. -/
def LinearProgram.Improves (p : LinearProgram Rat ExtRat) : Prop :=
  ∀ q, ∃ v, p.Feasible v ∧ p.Integral v ∧ p.objective.sense.NoWorse (p.objectiveAt v) q

/-- **A definite answer:** a correct one that says what is the case. One that leaves open whether there is no point or no optimum
is right about one of them. -/
structure SolverResults.Definite (p : LinearProgram Rat ExtRat) (r : SolverResults Rat) : Prop extends r.Correct p where
  settled : r.termination ∈ [.optimal, .infeasible, .unbounded, .infeasibleOrUnbounded]
  either : r.termination = .infeasibleOrUnbounded → (∀ v, p.Feasible v → ¬p.Integral v) ∨ p.Improves

/-- A definite answer to a program that has a point: a best one, or there is none. -/
theorem SolverResults.Definite.optimal_or_improves {p : LinearProgram Rat ExtRat} {r : SolverResults Rat} (h : r.Definite p)
    {v : Nat → Rat} (hv : p.Feasible v) (hint : p.Integral v) : r.termination = .optimal
      ∨ (r.termination = .unbounded ∨ r.termination = .infeasibleOrUnbounded) ∧ p.Improves := by
  have hsettled := h.settled
  simp only [List.mem_cons, List.not_mem_nil, or_false] at hsettled
  rcases hsettled with hoptimal | hinfeasible | hunbounded | heither
  · exact .inl hoptimal
  · exact absurd hint (h.infeasible hinfeasible v hv)
  · exact .inr ⟨.inl hunbounded, h.unbounded hunbounded⟩
  · exact .inr ⟨.inr heither, (h.either heither).resolve_left fun hno => hno v hv hint⟩

/-- A solver gave a definite answer, and did not fail. -/
def SolverResults.Decides (p : LinearProgram Rat ExtRat) (a : Except Error (SolverResults Rat)) : Prop :=
  ∃ r, a = .ok r ∧ r.Definite p

/-- **All answers between two environments are definite.** -/
abbrev Environment.Decided (env env' : Environment Rat ExtRat) : Prop := env.Answered SolverResults.Decides env'

namespace Environment

variable {env env' : Environment Rat ExtRat}

theorem length_solversAfter (calls : List (SolverCall Rat ExtRat)) : ∀ solvers : List (Solver Rat ExtRat),
    (solversAfter solvers calls).length = solvers.length := by
  induction calls with
  | nil => exact fun _ => rfl
  | cons c calls ih =>
    intro solvers
    rw [solversAfter, List.foldl_cons, ← solversAfter, ih]
    split
    next => exact List.length_set
    next => rfl

/-- No solver comes or goes. -/
theorem Before.length_solvers (h : env.Before env') : env'.solvers.length = env.solvers.length := by
  obtain ⟨new, -, hsolvers⟩ := h
  rw [hsolvers, length_solversAfter]

/-- Certificates show that all answers between two environments are definite. -/
def decisive (env env' : Environment Rat ExtRat) (cs : List Certificate) : Bool :=
  env.certified env' cs && (answers env.solvers (env'.calls.drop env.calls.length)).all fun a => match a.2 with
    | .ok r => [.optimal, .infeasible, .unbounded].contains r.termination
    | .error _ => false

theorem decided_of_decisive {cs : List Certificate} (h : env.decisive env' cs = true) : env.Decided env' := by
  intro new hnew a ha
  obtain ⟨hcertified, hsettled⟩ := Bool.and_eq_true_iff.mp h
  rw [hnew, List.drop_left] at hsettled
  have hanswer := List.all_eq_true.mp hsettled a ha
  cases hr : a.2 with
  | error err =>
    rw [hr] at hanswer
    cases hanswer
  | ok r =>
    rw [hr] at hanswer
    have hmem := List.contains_iff_mem.mp hanswer
    have hall := List.mem_append_left [Termination.infeasibleOrUnbounded] hmem
    refine ⟨r, rfl, trusted_of_certified hcertified new hnew a ha r hr, hall, fun heither => ?_⟩
    rw [heither] at hmem
    simp at hmem

end Environment

namespace Run

open Environment

variable {α β : Type}

/-- **How a run comes out** where there are `n` solvers, if all answers in the course of it are definite. -/
def Settles (n : Nat) (m : Run Rat ExtRat α) (Q : Except Error α → Prop) : Prop :=
  ∀ env, env.Before (m.run env).2 ∧ (env.solvers.length = n → env.Decided (m.run env).2 → Q (m.run env).1)

variable {n : Nat} {m : Run Rat ExtRat α} {f : α → Run Rat ExtRat β} {Q Q' : Except Error α → Prop} {R : Except Error β → Prop}

theorem Settles.pure {a : α} (h : Q (.ok a)) : Settles n (pure a) Q := fun _ => ⟨.of_eq rfl rfl, fun _ _ => h⟩

theorem Settles.throw {err : Error} (h : Q (.error err)) : Settles n (throw err) Q :=
  fun _ => ⟨.of_eq rfl rfl, fun _ _ => h⟩

theorem Settles.mono (h : Settles n m Q) (hQ : ∀ r, Q r → Q' r) : Settles n m Q' :=
  fun env => ⟨(h env).1, fun hn hdecided => hQ _ ((h env).2 hn hdecided)⟩

/-- A failure is the end; otherwise the next run goes on with the answer. -/
theorem Settles.bind (h : Settles n m Q) (herror : ∀ err, Q (.error err) → R (.error err))
    (hf : ∀ a, Settles n (f a) fun r => Q (.ok a) → R r) : Settles n (m >>= f) R := by
  intro env
  obtain ⟨hbefore, hfirst⟩ := h env
  cases hm : m.run env with
  | mk r env₁ =>
    rw [hm] at hbefore hfirst
    cases r with
    | error err =>
      rw [Edit.run_bind_of_error hm]
      exact ⟨hbefore, fun hn hdecided => herror err (hfirst hn hdecided)⟩
    | ok a =>
      rw [Edit.run_bind_of_ok hm]
      obtain ⟨hbefore', hnext⟩ := hf a env₁
      refine ⟨hbefore.trans hbefore', fun hn hdecided => ?_⟩
      obtain ⟨hdecided₁, hdecided₂⟩ := hdecided.split hbefore hbefore'
      exact hnext (hbefore.length_solvers.trans hn) hdecided₂ (hfirst hn hdecided₁)

/-- **A solver that is there answers,** and decides the program. -/
theorem settles_solve {i : SolverId} (hi : i < n) (p : LinearProgram Rat ExtRat) :
    Settles n (solve (some i) none p) (SolverResults.Decides p) := by
  intro env
  cases hget : env.solvers[i]? with
  | none =>
    have hrefused : (solve (some i) none p).run env = (.error (.fault .noAttribute), env) :=
      Edit.run_bind_of_error (run_solverOf_of_none hget)
    rw [hrefused]
    exact ⟨.of_eq rfl rfl, fun hn _ => absurd (List.getElem?_eq_none_iff.mp hget) (not_le.mpr (hn ▸ hi))⟩
  | some solver =>
    rw [run_solve_of_seconds hget rfl p]
    refine ⟨before_asked hget none p, fun _ hdecided => hdecided _ rfl (p, (solver.answer p).1) ?_⟩
    rw [answers, hget]
    exact List.mem_cons_self

/-- A solver that is there has a name. -/
theorem settles_solverName {i : SolverId} (hi : i < n) :
    Settles n (solverName (some i)) fun r => ∃ name, r = .ok name := by
  intro env
  obtain ⟨hcalls, hsolvers, -⟩ := quiet_solverName (some i) env
  refine ⟨.of_eq hcalls hsolvers, fun hn _ => ?_⟩
  have hget := List.getElem?_eq_getElem (hn ▸ hi : i < env.solvers.length)
  exact ⟨_, congrArg Prod.fst (Edit.run_bind_of_ok (run_solverOf hget))⟩

end Run

end RobustLP
