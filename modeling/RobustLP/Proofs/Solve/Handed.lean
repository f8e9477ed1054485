import RobustLP.Proofs.Solve.Calls
import RobustLP.Proofs.Timer
import RobustLP.Solve.Loop

/-!
# What a run hands to solvers

Each call of a solver is recorded, so what was handed to which solver can be read off the record (`Environment.Handed`). `Run.Hands`
says what a run hands to solvers whatever becomes of it, together with how it comes out; it asks no oracle for anything. This is
known of runs that look at the clock, write to the log, calculate, and hand a program to a solver that is there. While the main timer
runs alone, the timer of a stage does not fail (`Run.Hands.timed`).
-/

namespace RobustLP

open SolveLoop

variable {K B α β : Type}

/-- What was handed to which solver. -/
def SolverCall.handed (c : SolverCall K B) : SolverId × LinearProgram K B := (c.solver, c.program)

/-- **An environment after some programs were handed to solvers.** No oracle was asked for anything. -/
structure Environment.Handed (env : Environment K B) (ps : List (SolverId × LinearProgram K B)) (env' : Environment K B) : Prop where
  calls : ∃ new, env'.calls = env.calls ++ new ∧ new.map SolverCall.handed = ps
  questions : env'.questions = env.questions
  oracles : env'.oracles = env.oracles
  solvers : env'.solvers.length = env.solvers.length

namespace Environment

variable {env env' env'' : Environment K B} {ps ps' : List (SolverId × LinearProgram K B)}

/-- An environment whose clock or log changed. -/
theorem Handed.of_eq (hcalls : env'.calls = env.calls) (hquestions : env'.questions = env.questions)
    (horacles : env'.oracles = env.oracles) (hsolvers : env'.solvers = env.solvers) : env.Handed [] env' :=
  ⟨⟨[], by rw [hcalls, List.append_nil], rfl⟩, hquestions, horacles, congrArg List.length hsolvers⟩

theorem Handed.refl (env : Environment K B) : env.Handed [] env := .of_eq rfl rfl rfl rfl

theorem Handed.trans (h : env.Handed ps env') (h' : env'.Handed ps' env'') : env.Handed (ps ++ ps') env'' where
  calls := by
    obtain ⟨new, hcalls, rfl⟩ := h.calls
    obtain ⟨new', hcalls', rfl⟩ := h'.calls
    exact ⟨new ++ new', by rw [hcalls', hcalls, List.append_assoc], List.map_append⟩
  questions := h'.questions.trans h.questions
  oracles := h'.oracles.trans h.oracles
  solvers := h'.solvers.trans h.solvers

end Environment

namespace Run

/-- **What a run hands to solvers,** where there are `n` of them, and how it comes out. -/
def Hands (n : Nat) (m : Run K B α) (ps : List (SolverId × LinearProgram K B)) (S : Except Error α → Prop) : Prop :=
  ∀ env, env.solvers.length = n → env.Handed ps (m.run env).2 ∧ S (m.run env).1

/-- A run that hands nothing to solvers, and succeeds. -/
abbrev Idles (n : Nat) (m : Run K B α) (P : α → Prop) : Prop := Hands n m [] fun r => ∃ a, r = .ok a ∧ P a

/-- A run that hands the same to solvers whether it succeeds or fails, and what it answers if it succeeds. -/
abbrev Spends (n : Nat) (m : Run K B α) (ps : List (SolverId × LinearProgram K B)) (P : α → Prop) : Prop :=
  Hands n m ps fun r => ∀ a, r = .ok a → P a

variable {n : Nat} {m : Run K B α} {f : α → Run K B β} {ps : List (SolverId × LinearProgram K B)} {P : α → Prop}
  {Q : β → Prop} {S S' : Except Error α → Prop} {R : Except Error β → Prop}

/-! ## Rules -/

theorem Hands.mono (h : Hands n m ps S) (hS : ∀ r, S r → S' r) : Hands n m ps S' :=
  fun env henv => ⟨(h env henv).1, hS _ (h env henv).2⟩

theorem Hands.pure {a : α} (h : S (.ok a)) : Hands n (pure a : Run K B α) [] S := fun env _ => ⟨.refl env, h⟩

theorem Hands.throw {e : Error} (h : S (.error e)) : Hands n (throw e : Run K B α) [] S := fun env _ => ⟨.refl env, h⟩

theorem Hands.lift {r : Except Error α} (h : S r) : Hands n (Edit.lift r : Run K B α) [] S := by
  cases r with
  | error e => exact .throw h
  | ok a => exact .pure h

/-- **A step after which nothing is handed to solvers.** -/
theorem Hands.bind (h : Hands n m ps S) (herror : ∀ e, S (.error e) → R (.error e)) (hf : ∀ a, S (.ok a) → Hands n (f a) [] R) :
    Hands n (m >>= f) ps R := by
  intro env henv
  obtain ⟨hhanded, hS⟩ := h env henv
  cases hm : m.run env with
  | mk r env₁ =>
    rw [hm] at hhanded hS
    cases r with
    | error e =>
      rw [Edit.run_bind_of_error hm]
      exact ⟨hhanded, herror e hS⟩
    | ok a =>
      obtain ⟨hnext, hR⟩ := hf a hS env₁ (hhanded.solvers.trans henv)
      rw [Edit.run_bind_of_ok hm]
      exact ⟨ps.append_nil ▸ hhanded.trans hnext, hR⟩

/-- **A step that idles** leaves everything to the next one. -/
theorem Idles.bind (h : Idles n m P) (hf : ∀ a, P a → Hands n (f a) ps R) : Hands n (m >>= f) ps R := by
  intro env henv
  obtain ⟨hhanded, a, hok, hP⟩ := h env henv
  cases hm : m.run env with
  | mk r env₁ =>
    rw [hm] at hhanded hok
    obtain rfl : r = .ok a := hok
    obtain ⟨hnext, hR⟩ := hf a hP env₁ (hhanded.solvers.trans henv)
    rw [Edit.run_bind_of_ok hm]
    exact ⟨hhanded.trans hnext, hR⟩

theorem Idles.pure {a : α} (h : P a) : Idles n (pure a : Run K B α) P := Hands.pure ⟨a, rfl, h⟩

theorem Idles.lift {r : Except Error α} {a : α} (hr : r = .ok a) (h : P a) : Idles n (Edit.lift r : Run K B α) P :=
  Hands.lift ⟨a, hr, h⟩

theorem Idles.liftFault {r : Except Fault α} {a : α} (hr : r = .ok a) (h : P a) : Idles n (Edit.liftFault r : Run K B α) P := by
  rw [hr]
  exact .pure h

theorem Idles.forM {γ : Type} {f : γ → Run K B PUnit} (hf : ∀ c, Idles n (f c) fun _ => True) : ∀ cs : List γ,
    Idles n (cs.forM f) fun _ => True
  | [] => .pure trivial
  | c :: cs => .bind (hf c) fun _ _ => Idles.forM hf cs

theorem Idles.spends (h : Idles n m P) : Spends n m [] P :=
  h.mono fun _ ⟨_, hr, ha⟩ _ hb => Except.ok.inj (hr.symm.trans hb) ▸ ha

theorem Spends.bind (h : Spends n m ps P) (hf : ∀ a, P a → Spends n (f a) [] Q) : Spends n (m >>= f) ps Q :=
  Hands.bind h (fun _ _ _ h => nomatch h) fun a ha => hf a (ha a rfl)

theorem Spends.pure {a : α} (h : P a) : Spends n (pure a : Run K B α) [] P := (Idles.pure h).spends

theorem Spends.lift (r : Except Error α) : Spends n (Edit.lift r : Run K B α) [] fun _ => True := Hands.lift fun _ _ => trivial

/-! ## Log and clock -/

theorem idles_progress (text : String) : Idles n (progress text : Run K B Unit) fun _ => True :=
  fun _ _ => ⟨.of_eq rfl rfl rfl rfl, (), rfl, trivial⟩

theorem idles_detail (topic : LogTopic) (text : String) : Idles n (detail topic text : Run K B Unit) fun _ => True := by
  intro env _
  have hrun : (detail topic text).run env
      = (.ok ⟨⟩, if env.verbose then { env with log := env.log ++ [⟨topic, text⟩] } else env) := rfl
  rw [hrun]
  refine ⟨?_, (), rfl, trivial⟩
  dsimp only
  split
  next => exact .of_eq rfl rfl rfl rfl
  next => exact .refl env

variable [Scalar K B]

theorem idles_now : Idles n (now : Run K B K) fun _ => True := by
  intro env _
  unfold now
  rw [Edit.run_bind_of_ok (Edit.run_get env)]
  cases env.pauses with
  | nil => exact ⟨.refl env, _, rfl, trivial⟩
  | cons pause rest => exact ⟨.of_eq rfl rfl rfl rfl, _, rfl, trivial⟩

/-- **A step as stage,** while the main timer runs alone. -/
theorem Hands.timed {stage : Stage} {t : TimerTree K} {R : Except Error (α × TimerTree K) → Prop} (ht : t.Clocked)
    (h : Hands n m ps S) (herror : ∀ e, S (.error e) → R (.error e)) (hok : ∀ a t', t'.Clocked → S (.ok a) → R (.ok (a, t'))) :
    Hands n (timed stage t m) ps R := by
  unfold SolveLoop.timed
  refine idles_now.bind fun start _ => h.bind herror fun a ha => idles_now.bind fun stop _ => ?_
  obtain ⟨t', hstop, hclocked⟩ := ht.exists_stopStage start stop stage
  exact (Idles.lift hstop hclocked).bind fun t' ht' => .pure (hok a t' ht' ha)

theorem Spends.timed {stage : Stage} {t : TimerTree K} (ht : t.Clocked) (h : Spends n m ps P) :
    Spends n (SolveLoop.timed stage t m) ps fun a => P a.1 ∧ a.2.Clocked :=
  Hands.timed ht h (fun _ _ _ h => nomatch h) fun a _ ht' ha _ hb => Except.ok.inj hb ▸ ⟨ha a rfl, ht'⟩

theorem idles_elapsed {t : TimerTree K} (ht : t.Clocked) : Idles n (elapsed t : Run K B K) fun _ => True := by
  unfold elapsed
  refine idles_now.bind fun time _ => ?_
  obtain ⟨e, he⟩ := TimerTree.exists_elapsed time ht.running
  exact Idles.lift he trivial

theorem idles_remaining (options : LoopOptions K) {t : TimerTree K} (ht : t.Clocked) :
    Idles n (remaining options t : Run K B (Option K)) fun _ => True := by
  unfold remaining
  refine idles_now.bind fun time _ => ?_
  obtain ⟨left, hleft⟩ := TimerTree.exists_remaining time options.timeLimit ht.running
  exact Idles.lift hleft trivial

/-! ## Solvers -/

omit [Scalar K B] in
/-- A solver that is there can be found. -/
theorem idles_solverOf {i : SolverId} (hi : i < n) : Idles n (solverOf (some i) : Run K B (SolverId × Solver K B)) fun s => s.1 = i := by
  intro env henv
  rw [run_solverOf (List.getElem?_eq_getElem (henv ▸ hi : i < env.solvers.length))]
  exact ⟨.refl env, _, rfl, rfl⟩

/-- **A program is handed to a solver** that is there, whatever it answers. -/
theorem spends_solve [Written K] {i : SolverId} (hi : i < n) (left : Option K) (p : LinearProgram K B) :
    Spends n (solve (some i) (allowance left) p) [(i, p)] fun _ => True := by
  have hseconds : Idles n (secondsOf (allowance left) : Run K B (Option K)) fun _ => True := by
    cases left with
    | none => exact .pure trivial
    | some s => exact .pure trivial
  unfold solve
  refine (idles_solverOf hi).bind fun (j, solver) hj => hseconds.bind fun timeLimit _ => ?_
  obtain rfl : j = i := hj
  rcases solver.answer p with ⟨r, delay, solver⟩
  refine Spends.bind (P := fun _ => True) ?_ fun _ _ => .lift r
  exact fun env _ => ⟨⟨⟨_, rfl, rfl⟩, rfl, rfl, List.length_set⟩, fun _ _ => trivial⟩

end Run

end RobustLP
