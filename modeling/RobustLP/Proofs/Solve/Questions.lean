import RobustLP.Proofs.Outcome
import RobustLP.Solve.Robust

/-!
# What a run asks of oracles

Every request is recorded before it is answered, so what a run asked can be read off the record whatever became of it. `Run.Asks`
says which requests a run makes, given its result; the result may be an error. In the course of a run an oracle learns many
things, but whether it is driven by separation stays the same, and this is all that the choice of requests depends on
(`Environment.sorts`).
-/

namespace RobustLP

variable {K B α β : Type}

/-- Which oracles are driven by separation. -/
def Environment.sorts (env : Environment K B) : List Bool := env.oracles.map Oracle.usesSeparation

/-- An environment after some requests to oracles. -/
structure Environment.Asked (env : Environment K B) (qs : List (OracleCall K B)) (env' : Environment K B) : Prop where
  questions : env'.questions = env.questions ++ qs
  calls : env.calls <+: env'.calls
  sorts : env'.sorts = env.sorts

theorem Environment.Asked.trans {env env' env'' : Environment K B} {qs qs' : List (OracleCall K B)}
    (h : env.Asked qs env') (h' : env'.Asked qs' env'') : env.Asked (qs ++ qs') env'' where
  questions := by rw [h'.questions, h.questions, List.append_assoc]
  calls := h.calls.trans h'.calls
  sorts := h'.sorts.trans h.sorts

/-- An environment whose clock, solvers or log changed, or whose oracles learned something. -/
theorem Environment.Asked.of_eq {env env' : Environment K B} (hquestions : env'.questions = env.questions)
    (hcalls : env.calls <+: env'.calls) (hsorts : env'.sorts = env.sorts) : env.Asked [] env' :=
  ⟨by rw [hquestions, List.append_nil], hcalls, hsorts⟩

theorem mem_oraclesOf {rows : List (MixedRow K B)} {o : OracleId} :
    o ∈ SolveLoop.oraclesOf rows ↔ ∃ r ∈ rows, r.oracle = some o := by
  rw [SolveLoop.oraclesOf, List.mem_eraseDups, List.mem_filterMap]

namespace Run

open Environment

/-- **What a run asks of oracles,** given its result. -/
def Asks (sorts : List Bool) (m : Run K B α) (S : Except Error α → List (OracleCall K B) → Prop) : Prop :=
  ∀ env, env.sorts = sorts → ∃ qs, env.Asked qs (m.run env).2 ∧ S (m.run env).1 qs

/-- A run that asks nothing. -/
abbrev Silent (sorts : List Bool) (m : Run K B α) : Prop := Asks sorts m fun _ qs => qs = []

variable {sorts : List Bool} {m : Run K B α} {f : α → Run K B β} {Q S : Except Error α → List (OracleCall K B) → Prop}
  {R : Except Error β → List (OracleCall K B) → Prop}

/-! ## Rules -/

theorem Asks.mono (h : Asks sorts m Q) (hS : ∀ r qs, Q r qs → S r qs) : Asks sorts m S := by
  intro env henv
  obtain ⟨qs, hasked, hQ⟩ := h env henv
  exact ⟨qs, hasked, hS _ qs hQ⟩

theorem Asks.of_run {env : Environment K B} {r : Except Error α} {env' : Environment K B} (h : Asks sorts m S)
    (henv : env.sorts = sorts) (hrun : m.run env = (r, env')) : ∃ qs, env.Asked qs env' ∧ S r qs := by
  obtain ⟨qs, hasked, hS⟩ := h env henv
  rw [hrun] at hasked hS
  exact ⟨qs, hasked, hS⟩

theorem Asks.pure {a : α} (h : S (.ok a) []) : Asks sorts (pure a) S :=
  fun _ _ => ⟨[], .of_eq rfl List.prefix_rfl rfl, h⟩

theorem Asks.throw {e : Error} (h : S (.error e) []) : Asks sorts (throw e) S :=
  fun _ _ => ⟨[], .of_eq rfl List.prefix_rfl rfl, h⟩

/-- **Two steps** ask what the first one asks and then what the second one does, unless the first one fails. -/
theorem Asks.bind (h : Asks sorts m Q)
    (hok : ∀ a qs, Q (.ok a) qs → Asks sorts (f a) fun r qs' => R r (qs ++ qs'))
    (herror : ∀ e qs, Q (.error e) qs → R (.error e) qs) : Asks sorts (m >>= f) R := by
  intro env henv
  obtain ⟨qs, hasked, hQ⟩ := h env henv
  cases hm : m.run env with
  | mk r env₁ =>
    rw [hm] at hasked hQ
    cases r with
    | error e =>
      rw [Edit.run_bind_of_error hm]
      exact ⟨qs, hasked, herror e qs hQ⟩
    | ok a =>
      obtain ⟨qs', hasked', hR⟩ := hok a qs hQ env₁ (hasked.sorts.trans henv)
      rw [Edit.run_bind_of_ok hm]
      exact ⟨qs ++ qs', hasked.trans hasked', hR⟩

theorem Silent.bind (h : Silent sorts m) (hf : ∀ a, Silent sorts (f a)) : Silent sorts (m >>= f) :=
  Asks.bind h (fun a qs hqs => (hf a).mono fun _ qs' hqs' => by rw [hqs, hqs', List.append_nil]) fun _ _ hqs => hqs

/-- A step before which nothing is asked. -/
theorem Asks.silent_bind (h : Silent sorts m) (hf : ∀ a, Asks sorts (f a) R) (herror : ∀ e, R (.error e) []) :
    Asks sorts (m >>= f) R :=
  Asks.bind h (fun a qs hqs => (hf a).mono fun _ qs' hR => by rwa [hqs, List.nil_append]) fun e _ hqs => hqs ▸ herror e

/-- A step after which nothing is asked. -/
theorem Asks.bind_silent {qs : List (OracleCall K B)} (h : Asks sorts m fun _ qs' => qs' = qs)
    (hf : ∀ a, Silent sorts (f a)) : Asks sorts (m >>= f) fun _ qs' => qs' = qs :=
  Asks.bind h (fun a _ hqs => (hf a).mono fun _ _ hqs' => by rw [hqs, hqs', List.append_nil]) fun _ _ hqs => hqs

theorem Silent.pure (a : α) : Silent sorts (pure a : Run K B α) := Asks.pure rfl

theorem Silent.throw (e : Error) : Silent sorts (throw e : Run K B α) := Asks.throw rfl

theorem Silent.throw_bind (e : Error) : Silent sorts (MonadExcept.throw e >>= f) :=
  fun _ _ => ⟨[], .of_eq rfl List.prefix_rfl rfl, rfl⟩

theorem Silent.ite {c : Prop} [Decidable c] {m' : Run K B α} (h : Silent sorts m) (h' : Silent sorts m') :
    Silent sorts (if c then m else m') := by
  split
  next => exact h
  next => exact h'

theorem Silent.lift (r : Except Error α) : Silent sorts (Edit.lift r : Run K B α) := by
  cases r with
  | error e => exact .throw e
  | ok a => exact .pure a

theorem Silent.liftFault (r : Except Fault α) : Silent sorts (Edit.liftFault r : Run K B α) := by
  cases r with
  | error e => exact .throw _
  | ok a => exact .pure a

theorem Silent.get : Silent sorts (get : Run K B _) := fun _ _ => ⟨[], .of_eq rfl List.prefix_rfl rfl, rfl⟩

theorem Silent.forM {γ : Type} {f : γ → Run K B PUnit} : ∀ {cs : List γ}, (∀ c ∈ cs, Silent sorts (f c)) →
    Silent sorts (cs.forM f)
  | [], _ => .pure _
  | _ :: _, h => .bind (h _ List.mem_cons_self) fun _ => Silent.forM fun c hc => h c (List.mem_cons_of_mem _ hc)

theorem Asks.attempt {m : Run K B α} (h : Asks sorts m S) :
    Asks sorts (SolveLoop.attempt m) fun r qs => ∃ r', r = .ok r' ∧ S r' qs := by
  intro env henv
  obtain ⟨qs, hasked, hS⟩ := h env henv
  exact ⟨qs, hasked, _, rfl, hS⟩

/-- **A loop over a list** asks for the first of its entries, and for all if it succeeds. -/
theorem Asks.mapM {γ : Type} {f : γ → Run K B α} {q : γ → List (OracleCall K B)}
    (hf : ∀ c, Asks sorts (f c) fun _ qs => qs = q c) : ∀ cs : List γ, Asks sorts (cs.mapM f) fun r qs =>
      ∃ some, some <+: cs ∧ qs = some.flatMap q ∧ ∀ as, r = .ok as → some = cs ∧ as.length = cs.length
  | [] => .pure ⟨[], List.prefix_rfl, rfl, fun as h => by cases h; exact ⟨rfl, rfl⟩⟩
  | c :: cs => by
    rw [List.mapM_cons]
    refine .bind (hf c) (fun a qs hqs => .bind (Asks.mapM hf cs) (fun as qs' h => .pure ?_) fun e qs' h => ?_)
      fun e qs hqs => ⟨[c], ⟨cs, rfl⟩, by simp [hqs], fun _ h => nomatch h⟩
    · obtain ⟨some, -, hqs', hall⟩ := h
      obtain ⟨rfl, hlength⟩ := hall as rfl
      refine ⟨c :: some, List.prefix_rfl, by simp [hqs, hqs'], fun bs h => ?_⟩
      cases h
      exact ⟨rfl, by simp [hlength]⟩
    · obtain ⟨some, hsome, hqs', -⟩ := h
      exact ⟨c :: some, List.cons_prefix_cons.mpr ⟨rfl, hsome⟩, by simp [hqs, hqs'], fun _ h => nomatch h⟩

/-! ## Runs that succeed -/

/-- **What a run asks of oracles if it succeeds,** given its answer. -/
abbrev Answers (sorts : List Bool) (m : Run K B α) (A : α → List (OracleCall K B) → Prop) : Prop :=
  Asks sorts m fun r qs => ∀ a, r = .ok a → A a qs

variable {A : α → List (OracleCall K B) → Prop} {C : β → List (OracleCall K B) → Prop}

theorem Silent.answers (h : Silent sorts m) : Answers sorts m fun _ qs => qs = [] := h.mono fun _ _ hqs _ _ => hqs

theorem Answers.mono {A' : α → List (OracleCall K B) → Prop} (h : Answers sorts m A) (hA : ∀ a qs, A a qs → A' a qs) :
    Answers sorts m A' := Asks.mono h fun _ qs hr a ha => hA a qs (hr a ha)

theorem Answers.pure {a : α} (h : A a []) : Answers sorts (pure a) A := Asks.pure fun _ hb => by cases hb; exact h

theorem Answers.throw (e : Error) : Answers sorts (throw e) A := Asks.throw fun _ h => nomatch h

theorem Answers.bind (h : Answers sorts m A) (hf : ∀ a qs, A a qs → Answers sorts (f a) fun b qs' => C b (qs ++ qs')) :
    Answers sorts (m >>= f) C :=
  Asks.bind h (fun a qs hQ => hf a qs (hQ a rfl)) fun _ _ _ _ h => nomatch h

theorem Answers.silent_bind (h : Silent sorts m) (hf : ∀ a, Answers sorts (f a) C) : Answers sorts (m >>= f) C :=
  Asks.silent_bind h hf fun _ _ h => nomatch h

theorem Answers.throw_bind (e : Error) : Answers sorts (MonadExcept.throw e >>= f) C :=
  fun _ _ => ⟨[], .of_eq rfl List.prefix_rfl rfl, fun _ h => nomatch h⟩

theorem Answers.ite {c : Prop} [Decidable c] {m' : Run K B α} (h : c → Answers sorts m A) (h' : ¬c → Answers sorts m' A) :
    Answers sorts (if c then m else m') A := by
  split
  next hc => exact h hc
  next hc => exact h' hc

theorem Answers.lift (r : Except Error α) : Answers sorts (Edit.lift r : Run K B α) fun a qs => qs = [] ∧ r = .ok a := by
  cases r with
  | error e => exact .throw e
  | ok a => exact .pure ⟨rfl, rfl⟩

/-- **A loop** asks what its steps ask, one after the other. -/
theorem Answers.foldlM_behind {γ σ : Type} {f : σ → γ → Run K B σ} {I : List γ → σ → List (OracleCall K B) → Prop}
    (hf : ∀ done c s qs, I done s qs → Answers sorts (f s c) fun s' qs' => I (done ++ [c]) s' (qs ++ qs')) :
    ∀ {cs done : List γ} {s : σ} {qs : List (OracleCall K B)}, I done s qs →
      Answers sorts (cs.foldlM f s) fun s' qs' => I (done ++ cs) s' (qs ++ qs')
  | [], done, s, qs, hI => .pure (by rwa [List.append_nil, List.append_nil])
  | c :: cs, done, s, qs, hI => by
    rw [List.foldlM_cons]
    refine .bind (hf done c s qs hI) fun s' qs' hI' => ?_
    refine (Answers.foldlM_behind hf hI').mono fun s'' qs'' hI'' => ?_
    rwa [List.append_assoc, List.append_assoc] at hI''

theorem Answers.foldlM {γ σ : Type} {f : σ → γ → Run K B σ} {I : List γ → σ → List (OracleCall K B) → Prop} {cs : List γ} {s : σ}
    (hI : I [] s []) (hf : ∀ done c s qs, I done s qs → Answers sorts (f s c) fun s' qs' => I (done ++ [c]) s' (qs ++ qs')) :
    Answers sorts (cs.foldlM f s) (I cs) :=
  Answers.foldlM_behind hf hI

theorem Answers.mapM {γ : Type} {f : γ → Run K B α} {I : γ → α → Prop}
    (hf : ∀ c, Answers sorts (f c) fun a qs => qs = [] ∧ I c a) : ∀ {cs : List γ},
      Answers sorts (cs.mapM f) fun as qs => qs = [] ∧ List.Forall₂ I cs as
  | [] => .pure ⟨rfl, .nil⟩
  | c :: cs => by
    rw [List.mapM_cons]
    refine .bind (hf c) fun a qs ⟨hqs, ha⟩ => .bind (Answers.mapM hf) fun as qs' ⟨hqs', has⟩ => .pure ⟨?_, .cons ha has⟩
    rw [hqs, hqs']
    rfl

theorem Answers.forM {γ : Type} {f : γ → Run K B PUnit} {q : γ → OracleCall K B}
    (hf : ∀ c, Asks sorts (f c) fun _ qs => qs = [q c]) : ∀ {cs : List γ},
      Answers sorts (cs.forM f) fun _ qs => qs = cs.map q
  | [] => .pure rfl
  | c :: cs => by
    have hcons : (c :: cs).forM f = (f c >>= fun _ => cs.forM f) := rfl
    rw [hcons]
    refine .bind ((hf c).mono fun _ _ hqs _ _ => hqs) fun _ qs hqs => (Answers.forM hf).mono fun _ qs' hqs' => ?_
    rw [hqs, hqs']
    rfl

/-! ## Clock, log and solvers -/

theorem silent_now [Scalar K B] : Silent sorts (now : Run K B K) := by
  intro env _
  unfold now
  rw [Edit.run_bind_of_ok (Edit.run_get env)]
  cases env.pauses with
  | nil => exact ⟨[], .of_eq rfl List.prefix_rfl rfl, rfl⟩
  | cons pause rest => exact ⟨[], .of_eq rfl List.prefix_rfl rfl, rfl⟩

/-- Looking at the clock before and after a step asks nothing. -/
theorem Answers.timed [Scalar K B] {stage : Stage} {t : TimerTree K} (h : Answers sorts m A) :
    Answers sorts (SolveLoop.timed stage t m) fun a qs => A a.1 qs := by
  refine .silent_bind silent_now fun now => .bind h fun a qs hA => .silent_bind silent_now fun now' => ?_
  refine .bind (.lift _) fun t' qs' ht' => .pure ?_
  rw [ht'.1, List.append_nil, List.append_nil]
  exact hA

theorem silent_progress (text : String) : Silent sorts (progress text : Run K B Unit) :=
  fun _ _ => ⟨[], .of_eq rfl List.prefix_rfl rfl, rfl⟩

theorem silent_detail (topic : LogTopic) (text : String) : Silent sorts (detail topic text : Run K B Unit) := by
  intro env _
  have hrun : (detail topic text).run env
      = (.ok ⟨⟩, if env.verbose then { env with log := env.log ++ [⟨topic, text⟩] } else env) := rfl
  rw [hrun]
  dsimp only
  split
  next => exact ⟨[], .of_eq rfl List.prefix_rfl rfl, rfl⟩
  next => exact ⟨[], .of_eq rfl List.prefix_rfl rfl, rfl⟩

theorem silent_solverOf (s : Option SolverId) : Silent sorts (solverOf s : Run K B _) := by
  unfold solverOf
  split
  next => exact .throw _
  next i =>
    refine .bind .get fun env => ?_
    split
    next => exact .pure _
    next => exact .throw _

theorem silent_solverName (s : Option SolverId) : Silent sorts (solverName s : Run K B _) :=
  .bind (silent_solverOf s) fun _ => .pure _

theorem silent_secondsOf (a : Option (TimeAllowance K)) : Silent sorts (secondsOf a : Run K B _) := by
  unfold secondsOf
  split
  next => exact .pure _
  next a => exact .bind (.lift a.seconds) fun _ => .pure _

/-- Handing a program to a solver asks no oracle; the call is recorded. -/
theorem silent_solve [Scalar K B] (s : Option SolverId) (allowance : Option (TimeAllowance K)) (p : LinearProgram K B) :
    Silent sorts (solve s allowance p) := by
  unfold solve
  refine .bind (silent_solverOf s) fun (i, solver) => .bind (silent_secondsOf allowance) fun timeLimit => ?_
  rcases solver.answer p with ⟨r, delay, solver⟩
  refine .bind ?_ fun _ => .lift r
  exact fun env _ => ⟨[], .of_eq rfl (List.prefix_append _ _) rfl, rfl⟩

/-! ## Oracles -/

/-- The sort of an oracle that is looked up. -/
theorem asks_oracleOf (o : OracleId) : Asks sorts (oracleOf o : Run K B _)
    fun r qs => qs = [] ∧ ∀ a, r = .ok a → sorts[o]? = some a.usesSeparation := by
  intro env henv
  refine ⟨[], ?_⟩
  unfold oracleOf
  rw [Edit.run_bind_of_ok (Edit.run_get env)]
  cases ho : env.oracles[o]? with
  | none => exact ⟨.of_eq rfl List.prefix_rfl rfl, rfl, fun _ h => nomatch h⟩
  | some a =>
    refine ⟨.of_eq rfl List.prefix_rfl rfl, rfl, fun b hb => ?_⟩
    cases hb
    rw [← henv, Environment.sorts, List.getElem?_map, ho]
    rfl

/-- A step that depends on an oracle. -/
theorem Asks.oracleOf_bind {o : OracleId} {f : Oracle K B → Run K B β}
    (hf : ∀ a, sorts[o]? = some a.usesSeparation → Asks sorts (f a) R) (herror : ∀ e, R (.error e) []) :
    Asks sorts (oracleOf o >>= f) R := by
  refine .bind (asks_oracleOf o) (fun a qs h => ?_) fun e qs h => h.1 ▸ herror e
  obtain ⟨rfl, ha⟩ := h
  exact hf a (ha a rfl)

theorem Silent.oracleOf_bind {o : OracleId} {f : Oracle K B → Run K B β}
    (hf : ∀ a, sorts[o]? = some a.usesSeparation → Silent sorts (f a)) : Silent sorts (oracleOf o >>= f) :=
  Asks.oracleOf_bind hf fun _ => rfl

/-- An oracle may be replaced by one of the same sort. -/
theorem silent_setOracle {o : OracleId} {a : Oracle K B} (h : sorts[o]? = some a.usesSeparation) :
    Silent sorts (setOracle o a) := by
  intro env henv
  refine ⟨[], .of_eq rfl List.prefix_rfl ?_, rfl⟩
  have hset : ((setOracle o a).run env).2.sorts = env.sorts.set o a.usesSeparation := List.map_set
  rw [hset, henv]
  exact List.ext_getElem? fun i => by
    rw [List.getElem?_set]
    split
    next hi =>
      subst hi
      have ho : o < sorts.length := (List.getElem?_eq_some_iff.mp h).1
      rw [if_pos ho, h]
    next => rfl

theorem asks_ask (q : OracleCall K B) : Asks sorts (ask q) fun _ qs => qs = [q] :=
  fun _ _ => ⟨[q], ⟨rfl, List.prefix_rfl, rfl⟩, rfl⟩

theorem silent_allow (o : OracleId) (allowance : Option (TimeAllowance K)) :
    Silent sorts (allow o allowance : Run K B Unit) := by
  unfold allow
  refine .oracleOf_bind fun a ha => silent_setOracle ?_
  cases a with
  | dualizing s => exact ha
  | separating preferred s => exact ha
  | replaying r => exact ha

theorem silent_known (value : Option K) : Silent sorts (known value : Run K B K) := by
  cases value with
  | none => exact .throw _
  | some v => exact .pure v

theorem silent_replaySeparation {o : OracleId} {r : ReplayedOracle K B} (h : sorts[o]? = some r.separating)
    (row : MixedRow K B) : Silent sorts (replaySeparation o r row) := by
  unfold replaySeparation
  split
  next => exact .pure _
  next =>
    rcases nextSeparation row.source.text r.separations with ⟨a, separations⟩
    refine .bind (silent_setOracle h) fun _ => ?_
    split
    next => exact .pure _
    next => exact .pure _
    next => exact .throw _

section

variable [Scalar K B]

theorem silent_nominalOf (s : Option SolverId) (p : LinearProgram K B) : Silent sorts (nominalOf s p) := by
  unfold nominalOf
  refine .bind (silent_solve _ _ _) fun r => .ite (.throw_bind _) ?_
  split
  next => exact .pure _
  next => exact .bind (silent_solverName s) fun _ => .throw _

theorem silent_worstCase (s : Separator K B) (g : Form K) (sense : Sense) : Silent sorts (worstCase s g sense) := by
  unfold worstCase
  split
  next => exact .pure _
  next =>
    split
    next => exact .throw _
    next p =>
      refine .bind (.lift _) fun p => .bind (silent_solve _ _ _) fun r => .bind (silent_solverName _) fun name => ?_
      split
      next => exact .throw _
      next => exact .throw _
      next => exact .throw _
      next => exact .pure _
      next => exact .throw _

variable [Bound B]

/-- **Reformulating a row** is one request. -/
theorem asks_reformulate (o : OracleId) (row : MixedRow K B) :
    Asks sorts (reformulate o row) fun _ qs => qs = [.reformulate o row] := by
  unfold reformulate
  refine .bind_silent (asks_ask _) fun _ => .oracleOf_bind fun a _ => ?_
  cases a with
  | dualizing s =>
    cases s with
    | none => exact .throw _
    | some set =>
      refine .bind (.liftFault _) fun f => .ite ?_ (.pure f)
      exact .bind (silent_detail _ _) fun _ => .pure f
  | separating preferred s => exact .bind (.liftFault _) fun _ => .pure _
  | replaying r => exact .pure _

theorem silent_violatedAt (s : Separator K B) (side : String) (violation : B) (point : Option (List K)) :
    Silent sorts (violatedAt s side violation point) := by
  unfold violatedAt
  split
  next => exact .throw _
  next =>
    split
    next =>
      split
      next => exact .pure _
      next => exact .throw _
    next => exact .pure _

theorem silent_separateBy (s : Separator K B) (row : MixedRow K B) (x : Lookup K) :
    Silent sorts (separateBy s row x) := by
  have hupper : ∀ g, Silent sorts (separateUpper s g row) := fun g =>
    .ite (.bind (silent_worstCase s g .maximize) fun _ => .bind (silent_known _) fun _ => silent_violatedAt _ _ _ _) (.pure _)
  have hlower : ∀ g, Silent sorts (separateLower s g row) := fun g =>
    .ite (.bind (silent_worstCase s g .minimize) fun _ => .bind (silent_known _) fun _ => silent_violatedAt _ _ _ _) (.pure _)
  exact .bind (.liftFault _) fun g => .bind (hupper g) fun a => .bind (hlower g) fun b => .pure _

/-- **Separating a candidate from a row** is one request. -/
theorem asks_separate (o : OracleId) (row : MixedRow K B) (x : Option (List K)) :
    Asks sorts (separate o row x) fun _ qs => qs = [.separate o row x] := by
  unfold separate
  refine .bind_silent (asks_ask _) fun _ => .oracleOf_bind fun a ha => ?_
  cases a with
  | dualizing s => exact .pure _
  | separating preferred s => exact silent_separateBy s row _
  | replaying r => exact silent_replaySeparation ha row

theorem silent_setUpDualizing {o : OracleId} (h : sorts[o]? = some false) (set : UncertaintySet K B)
    (options : OracleOptions K) : Silent sorts (setUpDualizing o set options) := by
  unfold setUpDualizing
  refine .bind (silent_setOracle h) fun _ => .ite (.throw_bind _) (.ite ?_ (.pure _))
  exact .bind (.lift _) fun p => .bind (silent_nominalOf _ p) fun _ => .pure _

theorem silent_setUpSeparating {o : OracleId} (h : sorts[o]? = some true) (preferred : Bool) (s : Separator K B)
    (set : UncertaintySet K B) (options : OracleOptions K) : Silent sorts (setUpSeparating o preferred s set options) := by
  unfold setUpSeparating
  refine .bind (.lift _) fun p => .bind (silent_setOracle h) fun _ => .ite ?_ ?_
  · exact .bind (.pure _) fun _ => silent_setOracle h
  · exact .bind (silent_nominalOf _ p) fun _ => silent_setOracle h

/-- **Setting up an oracle** is one request, whether it succeeds or not. -/
theorem asks_setUp (o : OracleId) (set : UncertaintySet K B) (options : OracleOptions K) :
    Asks sorts (setUp o set options) fun _ qs => qs = [.setup o] := by
  unfold setUp
  refine .bind_silent (asks_ask _) fun _ => .oracleOf_bind fun a ha => ?_
  cases a with
  | dualizing s => exact silent_setUpDualizing ha set options
  | separating preferred s => exact silent_setUpSeparating ha preferred s set options
  | replaying r =>
    dsimp only
    split
    next => exact .throw _
    next => exact .pure _

end

end Run

end RobustLP
