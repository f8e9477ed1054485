import RobustLP.Proofs.Model.Certain
import RobustLP.Proofs.Solve.Handed
import RobustLP.Solve.Robust

/-!
# Robust solves without uncertainty

Let the objective of a robust model be linear, let no variable depend on parameters, and let the parameters in its uncertain
constraints cancel. A robust solve then hands a single program to the solver (`RobustSolve.attempt_hands_plain`): that of the model,
followed by a row for each uncertain constraint. No oracle is asked for anything. The stages before the loop only fail where a sum of
coefficients does (`Run.Prepares`), and the loop ends after one round since nothing is to be separated.
-/

namespace RobustLP

open Run SolveLoop Model

variable {K B α β : Type} [Scalar K B]

/-- **A run that hands nothing to solvers,** and fails only where a sum of coefficients does. -/
abbrev Run.Prepares (n : Nat) (m : Run K B α) (P : α → Prop) : Prop := Hands n m [] fun r => Calculates K r P

namespace Run

variable {n : Nat} {m : Run K B α} {f : α → Run K B β} {P : α → Prop} {Q : β → Prop}

theorem Prepares.bind (h : Prepares n m P) (hf : ∀ a, P a → Prepares n (f a) Q) : Prepares n (m >>= f) Q :=
  Hands.bind h (fun _ he => he.of_error) fun a ha => hf a ha.of_ok

theorem Prepares.pure {a : α} (h : P a) : Prepares n (pure a : Run K B α) P := Hands.pure (.ok h)

theorem Prepares.timed {stage : Stage} {t : TimerTree K} (ht : t.Clocked) (h : Prepares n m P) :
    Prepares n (timed stage t m) fun a => P a.1 ∧ a.2.Clocked :=
  Hands.timed ht h (fun _ he => he.of_error) fun _ _ ht' ha => .ok ⟨ha.of_ok, ht'⟩

end Run

variable [Bound B] [Written K] [Written B]

/-- **A program can be written** if each of its rows has bounds and a name. -/
theorem LinearProgram.exists_lines {p : LinearProgram K B} (h : p.rows.Aligned) : ∃ lines, p.lines = .ok lines := by
  have hrow : ∀ r ∈ p.rows.coefs.zipIdx, ∃ line, p.rowLine r.2 r.1 = .ok line := by
    intro r hr
    have hlt := List.snd_lt_of_mem_zipIdx hr
    unfold rowLine
    rw [List.getElem?_eq_getElem (h.names.symm ▸ hlt : r.2 < p.rows.names.length),
      List.getElem?_eq_getElem (h.lower.symm ▸ hlt : r.2 < p.rows.lower.length),
      List.getElem?_eq_getElem (h.upper.symm ▸ hlt : r.2 < p.rows.upper.length)]
    exact ⟨_, rfl⟩
  obtain ⟨rows, hrows⟩ := exists_mapM_ok_iff.mpr hrow
  exact ⟨_, bind_eq_ok.mpr ⟨rows, hrows, rfl⟩⟩

namespace RobustSolve

variable {n : Nat} {naming : Naming} {options : RobustOptions K} {m : Model K B} {self : ModelId}

/-! ## The stages before the loop -/

omit [Written K] [Written B] in
/-- **Rows without parameters** become rows of the program. -/
theorem foldlM_addDeterministic : ∀ {mixed : List (MixedRow K B)} {rows : List (TableRow K B)} {p : LinearProgram K B},
    List.Forall₂ (MixedRow.Becomes p.numColumns) mixed rows → mixed.foldlM addDeterministic p = pure (p.grow [] rows)
  | [], _, p, .nil => by rw [p.grow_nil]; rfl
  | r :: mixed, t :: rows, p, .cons hr hmixed => by
    obtain ⟨terms, hpoint, hcoefs, hcolumns⟩ := hr.row
    have hadd : addDeterministic p r = pure (p.grow [] [t]) := by
      unfold addDeterministic editing
      rw [hr.name, LinearProgram.run_addCutTo (hpoint noParameters) hcolumns, ← hcoefs, Option.getD_some]
    have hrest := foldlM_addDeterministic (p := p.grow [] [t]) (by rwa [LinearProgram.numColumns_growRows])
    rw [List.foldlM_cons, hadd, pure_bind, hrest, LinearProgram.grow_grow]
    rfl

theorem prepares_expand {P : WorkingModel K B → Prop}
    (h : Calculates K (WorkingModel.ofModel naming m >>= (Expander.ofModel m).apply) P) : Prepares n (expand naming m) P := by
  have hlift : expand naming m = Edit.lift (WorkingModel.ofModel naming m >>= (Expander.ofModel m).apply) >>= fun wm =>
      Run.detail .expansion ((Expander.ofModel m).summary wm) >>= fun _ => pure wm := by
    unfold expand
    cases WorkingModel.ofModel naming m with
    | error e => rfl
    | ok wm => rfl
  rw [hlift]
  exact Prepares.bind (.lift h) fun wm hwm => (idles_detail _ _).bind fun _ _ => Prepares.pure hwm

/-- No row is left that needs an oracle. -/
theorem prepares_prepare (hm : m.Sound self) {wm : WorkingModel K B} {rows : List (TableRow K B)}
    (h : List.Forall₂ (MixedRow.Becomes wm.program.numColumns) wm.rows rows) :
    Prepares n (prepare naming options m wm) fun a => a = (wm.program.grow [] rows, []) := by
  have hcertain : ∀ r ∈ wm.rows, isDeterministic r = true := fun r hr => by
    obtain ⟨t, -, hbecomes⟩ := exists_right_of_forall₂ h hr
    exact hbecomes.certain
  have hset : Calculates K (UncertaintySet.ofModel naming m) fun _ => True :=
    (hm.ofModel_cases naming).imp_left fun ⟨s, hs, _⟩ => ⟨s, hs, trivial⟩
  unfold prepare
  rw [List.filter_eq_self.mpr hcertain, List.filter_eq_nil_iff.mpr fun r hr => by rw [hcertain r hr]; exact Bool.false_ne_true,
    foldlM_addDeterministic h]
  exact Prepares.bind (.lift hset) fun s _ => Prepares.pure rfl

omit [Written K] [Written B] in
theorem reformulate_nil (options : RobustOptions K) (p : LinearProgram K B) : reformulate options p [] = pure (p, 0, []) := by
  unfold reformulate
  cases options.nominalCuts <;> rfl

omit [Bound B] [Scalar K B] [Written K] [Written B] in
theorem idles_logIntro (options : RobustOptions K) : Idles n (logIntro options : Run K B Unit) fun _ => True := by
  unfold logIntro
  refine (idles_progress _).bind fun _ _ => (idles_progress _).bind fun _ _ => (idles_progress _).bind fun _ _ => ?_
  exact (idles_progress _).bind fun _ _ => (Idles.forM (fun _ => idles_progress _) _).bind fun _ _ => idles_progress _

omit [Bound B] [Scalar K B] [Written K] [Written B] in
theorem idles_logStatistics (m : Model K B) (wm : WorkingModel K B) : Idles n (logStatistics m wm) fun _ => True := by
  unfold logStatistics
  exact (idles_progress _).bind fun _ _ => (Idles.forM (fun _ => idles_progress _) _).bind fun _ _ => idles_progress _

/-- **A launch that leaves nothing to be separated:** its program is that of the model with rows for the uncertain constraints. -/
structure Launch.Plain (naming : Naming) (m : Model K B) (l : Launch K B) (p : LinearProgram K B) (rows plain : List (TableRow K B)) :
    Prop where
  model : m.Plain naming l.working p rows plain
  program : l.program = p.grow [] rows
  separated : l.separated = []
  clocked : l.timing.Clocked

/-- **The stages before the loop** hand nothing to solvers. -/
theorem prepares_launch (options : RobustOptions K) (hm : m.Sound self) (hrobust : m.robust = true)
    (hexpanded : Calculates K (WorkingModel.ofModel naming m >>= (Expander.ofModel m).apply) fun wm => ∃ p rows plain,
      m.Plain naming wm p rows plain) :
    Prepares n (launch naming options m) fun l => ∃ p rows plain, l.Plain naming m p rows plain := by
  unfold launch
  rw [hrobust]
  refine idles_now.bind fun time _ => (idles_logIntro options).bind fun _ _ => ?_
  refine (Prepares.timed (TimerTree.clocked_start time) (prepares_expand hexpanded)).bind fun (wm, t) h => ?_
  obtain ⟨⟨p, rows, plain, hplain⟩, ht⟩ := h
  obtain rfl : wm.program = p := hplain.working
  refine (idles_logStatistics m wm).bind fun _ _ => ?_
  refine (Prepares.timed ht (prepares_prepare hm hplain.becomes)).bind fun ((q, left), t) h => ?_
  obtain ⟨hprepared, ht⟩ := h
  cases hprepared
  have hreformulate : Prepares n (reformulate options (wm.program.grow [] rows) []) fun a => a = (wm.program.grow [] rows, 0, []) := by
    rw [reformulate_nil]
    exact Prepares.pure rfl
  refine (Prepares.timed ht hreformulate).bind fun ((q, count, separated), t) h => ?_
  obtain ⟨hreformulated, ht⟩ := h
  cases hreformulated
  obtain ⟨lines, hlines⟩ := LinearProgram.exists_lines (p := wm.program.grow [] rows) (hplain.aligned.append rows)
  refine (idles_progress _).bind fun _ _ => (Idles.liftFault (P := fun _ => True) hlines trivial).bind fun _ _ => ?_
  exact (idles_detail _ _).bind fun _ _ => Prepares.pure ⟨_, rows, plain, hplain, rfl, rfl, ht⟩

end RobustSolve

/-! ## The loop -/

namespace SolveLoop

variable {n : Nat} {options : LoopOptions K} {i : SolverId}

omit [Bound B] in
theorem idles_logRound {s : LoopState K B} (hs : s.timing.Clocked) (objective : Option K) (cuts violated : Option Nat)
    (violation : Option B) : Idles n (logRound s objective cuts violated violation) fun _ => True := by
  unfold logRound
  exact (idles_elapsed hs).bind fun _ _ => idles_progress _

omit [Written B] in
theorem examine_nil (options : LoopOptions K) (x : Option (List K)) (t : TimerTree K) :
    examine options ([] : List (MixedRow K B)) x t = pure (some [], t) := rfl

omit [Written B] in
/-- One program is solved, and nothing is separated. -/
theorem spends_consult (hsolver : options.solver = some i) (hi : i < n) (p : LinearProgram K B) {t : TimerTree K} (ht : t.Clocked) :
    Spends n (consult options [] p t) [(i, p)] fun a => a.2.Clocked := by
  unfold consult
  rw [hsolver]
  refine (idles_remaining options ht).bind fun left _ => ?_
  refine (Spends.timed ht (spends_solve hi left p)).bind fun (answer, t') ⟨_, ht'⟩ => ?_
  dsimp only
  rw [examine_nil, pure_bind]
  split
  next => exact Spends.pure ht'
  next => exact Spends.pure ht'

/-- Where nothing was to be separated, the loop ends. -/
theorem idles_judge (options : LoopOptions K) (r : Round K B) {s : LoopState K B} (hs : s.timing.Clocked) :
    Idles n (judge options [] r s) fun a => a.2.isSome = true := by
  unfold judge
  dsimp only
  split
  next =>
    split
    next => exact (idles_logRound hs _ _ _ _).bind fun _ _ => Idles.pure rfl
    next => exact (idles_logRound hs _ _ _ _).bind fun _ _ => Idles.pure rfl
  next =>
    refine (idles_logRound hs _ _ _ _).bind fun _ _ => ?_
    split
    next => exact Idles.pure rfl
    next => exact Idles.pure rfl

/-- **A loop without rows** hands its program to the solver, once. -/
theorem spends_run (hsolver : options.solver = some i) (hi : i < n) {s : LoopState K B} (hs : s.timing.Clocked) (fuel : Nat) :
    Spends n (run (fuel + 1) options [] s) [(i, s.program)] fun _ => True := by
  have hround : Spends n (round options [] s) [(i, s.program)] fun a => a.2.isSome = true := by
    unfold round
    refine (spends_consult hsolver hi s.program hs).bind fun (r, timing) ht => ?_
    exact (idles_judge options r (s := { s with iterations := s.iterations + 1, timing }) ht).spends
  unfold run rounds
  refine (Idles.forM (fun _ => idles_progress _) _).bind fun _ _ => hround.bind fun (s', ending) h => ?_
  obtain ⟨e, rfl⟩ := Option.isSome_iff_exists.mp h
  exact Spends.pure trivial

end SolveLoop

namespace RobustSolve

variable {n : Nat} {naming : Naming} {options : RobustOptions K} {m : Model K B} {self : ModelId}

omit [Bound B] [Written K] [Written B] in
theorem spends_finish (model : ModelId) (l : Launch K B) (s : LoopState K B) (ending : Option (LoopEnd K B)) :
    Spends n (finish model m l s ending) [] fun _ => True := by
  unfold finish
  exact idles_now.bind fun time _ => (Spends.lift _).bind fun timing _ => (Spends.lift _).bind fun total _ => .lift _

/-- **What comes after the launch** hands one program to the solver. -/
theorem spends_loop {l : Launch K B} {i : SolverId} (hsolver : options.solver = some i) (hi : i < n) (hseparated : l.separated = [])
    (hclocked : l.timing.Clocked) (fuel : Nat) (model : ModelId) :
    Spends n (SolveLoop.run (fuel + 1) options.forLoop l.separated l.start >>= fun a => finish model m l a.1 a.2) [(i, l.program)]
      fun _ => True := by
  rw [hseparated]
  exact (spends_run hsolver hi (s := l.start) hclocked fuel).bind fun a _ => spends_finish model l a.1 a.2

/-- **A robust solve without uncertainty hands the program of its model to the solver.** The objective is linear, no variable depends on
parameters, and those that the uncertain constraints mention cancel. Unless a sum of coefficients fails before, the solver is handed
one program, which is that of the model followed by a row for each uncertain constraint. These rows are the last ones in the program
of the model in which the constraints are written without parameters, except for their names, which are the texts of the uncertain
constraints. No oracle is asked for anything. -/
theorem attempt_hands_plain [Scalar.Neutral K] {us : List Parameter} (h : m.Worked self us) (hrobust : m.robust = true)
    (hobjective : m.objective.kind = .linear) (haffine : ∀ p ∈ m.affine, p.2 = [])
    (hcancel : ∀ c ∈ m.uncertain, c.1.body.ParametersCancel) {i : SolverId} (hsolver : options.solver = some i)
    {env env' : Environment K B} (hi : i < env.solvers.length) {fuel : Nat} {model : ModelId} {r : Except Error (RobustResults K B)}
    (hrun : (attempt (fuel + 1) naming options model m).run env = (r, env')) :
    (∃ p rows plain, LinearProgram.ofModel naming m = .ok p
      ∧ LinearProgram.ofModel naming m.withoutParameters = .ok (p.grow [] plain)
      ∧ List.Forall₂ TableRow.Same rows plain ∧ List.Forall₂ (fun c t => c.1.text naming = .ok t.name) m.uncertain rows
      ∧ (m.uncertain = [] → p.grow [] rows = p) ∧ env.Handed [(i, p.grow [] rows)] env')
    ∨ env.Handed [] env' ∧ ∃ f, r = .error (.fault f) ∧ SumFails K f := by
  have hm := h.sound
  have hexpanded := hm.calculates_expanded naming hobjective haffine h.numbered hcancel
  obtain ⟨hhanded, hcalculates⟩ := prepares_launch options hm hrobust hexpanded env rfl
  unfold attempt at hrun
  cases hlaunch : (launch naming options m).run env with
  | mk started env₁ =>
    rw [hlaunch] at hhanded hcalculates
    obtain ⟨l, rfl, p, rows, plain, hl⟩ | ⟨f, rfl, hf⟩ := hcalculates
    · rw [Edit.run_bind_of_ok hlaunch] at hrun
      have hone : env₁.Handed [(i, l.program)] (r, env').2 :=
        hrun ▸ (spends_loop hsolver hi hl.separated hl.clocked fuel model env₁ hhanded.solvers).1
      rw [hl.program] at hone
      refine .inl ⟨p, rows, plain, hl.model.program, hl.model.struck, hl.model.same, hl.model.names, fun hnone => ?_,
        hhanded.trans hone⟩
      have hnames := hl.model.names
      rw [hnone, List.forall₂_nil_left_iff] at hnames
      rw [hnames, p.grow_nil]
    · rw [Edit.run_bind_of_error hlaunch] at hrun
      cases hrun
      exact .inr ⟨hhanded, f, rfl, hf⟩

end RobustSolve

/-! ## An example -/

/-- A variable, to which its product with a parameter is added and subtracted again. -/
def returned : Expr Rat := .full {
  terms := [(⟨0, 0⟩, { terms := [(⟨0, 0⟩, 1)], constant := 0, owner := some 0 }),
    (⟨0, 0⟩, { terms := [(⟨0, 0⟩, -1)], constant := 0, owner := some 0 }), (⟨0, 0⟩, .ofConstant 1)]
  constant := { terms := [(⟨0, 0⟩, 0), (⟨0, 0⟩, 0)], constant := 0, parts := some [0, 0, 0], owner := some 0 }
  owner := some 0 }

theorem formed_returned : (Quantity.expr returned).Formed := by
  let u : Parameter := ⟨0, 0⟩
  let x : Variable := ⟨0, 0⟩
  let product (c : Rat) : Quantity Rat := .expr <| .full {
    terms := [(x, { terms := [(u, c)], constant := 0, owner := some 0 })]
    constant := { terms := [(u, 0)], constant := 0, owner := some 0 }
    owner := some 0 }
  have hproduct : (product 1).Formed := .mul (.ofParameter u) (.ofVariable x) (by cbv)
  have hscale : (product 1).scale (-1) = product (-1) := by cbv
  have hless : (product (-1)).Formed := hscale ▸ hproduct.scale (-1)
  exact .add (.add hproduct hless rfl) (.ofVariable x) (by cbv)

theorem parametersCancel_returned : returned.ParametersCancel := by
  intro n hn
  have hnone : (returned.normalized.toOption.map fun n => n.allParameters) = some [] := by cbv
  rw [hn] at hnone
  exact Option.some.inj hnone

/-- A model with a parameter, a constraint of the set, a variable that adapts to nothing, and an upper bound for what is left of it. -/
theorem exists_worked_returned : ∃ m : Model Rat ExtRat, m.Worked 0 [handle 0 0] ∧ m.robust = true ∧ m.objective.kind = .linear
    ∧ m.affine = [(0, [])] ∧ m.setConstraints.length = 1 ∧ m.uncertain.map (·.1.body) = [returned] := by
  let naming : Naming := Catalog.naming ([] : Catalog Rat ExtRat)
  let x : Variable := ⟨0, 0⟩
  let inSet : Constraint Rat ExtRat := { body := .ofParameter ⟨0, 0⟩, lower := .finite (1 / 2), upper := .finite 2 }
  let robust : Constraint Rat ExtRat := { body := returned, lower := .negInf, upper := .finite 4 }
  let parameter : Call Rat ExtRat := .addParameter { lower := some (.ok (.finite 0)), upper := some (.ok (.finite 3)) }
  let policy : Call Rat ExtRat := .setPolicy [.decision x] (.text "affine") []
  have hvariables : ∀ v ∈ returned.allVariables, v.model = 0 → v.index < 1 := by decide
  have hparameters : ∀ u ∈ returned.allParameters, u.model = 0 → u ∈ [handle 0 0] := by decide
  have hadapted : ∀ j, PolicyObject.decision ⟨0, j⟩ ∈ [PolicyObject.decision x] → j < 1 := by
    intro j hj
    obtain rfl : j = 0 := by simpa [x] using hj
    exact Nat.zero_lt_one
  have h₁ : Worked 0 _ [handle 0 0] := .call naming parameter (.start "m" true 0) trivial
  have h₂ : Worked 0 _ [handle 0 0] := .call naming (.addVariable {}) h₁ trivial
  have h₃ : Worked 0 _ [handle 0 0] := .call naming (.addConstraint (.constraint inSet) none) h₂
    ⟨.ofParameter _, List.forall_mem_nil _, List.forall_mem_singleton.mpr fun _ => List.mem_singleton_self _⟩
  have h₄ : Worked 0 _ [handle 0 0] := .call naming (.addConstraint (.constraint robust) none) h₃
    ⟨formed_returned, hvariables, hparameters⟩
  have h₅ : Worked 0 _ [handle 0 0] := .call naming (.setObjective (.ok (.expr (.ofVariable x))) (some .minimize)) h₄
    ⟨.ofVariable x, List.forall_mem_singleton.mpr fun _ => Nat.zero_lt_one, List.forall_mem_nil _⟩
  have h₆ : Worked 0 _ [handle 0 0] := .call naming policy h₅
    ⟨hadapted, fun k hk => nomatch hk⟩
  have hkind : PolicyKind.ofValue? (.text "affine") = some .affine := by decide +kernel
  refine ⟨_, h₆, ?_, ?_, ?_, ?_, ?_⟩ <;>
  · dsimp only [policy, Call.edit, setPolicy]
    rw [hkind]
    rfl

namespace RobustSolve

/-- A solve that hands one program to the solver, with the row `x ≤ 4` for the constraint `u x - u x + x ≤ 4`. -/
theorem attempt_hands_plain_returned : ∃ (m : Model Rat ExtRat) (env env' : Environment Rat ExtRat)
      (r : Except Error (RobustResults Rat ExtRat)) (p : LinearProgram Rat ExtRat) (row plain : TableRow Rat ExtRat),
    m.affine = [(0, [])] ∧ m.setConstraints.length = 1 ∧ m.uncertain.map (·.1.body) = [returned]
      ∧ (attempt 1 (Catalog.naming [m]) { solver := some 0 } 0 m).run env = (r, env')
      ∧ LinearProgram.ofModel (Catalog.naming [m]) m = .ok p
      ∧ LinearProgram.ofModel (Catalog.naming [m]) m.withoutParameters = .ok (p.grow [] [plain])
      ∧ row.Same plain ∧ env.Handed [(0, p.grow [] [row])] env' := by
  obtain ⟨m, hm, hrobust, hobjective, haffine, hset, huncertain⟩ := exists_worked_returned
  obtain ⟨c, hc, hbody⟩ := List.map_eq_singleton_iff.mp huncertain
  let env : Environment Rat ExtRat := { clock := 0, solvers := [.replaying "replayed" []] }
  have hnone : ∀ p ∈ m.affine, p.2 = [] := by
    rw [haffine]
    exact List.forall_mem_singleton.mpr rfl
  have hcancel : ∀ c ∈ m.uncertain, c.1.body.ParametersCancel := by
    rw [hc]
    exact List.forall_mem_singleton.mpr (hbody ▸ parametersCancel_returned)
  rcases hrun : (attempt 1 (Catalog.naming [m]) { solver := some 0 } 0 m).run env with ⟨r, env'⟩
  rcases attempt_hands_plain hm hrobust hobjective hnone hcancel rfl (Nat.one_pos : 0 < env.solvers.length) hrun with
    ⟨p, rows, plains, hp, hstruck, hsame, hnames, -, hhanded⟩ | ⟨-, f, -, hf⟩
  · rw [hc, List.forall₂_cons_left_iff] at hnames
    obtain ⟨row, rest, -, hrest, rfl⟩ := hnames
    obtain rfl := List.forall₂_nil_left_iff.mp hrest
    obtain ⟨plain, rest, hrow, hrest, rfl⟩ := List.forall₂_cons_left_iff.mp hsame
    obtain rfl := List.forall₂_nil_left_iff.mp hrest
    exact ⟨m, env, env', r, p, row, plain, haffine, hset, huncertain, hrun, hp, hstruck, hrow, hhanded⟩
  · exact absurd hf (not_sumFails_exact f)

end RobustSolve

end RobustLP
