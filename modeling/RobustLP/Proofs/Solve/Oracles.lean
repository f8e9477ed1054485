import RobustLP.Proofs.Dual.Exactness
import RobustLP.Proofs.Solve.Separate

/-!
# Oracles during a solve

A solve sets up its oracles, asks them to reformulate rows and to separate candidates, and tells them how much time they have.
After an oracle was set up against a set it stays ready (`Oracle.Prepared`): a dualizing one knows the set, a separating one the
program that stands for it.
-/

namespace RobustLP

open ExtRat UncertaintySet

/-- An oracle that works by itself, instead of replaying answers. -/
def Oracle.Standard : Oracle Rat ExtRat → Prop
  | replaying _ => False
  | _ => True

/-- **An oracle of a sort is ready for a set.** -/
def Oracle.Prepared (s : UncertaintySet Rat ExtRat) (tolerance : Option Rat) (drawn : List Rat → Prop) (separating : Bool) :
    Oracle Rat ExtRat → Prop
  | .dualizing set => separating = false ∧ set = some s
  | .separating _ sep => separating = true ∧ sep.Ready s tolerance drawn
  | .replaying _ => False

/-- **What an oracle answers** in place of a row. -/
def Oracle.Answers (row : MixedRow Rat ExtRat) (f : Reformulation Rat ExtRat) : Oracle Rat ExtRat → Prop
  | .dualizing set => ∃ s, set = some s ∧ s.dualize row = .ok f
  | .separating _ sep => ∃ name r, row.auxRow (Run.nominalLookup sep.nominal) name = .ok r ∧ f = { constraints := [r] }
  | .replaying r => f = r.reformulation

section

variable {s : UncertaintySet Rat ExtRat} {tolerance : Option Rat} {drawn : List Rat → Prop} {separating : Bool}
  {x : Oracle Rat ExtRat}

theorem Oracle.Prepared.standard (h : x.Prepared s tolerance drawn separating) : x.Standard := by
  cases x with
  | replaying r => exact h
  | _ => trivial

theorem Oracle.Prepared.usesSeparation (h : x.Prepared s tolerance drawn separating) : x.usesSeparation = separating := by
  cases x with
  | dualizing set => exact h.1.symm
  | separating preferred sep => exact h.1.symm
  | replaying r => exact h.elim

theorem Oracle.Prepared.allow (h : x.Prepared s tolerance drawn separating) (allowance : Option (TimeAllowance Rat)) :
    (x.allow allowance).Prepared s tolerance drawn separating := by
  cases x with
  | dualizing set => exact h
  | separating preferred sep => exact ⟨h.1, h.2.program, h.2.tolerance, h.2.nominal⟩
  | replaying r => exact h

end

namespace Run

variable {right : LinearProgram Rat ExtRat → SolverResults Rat → Prop} {s : UncertaintySet Rat ExtRat}
  {drawn : List Rat → Prop} {P : Condition}

/-! ## Setting up -/

/-- A nominal point is one that the solver answered. -/
theorem ensures_nominalOf (i : Option SolverId) (p : LinearProgram Rat ExtRat) : Ensures right (nominalOf i p) P
    fun x os => P os ∧ ∃ r, right p r ∧ r.termination = .optimal ∧ r.point = some x := by
  unfold nominalOf
  refine .bind (ensures_solve i none p) fun r => ?_
  dsimp only
  refine .ite (.throw_bind _) ?_
  split
  next x htermination hpoint => exact .pure fun os hP => ⟨hP.1, r, hP.2, htermination, hpoint⟩
  next => exact .quiet_bind (quiet_solverName _) fun _ => .throw _

theorem ensures_setUpDualizing (o : OracleId) (set : UncertaintySet Rat ExtRat) (options : OracleOptions Rat) :
    Ensures right (setUpDualizing o set options) (fun os => P (os.set o (.dualizing (some set)))) fun _ => P := by
  unfold setUpDualizing
  refine .bind (ensures_setOracle (P := P) o _) fun _ => ?_
  dsimp only
  refine .ite (.throw_bind _) (.ite ?_ (.pure fun _ hP => hP))
  refine .bind (.lift fun p os _ hP => hP) fun p => ?_
  exact .bind (ensures_nominalOf _ p) fun _ => .pure fun _ hP => hP.1

/-- A separator that knows the program of the set, but no nominal point yet. -/
def begun (sep : Separator Rat ExtRat) (options : OracleOptions Rat) (p : LinearProgram Rat ExtRat) : Separator Rat ExtRat :=
  { sep with
    program := some p
    solver := firstSolver [sep.own, options.separationSolver, options.solver]
    tolerance := options.tolerance }

theorem ensures_setUpSeparating (o : OracleId) (preferred : Bool) (sep : Separator Rat ExtRat)
    (options : OracleOptions Rat) :
    Ensures (SolverResults.Draws s drawn) (setUpSeparating o preferred sep s options) (fun os => s.numParameters ≠ 0
      ∧ ∀ sep' : Separator Rat ExtRat, sep'.Ready s options.tolerance drawn → P (os.set o (.separating preferred sep')))
      fun _ => P := by
  unfold setUpSeparating
  refine .bind (.lift (Q := fun p os => (s.numParameters ≠ 0 ∧ s.toProgram (some setProgramName) = .ok p)
    ∧ ∀ x, drawn x → P ((os.set o (.separating preferred (begun sep options p))).set o
      (.separating preferred { begun sep options p with nominal := some x }))) ?_) fun p => ?_
  · rintro p os hp ⟨hne, hP⟩
    refine ⟨⟨hne, hp⟩, fun x hx => ?_⟩
    rw [List.set_set]
    exact hP _ ⟨⟨p, hp, rfl⟩, rfl, x, rfl, hx⟩
  refine .bind (ensures_setOracle (P := fun os => (s.numParameters ≠ 0 ∧ s.toProgram (some setProgramName) = .ok p)
    ∧ ∀ x, drawn x → P (os.set o (.separating preferred { begun sep options p with nominal := some x }))) o _) fun _ => ?_
  have hend : ∀ x, Ensures (SolverResults.Draws s drawn)
      (setOracle o (.separating preferred { begun sep options p with nominal := some x }))
      (fun os => P (os.set o (.separating preferred { begun sep options p with nominal := some x }))) fun _ => P :=
    fun x => ensures_setOracle o _
  dsimp only
  split
  next hzero => exact .bind (.pure fun os hP => absurd hzero hP.1.1) hend
  next =>
    refine .bind ((ensures_nominalOf _ p).mono (fun _ h => h) ?_) hend
    rintro x os ⟨⟨⟨-, hp⟩, hP⟩, r, ⟨-, hdrawn⟩, htermination, hpoint⟩
    exact hP x (hdrawn ⟨p, hp, rfl, rfl⟩ htermination x hpoint)

/-- **Setting up an oracle** makes it ready, and leaves the others alone. -/
theorem ensures_setUp (o : OracleId) (options : OracleOptions Rat) :
    Ensures (SolverResults.Draws s drawn) (setUp o s options) (fun os => s.numParameters ≠ 0
      ∧ ∀ x, os[o]? = some x → x.Standard ∧ ∀ x' : Oracle Rat ExtRat,
        x'.Prepared s options.tolerance drawn x.usesSeparation → P (os.set o x')) fun _ => P := by
  unfold setUp
  refine .quiet_bind (quiet_ask _) fun _ => .bind (ensures_oracleOf o) fun x => ?_
  split
  next =>
    refine (ensures_setUpDualizing (P := P) o s options).mono ?_ fun _ _ hP => hP
    rintro os ⟨hP, hx⟩
    exact (hP.2 _ hx).2 _ ⟨rfl, rfl⟩
  next preferred sep =>
    refine (ensures_setUpSeparating (P := P) o preferred sep options).mono ?_ fun _ _ hP => hP
    rintro os ⟨hP, hx⟩
    exact ⟨hP.1, fun sep' hready => (hP.2 _ hx).2 _ ⟨rfl, hready⟩⟩
  next r =>
    split
    next => exact .throw _
    next =>
      refine .pure ?_
      rintro os ⟨hP, hx⟩
      exact (hP.2 _ hx).1.elim

/-! ## Requests -/

/-- **Asking an oracle to reformulate a row.** -/
theorem ensures_reformulate (o : OracleId) (row : MixedRow Rat ExtRat) : Ensures right (reformulate o row) P
    fun f os => P os ∧ ∃ x, os[o]? = some x ∧ x.Answers row f := by
  unfold reformulate
  refine .quiet_bind (quiet_ask _) fun _ => .bind (ensures_oracleOf o) fun x => ?_
  split
  next => exact .throw _
  next set =>
    refine .bind (.liftFault (Q := fun f os => P os ∧ ∃ x, os[o]? = some x ∧ x.Answers row f)
      fun f os hf hP => ⟨hP.1, _, hP.2, set, rfl, hf⟩) fun f => ?_
    dsimp only
    exact .ite (.quiet_bind (quiet_detail _ _) fun _ => .pure fun os hP => hP) (.pure fun os hP => hP)
  next preferred sep =>
    refine .bind (.liftFault (Q := fun r os => P os ∧ ∃ x, os[o]? = some x ∧ x.Answers row { constraints := [r] })
      fun r os hr hP => ⟨hP.1, _, hP.2, _, r, hr, rfl⟩) fun r => .pure fun os hP => hP
  next r => exact .pure fun os hP => ⟨hP.1, _, hP.2, rfl⟩

theorem ensures_replaySeparation (o : OracleId) (r : ReplayedOracle Rat ExtRat) (row : MixedRow Rat ExtRat)
    {Q : Option (Realization Rat ExtRat) → Condition} :
    Ensures right (replaySeparation o r row) (fun _ => False) Q := by
  unfold replaySeparation
  dsimp only
  refine .ite (.pure fun _ hfalse => hfalse.elim) (.bind (ensures_setOracle (P := fun _ => False) o _) fun _ => ?_)
  split
  next => exact .pure fun _ hfalse => hfalse.elim
  next => exact .pure fun _ hfalse => hfalse.elim
  next => exact .throw _

/-- What is known of a row after a candidate was separated from it. -/
abbrev Found (s : UncertaintySet Rat ExtRat) (tolerance : Option Rat) (drawn : List Rat → Prop) (x : Option (List Rat))
    (row : MixedRow Rat ExtRat) (a : Option (Realization Rat ExtRat)) : Prop :=
  Separated s tolerance drawn (fun t v => row.HoldsWithin t (candidateLookup x).number v) a

/-- **Asking an oracle to separate a candidate.** -/
theorem ensures_separate (tolerance : Option Rat) (o : OracleId) (row : MixedRow Rat ExtRat) (x : Option (List Rat))
    (hP : ∀ os, P os → ∃ a, os[o]? = some a ∧ a.Prepared s tolerance drawn true) :
    Ensures (SolverResults.Draws s drawn) (separate o row x) P fun a os => P os ∧ Found s tolerance drawn x row a := by
  unfold separate
  refine .quiet_bind (quiet_ask _) fun _ => .bind (ensures_oracleOf o) fun oracle => ?_
  split
  next set =>
    refine .pure ?_
    rintro os ⟨hos, ho⟩
    obtain ⟨a, ha, hprepared⟩ := hP os hos
    cases ho.symm.trans ha
    cases hprepared.1
  next preferred sep =>
    refine (ensures_separateBy tolerance row (candidateLookup x)).mono (fun _ h => h) ?_
    rintro a os ⟨⟨hos, ho⟩, hfound⟩
    obtain ⟨a, ha, hprepared⟩ := hP os hos
    cases ho.symm.trans ha
    exact ⟨hos, hfound hprepared.2⟩
  next r =>
    refine (ensures_replaySeparation o r row).mono ?_ fun _ _ h => h
    rintro os ⟨hos, ho⟩
    obtain ⟨a, ha, hprepared⟩ := hP os hos
    cases ho.symm.trans ha
    exact hprepared

theorem ensures_allow (o : OracleId) (allowance : Option (TimeAllowance Rat)) : Ensures right (allow o allowance)
    (fun os => ∀ x, os[o]? = some x → P (os.set o (x.allow allowance))) fun _ => P := by
  unfold allow
  refine .bind (ensures_oracleOf o) fun x => ?_
  refine (ensures_setOracle (P := P) o _).mono ?_ fun _ _ hP => hP
  rintro os ⟨hP, hx⟩
  exact hP x hx

end Run

end RobustLP
