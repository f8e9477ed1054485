import RobustLP.Proofs.Solve.Stages

/-!
# The rounds of a solve

A loop goes through a list of rounds (`Course`): each of them solves the program of the state, and what was found is added to it
before the next one begins. `chronicle` is the loop together with the rounds that it made; that these are a course, and that the
answers of the solver and of the oracles in them are as they have to be, is the one fact about runs of the loop on which
everything else rests (`ensures_chronicle`).
-/

namespace RobustLP

open ExtRat UncertaintySet Run

/-! ## Rounds -/

namespace Round

/-- The rows that were found violated in a round, with the realizations. -/
def finds {K B : Type} (rows : List (MixedRow K B)) (r : Round K B) : List (MixedRow K B × Realization K B) :=
  match r.found with
  | some found => SolveLoop.violated rows found
  | none => []

variable (rows : List (MixedRow Rat ExtRat)) (r : Round Rat ExtRat)

/-- **The answers of a round are as they have to be:** that of the solver, and what the separation of each row found. Only
optimal answers are separated. -/
structure Proper (right : LinearProgram Rat ExtRat → SolverResults Rat → Prop)
    (S : Option (List Rat) → MixedRow Rat ExtRat → Option (Realization Rat ExtRat) → Prop) : Prop where
  answer : right r.program r.answer
  found : ∀ found, r.found = some found → List.Forall₂ (S r.answer.point) rows found
  optimal : ∀ found, r.found = some found → Outcome.ofTermination r.answer.termination = .optimal

end Round

namespace SolveLoop

variable {right : LinearProgram Rat ExtRat → SolverResults Rat → Prop} {P : Condition} {α : Type}
  {m : Run Rat ExtRat α} {Q : α → Condition} {options : LoopOptions Rat} {rows : List (MixedRow Rat ExtRat)}

/-! ## Courses -/

/-- What follows after the finds of a round were added: the loop ends if there are none, or because of a limit, or it goes on. -/
inductive Concluded (options : LoopOptions Rat) (vs : List (MixedRow Rat ExtRat × Realization Rat ExtRat))
    (answer : SolverResults Rat) (l : LoopState Rat ExtRat) : Option (LoopEnd Rat ExtRat) → Prop where
  | confirmed (h : vs = []) :
      Concluded options vs answer l (some { outcome := .optimal, last := answer, final := some (answer.point, answer) })
  | limited (h : vs ≠ []) (n : Int) (hn : options.maxIterations = some n) (hspent : n ≠ -1 ∧ n ≤ l.iterations) :
      Concluded options vs answer l (some (endWithBest .maxIter answer l))
  | late (h : vs ≠ []) (hlimit : options.timeLimit ≠ none) :
      Concluded options vs answer l (some (endWithBest .timeOut answer l))
  | open (h : vs ≠ []) (hleft : ∀ n, options.maxIterations = some n → n = -1 ∨ (l.iterations : Int) < n) :
      Concluded options vs answer l none

/-- The state after the finds of a round were added. -/
structure Cut (vs : List (MixedRow Rat ExtRat × Realization Rat ExtRat)) (l l' : LoopState Rat ExtRat) : Prop where
  iterations : l'.iterations = l.iterations
  best : l'.best = l.best
  cuts : l'.cuts = vs.foldl (fun t v => t.record v.1.source v.2) l.cuts
  program : l.program.rows.Aligned →
    l.program.Adds True (fun x => ∀ v ∈ vs, v.1.Holds x (entries v.2.point)) l'.program

/-- **What follows from a round** for the state, in which it is already counted. -/
inductive Judged (options : LoopOptions Rat) (rows : List (MixedRow Rat ExtRat)) (r : Round Rat ExtRat)
    (l : LoopState Rat ExtRat) : LoopState Rat ExtRat → Option (LoopEnd Rat ExtRat) → Prop where
  /-- the answer is not optimal -/
  | failed (h : Outcome.ofTermination r.answer.termination ≠ .optimal) :
      Judged options rows r l l (some (if Outcome.ofTermination r.answer.termination = .timeOut && l.best.isSome
        then endWithBest .timeOut r.answer l
        else { outcome := Outcome.ofTermination r.answer.termination, last := r.answer, final := none }))
  /-- not all rows were separated -/
  | stopped (h : Outcome.ofTermination r.answer.termination = .optimal) (hfound : r.found = none) :
      Judged options rows r l l (some { outcome := .timeOut, last := r.answer, final := some (bestOr r.answer l) })
  /-- no row is to be separated -/
  | certain (h : Outcome.ofTermination r.answer.termination = .optimal) (hrows : rows = [])
      (found : List (Option (Realization Rat ExtRat))) (hfound : r.found = some found) :
      Judged options rows r l l
        (some { outcome := .optimal, last := r.answer, final := some (r.answer.point, r.answer) })
  /-- all rows were separated -/
  | completed (h : Outcome.ofTermination r.answer.termination = .optimal)
      (found : List (Option (Realization Rat ExtRat))) (hfound : r.found = some found) (l' : LoopState Rat ExtRat)
      (hcut : Cut (violated rows found) { l with best := some (better l.best
        { violation := largestViolation (violated rows found), point := r.answer.point, results := r.answer }) } l')
      (ending : Option (LoopEnd Rat ExtRat)) (hending : Concluded options (violated rows found) r.answer l' ending) :
      Judged options rows r l l' ending

/-- The loop only goes on after all rows were separated. -/
theorem Judged.exists_found {r : Round Rat ExtRat} {l l' : LoopState Rat ExtRat} (h : Judged options rows r l l' none) :
    ∃ found, r.found = some found := by
  cases h with
  | completed _ found hfound => exact ⟨found, hfound⟩

/-- One round: the program of the state is solved, and the state `l` becomes `l'`. -/
structure Step (options : LoopOptions Rat) (rows : List (MixedRow Rat ExtRat)) (l : LoopState Rat ExtRat)
    (r : Round Rat ExtRat) (l' : LoopState Rat ExtRat) (ending : Option (LoopEnd Rat ExtRat)) : Prop where
  program : r.program = l.program
  judged : ∃ timing, Judged options rows r { l with iterations := l.iterations + 1, timing } l' ending

/-- **The course of a loop:** the rounds that lead from one state to another one, and how the loop ended; it did not if it was
given too few rounds. -/
inductive Course (options : LoopOptions Rat) (rows : List (MixedRow Rat ExtRat)) :
    LoopState Rat ExtRat → List (Round Rat ExtRat) → LoopState Rat ExtRat → Option (LoopEnd Rat ExtRat) → Prop where
  | spent (l : LoopState Rat ExtRat) : Course options rows l [] l none
  | ends {l l' : LoopState Rat ExtRat} {r : Round Rat ExtRat} {e : LoopEnd Rat ExtRat}
      (h : Step options rows l r l' (some e)) : Course options rows l [r] l' (some e)
  | goes {l l₁ l' : LoopState Rat ExtRat} {r : Round Rat ExtRat} {rs : List (Round Rat ExtRat)}
      {ending : Option (LoopEnd Rat ExtRat)} (h : Step options rows l r l₁ none)
      (hrest : Course options rows l₁ rs l' ending) : Course options rows l (r :: rs) l' ending

/-! ## Steps around a run -/

theorem ensures_timed (stage : Stage) (t : TimerTree Rat) (h : Ensures right m P Q) :
    Ensures right (timed stage t m) P fun a os => Q a.1 os := by
  refine .quiet_bind quiet_now fun now => .bind h fun a => .quiet_bind quiet_now fun now' => ?_
  exact .bind (.lift fun _ _ _ hQ => hQ) fun t => .pure fun _ hQ => hQ

theorem ensures_attempt (h : Ensures right m P Q) :
    Ensures right (attempt m) P fun r os => ∀ a, r = .ok a → Q a os := by
  intro env
  refine ⟨(h env).1, fun r env' hrun hP ht a hr => ?_⟩
  have hm : m.run env = (r, env') := by
    cases hrun
    rfl
  rw [hr] at hm
  exact (h env).2 a env' hm hP ht

theorem quiet_elapsed (t : TimerTree Rat) : Quiet (elapsed t : Run Rat ExtRat Rat) := .bind quiet_now fun _ => .lift _

theorem quiet_remaining (options : LoopOptions Rat) (t : TimerTree Rat) :
    Quiet (remaining options t : Run Rat ExtRat _) := .bind quiet_now fun _ => .lift _

theorem quiet_logRound [Written Rat] [Written ExtRat] (l : LoopState Rat ExtRat) (objective : Option Rat)
    (cuts violated : Option Nat) (violation : Option ExtRat) : Quiet (logRound l objective cuts violated violation) :=
  .bind (quiet_elapsed _) fun _ => quiet_progress _

/-- A loop whose time is up has a limit on its time. -/
theorem ensures_outOfTime (t : TimerTree Rat) : Ensures right (outOfTime options t : Run Rat ExtRat Bool) P
    fun late os => P os ∧ (late = true → options.timeLimit ≠ none) := by
  unfold outOfTime
  split
  next => exact .pure fun os hP => ⟨hP, nofun⟩
  next limit hlimit =>
    refine .quiet_bind (quiet_elapsed t) fun _ => .pure fun os hP => ⟨hP, fun _ hnone => ?_⟩
    rw [hlimit] at hnone
    cases hnone

theorem ensures_roundsSpent (l : LoopState Rat ExtRat) : Ensures right (roundsSpent options l) P
    fun spent os => P os ∧ ∃ n, options.maxIterations = some n ∧ (spent = true ↔ n ≠ -1 ∧ n ≤ l.iterations) := by
  unfold roundsSpent
  split
  next => exact .throw _
  next n hn => exact .pure fun os hP => ⟨hP, n, hn, by simp⟩

/-! ## Separation -/

/-- **Oracles of which something is known:** `S` of what the separation of each row finds, as long as `P` is true of them. -/
structure Separable (right : LinearProgram Rat ExtRat → SolverResults Rat → Prop) (P : Condition)
    (S : Option (List Rat) → MixedRow Rat ExtRat → Option (Realization Rat ExtRat) → Prop)
    (rows : List (MixedRow Rat ExtRat)) : Prop where
  separate : ∀ x, ∀ row ∈ rows, Ensures right (separateRow x row) P fun a os => P os ∧ S x row a
  allow : ∀ o allowance, Ensures right (Run.allow o allowance) P fun _ => P

variable {S : Option (List Rat) → MixedRow Rat ExtRat → Option (Realization Rat ExtRat) → Prop}

/-- Trying a step on every entry: if all of them succeed, they achieve what each of them does. -/
theorem ensures_mapM_attempt {γ : Type} {f : γ → Run Rat ExtRat α} {T : γ → α → Prop} :
    ∀ {cs : List γ}, (∀ c ∈ cs, Ensures right (f c) P fun a os => P os ∧ T c a) →
      Ensures right (cs.mapM fun c => attempt (f c)) P fun rs os =>
        ∀ as : List α, rs = as.map .ok → P os ∧ List.Forall₂ T cs as
  | [], _ => by
    refine .pure fun os hP as has => ⟨hP, ?_⟩
    rw [List.map_eq_nil_iff.mp has.symm]
    exact .nil
  | c :: cs, h => by
    rw [List.mapM_cons]
    refine .bind (ensures_attempt (h c List.mem_cons_self)) fun r => ?_
    have ih := ensures_mapM_attempt fun c' hc' => h c' (List.mem_cons_of_mem _ hc')
    cases r with
    | error err =>
      -- after a failure nothing is claimed
      refine .bind (ih.of_forall fun _ _ => (trivial : True)) fun rs => .pure fun os _ as has => ?_
      cases as with
      | nil => cases has
      | cons a as => cases (List.cons_eq_cons.mp has).1
    | ok a =>
      refine .bind ((ih.keep (p := T c a)).mono (fun os hQ => hQ a rfl) fun _ _ h => h) fun rs => .pure ?_
      rintro os ⟨hall, hT⟩ as has
      cases as with
      | nil => cases has
      | cons a' as =>
        obtain ⟨ha, hrs⟩ := List.cons_eq_cons.mp has
        cases ha
        obtain ⟨hP, hforall⟩ := hall as hrs
        exact ⟨hP, .cons hT hforall⟩

theorem ensures_separateTogether (h : Separable right P S rows) (x : Option (List Rat)) :
    Ensures right (separateTogether x rows) P fun found os => P os ∧ List.Forall₂ (S x) rows found := by
  unfold separateTogether
  refine .bind (ensures_mapM_attempt (h.separate x)) fun rs => ?_
  refine (Ensures.mapM (S := fun r a => r = .ok a) fun r _ => .lift fun a os hr hP => ⟨hP, hr⟩).mono (fun _ h => h) ?_
  rintro found os ⟨hall, hfound⟩
  refine hall found ?_
  rw [← List.forall₂_map_right_iff, List.forall₂_eq_eq_eq] at hfound
  exact hfound

/-- **Separating all rows,** one after the other or together. -/
theorem ensures_separateAll (h : Separable right P S rows) (workers : Option Int) (x : Option (List Rat)) :
    Ensures right (separateAll workers x rows) P fun found os => P os ∧ List.Forall₂ (S x) rows found := by
  unfold separateAll
  split
  next => exact .throw _
  next n => exact .ite (ensures_separateTogether h x) (.mapM (h.separate x))

/-- A separation that ran out of time is no answer; other failures are those of the solve. -/
theorem ensures_separation [Written Rat] (h : Separable right P S rows) (x : Option (List Rat)) (t : TimerTree Rat) :
    Ensures right (separation options rows x t) P
      fun a os => ∀ found, a.1 = some found → P os ∧ List.Forall₂ (S x) rows found := by
  unfold separation
  refine .bind (ensures_timed .separation t (ensures_attempt (ensures_separateAll h options.workers x))) fun (r, t) => ?_
  dsimp only
  split
  next found => exact .pure fun os hfound found' hsome => hfound found' (congrArg Except.ok (Option.some.inj hsome))
  next err => exact .ite (.quiet_bind (quiet_detail _ _) fun _ => .pure fun os _ => nofun) (.throw _)

theorem ensures_examine [Written Rat] (h : Separable right P S rows) (x : Option (List Rat)) (t : TimerTree Rat) :
    Ensures right (examine options rows x t) P
      fun a os => ∀ found, a.1 = some found → P os ∧ List.Forall₂ (S x) rows found := by
  unfold examine
  split
  next hempty =>
    refine .pure fun os hP found hfound => ⟨hP, ?_⟩
    cases hfound
    rw [List.isEmpty_iff.mp hempty]
    exact .nil
  next =>
    refine .quiet_bind (quiet_remaining _ _) fun left => .ite ?_ (.pure fun os _ => nofun)
    exact .bind (Ensures.forM (I := fun _ => P) (fun o _ => h.allow o _) _) fun _ => ensures_separation h x t

/-- **The solver and the oracles are consulted.** -/
theorem ensures_consult [Written Rat] (h : Separable right P S rows) (p : LinearProgram Rat ExtRat) (t : TimerTree Rat) :
    Ensures right (consult options rows p t) P fun a os =>
      a.1.program = p ∧ a.1.Proper rows right S ∧ ((∃ found, a.1.found = some found) → P os) := by
  unfold consult
  refine .quiet_bind (quiet_remaining _ _) fun left => ?_
  refine .bind (ensures_timed .solve t (ensures_solve _ _ p)) fun (answer, t) => ?_
  dsimp only
  split
  next hoptimal =>
    refine .bind (ensures_examine h answer.point t).keep fun (found, t) => .pure ?_
    rintro os ⟨hfound, hanswer⟩
    exact ⟨rfl, ⟨hanswer, fun found' hsome => (hfound found' hsome).2, fun _ _ => hoptimal⟩,
      fun ⟨found', hsome⟩ => (hfound found' hsome).1⟩
  next => exact .pure fun os hP => ⟨rfl, ⟨hP.2, nofun, nofun⟩, nofun⟩

/-! ## Conclusions -/

theorem cut_addCuts : ∀ {vs : List (MixedRow Rat ExtRat × Realization Rat ExtRat)} {l l' : LoopState Rat ExtRat},
    vs.foldlM (fun l v => addCut l v.1 v.2) l = .ok l' → Cut vs l l'
  | [], l, l', h => by
    cases h
    exact ⟨rfl, rfl, rfl, fun h => .refl h fun x v hv => absurd hv List.not_mem_nil⟩
  | v :: vs, l, l', h => by
    rw [List.foldlM_cons] at h
    obtain ⟨l₁, hcut, hrest⟩ := bind_eq_ok.mp h
    have htail := cut_addCuts hrest
    unfold addCut at hcut
    split at hcut
    next i p hrun =>
      cases hcut
      refine ⟨htail.iterations, htail.best, htail.cuts, fun haligned => ?_⟩
      obtain ⟨-, hhead⟩ := LinearProgram.adds_addCutTo haligned hrun
      rw [number_ofList] at hhead
      exact (hhead.trans (htail.program hhead.aligned)).congr (fun _ => ⟨trivial, trivial⟩)
        (fun x hx => List.forall_mem_cons.mpr hx) fun _ x hx => List.forall_mem_cons.mp hx
    next => cases hcut

variable [Written Rat] [Written ExtRat]

/-- **After all rows were separated.** -/
theorem ensures_conclude {r : Round Rat ExtRat} {found : List (Option (Realization Rat ExtRat))} {l : LoopState Rat ExtRat}
    (h : Outcome.ofTermination r.answer.termination = .optimal) (hfound : r.found = some found) :
    Ensures right (conclude options rows r.answer found l) P fun a os => P os ∧ Judged options rows r l a.1 a.2 := by
  unfold conclude
  dsimp only
  refine .bind (Q := fun l' os => P os ∧ Cut (violated rows found) { l with best := some (better l.best
    { violation := largestViolation (violated rows found), point := r.answer.point, results := r.answer }) } l')
    (.lift fun l' os hcuts hP => ⟨hP, cut_addCuts hcuts⟩) fun l' => ?_
  refine .quiet_bind (quiet_logRound _ _ _ _ _) fun _ => ?_
  split
  next hempty =>
    exact .pure fun os hP => ⟨hP.1, .completed h found hfound l' hP.2 _ (.confirmed (List.isEmpty_iff.mp hempty))⟩
  next hsome =>
    have hne : violated rows found ≠ [] := fun hnil => hsome (List.isEmpty_iff.mpr hnil)
    refine .bind (ensures_roundsSpent l') fun spent => ?_
    split
    next hspent =>
      refine .pure ?_
      rintro os ⟨⟨hP, hcut⟩, n, hn, hiff⟩
      exact ⟨hP, .completed h found hfound l' hcut _ (.limited hne n hn (hiff.mp hspent))⟩
    next hspent =>
      refine .bind (ensures_outOfTime l'.timing) fun late => ?_
      split
      next hlate =>
        refine .pure ?_
        rintro os ⟨⟨⟨hP, hcut⟩, -⟩, hlimit⟩
        exact ⟨hP, .completed h found hfound l' hcut _ (.late hne (hlimit hlate))⟩
      next =>
        refine .pure ?_
        rintro os ⟨⟨⟨hP, hcut⟩, n, hn, hiff⟩, -⟩
        refine ⟨hP, .completed h found hfound l' hcut _ (.open hne fun n' hn' => ?_)⟩
        cases hn.symm.trans hn'
        exact or_iff_not_imp_left.mpr fun hn1 => not_le.mp fun hle => hspent (hiff.mpr ⟨hn1, hle⟩)

/-- **The conclusions of a round.** -/
theorem ensures_judge (r : Round Rat ExtRat) (l : LoopState Rat ExtRat) :
    Ensures right (judge options rows r l) P fun a os => P os ∧ Judged options rows r l a.1 a.2 := by
  unfold judge
  dsimp only
  split
  next hoptimal =>
    split
    next hnone =>
      exact .quiet_bind (quiet_logRound _ _ _ _ _) fun _ => .pure fun os hP => ⟨hP, .stopped hoptimal hnone⟩
    next found hfound =>
      split
      next hempty =>
        exact .quiet_bind (quiet_logRound _ _ _ _ _) fun _ =>
          .pure fun os hP => ⟨hP, .certain hoptimal (List.isEmpty_iff.mp hempty) found hfound⟩
      next => exact ensures_conclude hoptimal hfound
  next outcome hne =>
    have hjudged : Judged options rows r l l _ := .failed hne
    refine .quiet_bind (quiet_logRound _ _ _ _ _) fun _ => ?_
    split
    next hbest =>
      rw [if_pos hbest] at hjudged
      exact .pure fun os hP => ⟨hP, hjudged⟩
    next hbest =>
      rw [if_neg hbest] at hjudged
      exact .pure fun os hP => ⟨hP, hjudged⟩

/-! ## The loop -/

/-- **The loop together with the rounds that it made.** -/
def chronicle (options : LoopOptions Rat) (rows : List (MixedRow Rat ExtRat)) : Nat → LoopState Rat ExtRat →
    Run Rat ExtRat (List (Round Rat ExtRat) × LoopState Rat ExtRat × Option (LoopEnd Rat ExtRat))
  | 0, l => return ([], l, none)
  | n + 1, l => do
    let (r, timing) ← consult options rows l.program l.timing
    let (l, ending) ← judge options rows r { l with iterations := l.iterations + 1, timing }
    match ending with
    | some e => return ([r], l, some e)
    | none =>
      let (rs, l, ending) ← chronicle options rows n l
      return (r :: rs, l, ending)

/-- Recording the rounds changes nothing. -/
theorem rounds_eq_chronicle (n : Nat) : ∀ l : LoopState Rat ExtRat,
    rounds options rows n l = (·.2) <$> chronicle options rows n l := by
  induction n with
  | zero => exact fun l => rfl
  | succ n ih =>
    intro l
    rw [rounds, chronicle, round, bind_assoc, map_bind]
    congr 1
    funext a
    rw [map_bind]
    congr 1
    funext b
    obtain ⟨l', ending⟩ := b
    cases ending with
    | some e => rfl
    | none =>
      dsimp only
      rw [ih, map_bind, map_eq_pure_bind]
      rfl

/-- **The rounds of a loop are a course,** and their answers are as they have to be. -/
theorem ensures_chronicle (h : Separable right P S rows) : ∀ (n : Nat) (l : LoopState Rat ExtRat),
    Ensures right (chronicle options rows n l) P fun a _ => Course options rows l a.1 a.2.1 a.2.2
      ∧ (a.2.2 = none → a.1.length = n) ∧ ∀ r ∈ a.1, r.Proper rows right S
  | 0, l => .pure fun os _ => ⟨.spent l, fun _ => rfl, fun r hr => absurd hr List.not_mem_nil⟩
  | n + 1, l => by
    rw [chronicle]
    refine .bind (ensures_consult h l.program l.timing) fun (r, timing) => ?_
    refine .bind (ensures_judge r _) fun (l₁, ending) => ?_
    cases ending with
    | some e =>
      refine .pure ?_
      rintro os ⟨⟨hprogram, hproper, -⟩, hjudged⟩
      exact ⟨.ends ⟨hprogram, timing, hjudged⟩, nofun, List.forall_mem_singleton.mpr hproper⟩
    | none =>
      refine .bind (((ensures_chronicle h n l₁).keep (p := Step options rows l r l₁ none ∧ r.Proper rows right S)).mono ?_
        fun _ _ h => h) fun (rs, l', ending) => .pure ?_
      · rintro os ⟨⟨hprogram, hproper, hready⟩, hjudged⟩
        exact ⟨hready hjudged.exists_found, ⟨hprogram, timing, hjudged⟩, hproper⟩
      · rintro os ⟨⟨hcourse, hlength, hall⟩, hstep, hproper⟩
        exact ⟨.goes hstep hcourse, fun hnone => congrArg (· + 1) (hlength hnone), List.forall_mem_cons.mpr ⟨hproper, hall⟩⟩

end SolveLoop

end RobustLP
