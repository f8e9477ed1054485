import RobustLP.Proofs.Solve.Course

/-!
# How a loop ends

Whatever the solver, the oracles and the clock answer, a loop makes as many rounds as it counts, and not more than its limit. It
ends as optimal only if the last answer was optimal and no row was violated there; when it ran into a limit, it answers the
candidate with the least violation, the earliest one of these (`run_ends`).
-/

namespace RobustLP

open ExtRat UncertaintySet Run

/-! ## The best candidate -/

/-- The candidate of a round in which all rows were separated. -/
def Round.candidate? (rows : List (MixedRow Rat ExtRat)) (r : Round Rat ExtRat) : Option (Candidate Rat ExtRat) :=
  r.found.map fun found =>
    { violation := SolveLoop.largestViolation (SolveLoop.violated rows found), point := r.answer.point, results := r.answer }

/-- The candidates of the rounds in which all rows were separated. -/
def SolveLoop.candidates (rows : List (MixedRow Rat ExtRat)) (rs : List (Round Rat ExtRat)) : List (Candidate Rat ExtRat) :=
  rs.filterMap (Round.candidate? rows)

/-- **The earliest candidate with the least violation.** -/
def Candidate.Leads (cs : List (Candidate Rat ExtRat)) (c : Candidate Rat ExtRat) : Prop :=
  ∃ before after, cs = before ++ c :: after ∧ (∀ d ∈ before, lt c.violation d.violation = true)
    ∧ ∀ d ∈ after, le c.violation d.violation = true

namespace SolveLoop

/-- The candidate that is kept of some candidates. -/
def leader (cs : List (Candidate Rat ExtRat)) : Option (Candidate Rat ExtRat) :=
  cs.foldl (fun best c => some (better best c)) none

theorem leader_append (cs : List (Candidate Rat ExtRat)) (c : Candidate Rat ExtRat) :
    leader (cs ++ [c]) = some (better (leader cs) c) := by
  rw [leader, List.foldl_append]
  rfl

theorem leader_eq_none_iff {cs : List (Candidate Rat ExtRat)} : leader cs = none ↔ cs = [] := by
  rcases List.eq_nil_or_concat cs with rfl | ⟨cs, c, rfl⟩
  · exact iff_of_true rfl rfl
  · rw [List.concat_eq_append, leader_append]
    exact iff_of_false nofun (List.append_ne_nil_of_right_ne_nil cs nofun)

/-- **The candidate that is kept** is the earliest one with the least violation. -/
theorem leads_of_leader {cs : List (Candidate Rat ExtRat)} : ∀ {c}, leader cs = some c → c.Leads cs := by
  induction cs using List.reverseRecOn with
  | nil => exact nofun
  | append_singleton cs d ih =>
    intro c hc
    rw [leader_append] at hc
    obtain rfl := Option.some.inj hc
    cases hlead : leader cs with
    | none =>
      rw [leader_eq_none_iff.mp hlead]
      exact ⟨[], [], rfl, fun e he => absurd he List.not_mem_nil, fun e he => absurd he List.not_mem_nil⟩
    | some b =>
      obtain ⟨before, after, rfl, hbefore, hafter⟩ := ih hlead
      unfold better
      dsimp only
      split
      next hlt =>
        refine ⟨before ++ b :: after, [], rfl, List.forall_mem_append.mpr ⟨fun e he => ?_, ?_⟩,
          fun e he => absurd he List.not_mem_nil⟩
        · exact ExtRat.lt_trans hlt (hbefore e he)
        · exact List.forall_mem_cons.mpr ⟨hlt, fun e he => ExtRat.lt_of_lt_of_le hlt (hafter e he)⟩
      next hnot =>
        refine ⟨before, after ++ [d], by rw [List.append_assoc]; rfl, hbefore, List.forall_mem_append.mpr ⟨hafter, ?_⟩⟩
        exact List.forall_mem_singleton.mpr (le_iff_not_lt.mpr hnot)

end SolveLoop

/-! ## The end -/

/-- **How a loop ends** after some rounds, `r` being the last one of them. -/
structure LoopEnd.Follows (rows : List (MixedRow Rat ExtRat)) (cs : List (Candidate Rat ExtRat)) (r : Round Rat ExtRat)
    (e : LoopEnd Rat ExtRat) : Prop where
  last : e.last = r.answer
  /-- an optimal end has an optimal answer at which no row was violated -/
  optimal : e.outcome = .optimal → r.answer.termination = .optimal ∧ r.found = some (rows.map fun _ => none)
    ∧ e.final = some (r.answer.point, r.answer)
  /-- at a limit, the best candidate is answered -/
  best : (e.outcome = .maxIter ∨ e.outcome = .timeOut ∧ cs ≠ []) →
    ∃ c : Candidate Rat ExtRat, c.Leads cs ∧ e.final = some (c.point, c.results)
  /-- without candidates, this is the last answer if it is optimal -/
  stopped : e.outcome = .timeOut → cs = [] →
    e.final = if r.answer.termination = .optimal then some (r.answer.point, r.answer) else none
  /-- an answer that is not optimal ends the loop with its own outcome, and without a point unless it is for lack of time -/
  failed : r.answer.termination ≠ .optimal → e.outcome = Outcome.ofTermination r.answer.termination
    ∧ (e.outcome ≠ .timeOut → e.final = none)
  /-- an optimal answer ends the loop as optimal or at a limit -/
  settled : r.answer.termination = .optimal → e.outcome = .optimal ∨ e.outcome = .maxIter ∨ e.outcome = .timeOut

/-- A termination stands for an optimal outcome only if it is optimal. -/
theorem Outcome.ofTermination_eq_optimal {t : Termination} : Outcome.ofTermination t = .optimal ↔ t = .optimal := by
  cases t <;> simp [Outcome.ofTermination]

theorem Outcome.ofTermination_eq_infeasible {t : Termination} : Outcome.ofTermination t = .infeasible ↔ t = .infeasible := by
  cases t <;> simp [Outcome.ofTermination]

theorem Outcome.ofTermination_eq_unbounded {t : Termination} : Outcome.ofTermination t = .unbounded ↔ t = .unbounded := by
  cases t <;> simp [Outcome.ofTermination]

/-- An end that is neither optimal nor at a limit has the outcome of the last answer. -/
theorem LoopEnd.Follows.outcome_eq {rows : List (MixedRow Rat ExtRat)} {cs : List (Candidate Rat ExtRat)}
    {r : Round Rat ExtRat} {e : LoopEnd Rat ExtRat} (h : e.Follows rows cs r)
    (hne : ¬(e.outcome = .optimal ∨ e.outcome = .maxIter ∨ e.outcome = .timeOut)) :
    e.outcome = Outcome.ofTermination r.answer.termination :=
  (h.failed fun hoptimal => hne (h.settled hoptimal)).1

/-- The limit on rounds is no outcome of a solver. -/
theorem Outcome.ofTermination_ne_maxIter (t : Termination) : Outcome.ofTermination t ≠ .maxIter := by
  cases t <;> simp [Outcome.ofTermination]

namespace SolveLoop

variable {right : LinearProgram Rat ExtRat → SolverResults Rat → Prop} {options : LoopOptions Rat}
  {rows : List (MixedRow Rat ExtRat)} {S : Option (List Rat) → MixedRow Rat ExtRat → Option (Realization Rat ExtRat) → Prop}
  {l l' : LoopState Rat ExtRat} {r : Round Rat ExtRat} {rs : List (Round Rat ExtRat)} {e : LoopEnd Rat ExtRat}
  {cs : List (Candidate Rat ExtRat)}

/-- Where no row was violated, nothing was found for each of them. -/
theorem eq_of_violated_eq_nil : ∀ {rows : List (MixedRow Rat ExtRat)} {found : List (Option (Realization Rat ExtRat))},
    rows.length = found.length → violated rows found = [] → found = rows.map fun _ => none
  | [], [], _, _ => rfl
  | _ :: _, none :: _, hlength, h =>
    congrArg (none :: ·) (eq_of_violated_eq_nil (Nat.succ.inj hlength) h)
  | _ :: _, some _ :: _, _, h => absurd h (List.cons_ne_nil _ _)

/-- A round that is not separated has no candidate. -/
theorem candidates_of_not_found (h : r.found = none) : candidates rows [r] = [] := by
  rw [candidates, List.filterMap_cons_none]
  · rfl
  · rw [Round.candidate?, h]
    rfl

theorem candidates_of_found {found : List (Option (Realization Rat ExtRat))} (h : r.found = some found) :
    candidates rows [r] =
      [{ violation := largestViolation (violated rows found), point := r.answer.point, results := r.answer }] := by
  rw [candidates, List.filterMap_cons_some]
  · rfl
  · rw [Round.candidate?, h]
    rfl

/-- The best candidate is kept. -/
theorem Step.best (h : Step options rows l r l' none) (hbest : l.best = leader cs) :
    l'.best = leader (cs ++ candidates rows [r]) := by
  obtain ⟨timing, hjudged⟩ := h.judged
  cases hjudged with
  | completed _ found hfound l' hcut =>
    rw [candidates_of_found hfound, leader_append, hcut.best, ← hbest]

/-- Where there are candidates, the best one is kept. -/
theorem exists_leader (hbest : l.best = leader cs) (hne : cs ≠ []) : ∃ c : Candidate Rat ExtRat, l.best = some c ∧ c.Leads cs := by
  obtain ⟨c, hc⟩ := Option.ne_none_iff_exists'.mp (mt leader_eq_none_iff.mp hne)
  exact ⟨c, hbest.trans hc, leads_of_leader hc⟩

/-- An answer that is not optimal ends the loop, if it was not for lack of time, or there are no candidates. -/
theorem follows_failed (h : r.answer.termination ≠ .optimal)
    (hcs : Outcome.ofTermination r.answer.termination = .timeOut → cs = []) : LoopEnd.Follows rows cs r
      { outcome := Outcome.ofTermination r.answer.termination, last := r.answer, final := none } where
  last := rfl
  optimal hoptimal := absurd (Outcome.ofTermination_eq_optimal.mp hoptimal) h
  best hlimit := by
    rcases hlimit with hmax | ⟨htime, hne⟩
    · exact absurd hmax (Outcome.ofTermination_ne_maxIter _)
    · exact absurd (hcs htime) hne
  stopped _ _ := (if_neg h).symm
  failed _ := ⟨rfl, fun _ => rfl⟩
  settled hoptimal := absurd hoptimal h

/-- A loop that ran into a limit answers the best candidate. -/
theorem follows_endWithBest {outcome : Outcome} (hlimit : outcome = .maxIter ∨ outcome = .timeOut) (hbest : l.best = leader cs)
    (hne : cs ≠ []) (hfailed : r.answer.termination ≠ .optimal → outcome = Outcome.ofTermination r.answer.termination) :
    (endWithBest outcome r.answer l).Follows rows cs r where
  last := rfl
  optimal hoptimal := by
    cases hoptimal
    rcases hlimit with hmax | htime
    · cases hmax
    · cases htime
  best _ := by
    obtain ⟨c, hc, hleads⟩ := exists_leader hbest hne
    exact ⟨c, hleads, congrArg (Option.map _) hc⟩
  stopped _ hnil := absurd hnil hne
  failed hnot := by
    refine ⟨hfailed hnot, fun hno => absurd (hlimit.resolve_left fun hmax => ?_) hno⟩
    exact Outcome.ofTermination_ne_maxIter _ ((hfailed hnot).symm.trans hmax)
  settled _ := .inr hlimit

/-- A loop that was stopped within a round answers the best candidate, and without one the last answer. -/
theorem follows_stopped (h : r.answer.termination = .optimal) (hbest : l.best = leader cs) : LoopEnd.Follows rows cs r
    { outcome := .timeOut, last := r.answer, final := some (bestOr r.answer l) } where
  last := rfl
  optimal := nofun
  best hlimit := by
    rcases hlimit with hmax | ⟨-, hne⟩
    · cases hmax
    · obtain ⟨c, hc, hleads⟩ := exists_leader hbest hne
      exact ⟨c, hleads, by rw [bestOr, hc]⟩
  stopped _ hnil := by rw [bestOr, hbest, leader_eq_none_iff.mpr hnil, if_pos h]
  failed hnot := absurd h hnot
  settled _ := .inr (.inr rfl)

/-- A loop that found nothing violated ends as optimal. -/
theorem follows_confirmed (h : r.answer.termination = .optimal) (hfound : r.found = some (rows.map fun _ => none)) :
    LoopEnd.Follows rows cs r { outcome := .optimal, last := r.answer, final := some (r.answer.point, r.answer) } where
  last := rfl
  optimal _ := ⟨h, hfound, rfl⟩
  best hlimit := by
    rcases hlimit with hmax | ⟨htime, -⟩
    · cases hmax
    · cases htime
  stopped := nofun
  failed hnot := absurd h hnot
  settled _ := .inl rfl

/-- **The last round decides how the loop ends.** -/
theorem Step.follows (h : Step options rows l r l' (some e)) (hproper : r.Proper rows right S) (hbest : l.best = leader cs) :
    e.Follows rows (cs ++ candidates rows [r]) r := by
  obtain ⟨timing, hjudged⟩ := h.judged
  cases hjudged with
  | failed hnot =>
    have hnone : r.found = none := Option.eq_none_iff_forall_ne_some.mpr fun found hfound => hnot (hproper.optimal found hfound)
    rw [candidates_of_not_found hnone, List.append_nil]
    split
    next hlate =>
      obtain ⟨htime, hsome⟩ := Bool.and_eq_true_iff.mp hlate
      refine follows_endWithBest (.inr rfl) hbest (fun hnil => ?_) fun _ => (of_decide_eq_true htime).symm
      rw [hbest, leader_eq_none_iff.mpr hnil] at hsome
      cases hsome
    next hlate =>
      refine follows_failed (mt Outcome.ofTermination_eq_optimal.mpr hnot) fun htime => ?_
      refine leader_eq_none_iff.mp (hbest.symm.trans (Option.not_isSome_iff_eq_none.mp fun hsome => hlate ?_))
      exact Bool.and_eq_true_iff.mpr ⟨decide_eq_true htime, hsome⟩
  | stopped hoptimal hnone =>
    rw [candidates_of_not_found hnone, List.append_nil]
    exact follows_stopped (Outcome.ofTermination_eq_optimal.mp hoptimal) hbest
  | certain hoptimal hrows found hfound =>
    have hall := hproper.found found hfound
    rw [hrows] at hall ⊢
    rw [List.forall₂_nil_left_iff.mp hall] at hfound
    exact follows_confirmed (Outcome.ofTermination_eq_optimal.mp hoptimal) hfound
  | completed hoptimal found hfound l' hcut ending hending =>
    have htermination := Outcome.ofTermination_eq_optimal.mp hoptimal
    have hbest' : l'.best = leader (cs ++ candidates rows [r]) := by
      rw [candidates_of_found hfound, leader_append, hcut.best, ← hbest]
    have hne : cs ++ candidates rows [r] ≠ [] :=
      List.append_ne_nil_of_right_ne_nil cs (candidates_of_found hfound ▸ List.cons_ne_nil _ _)
    cases hending with
    | confirmed hnil =>
      rw [eq_of_violated_eq_nil (hproper.found found hfound).length_eq hnil] at hfound
      exact follows_confirmed htermination hfound
    | limited => exact follows_endWithBest (.inl rfl) hbest' hne (absurd htermination)
    | late => exact follows_endWithBest (.inr rfl) hbest' hne (absurd htermination)

/-- **All rounds but the last one found something,** and the last one decides how the loop ends. -/
theorem Course.follows {ending : Option (LoopEnd Rat ExtRat)} (h : Course options rows l rs l' ending)
    (hproper : ∀ r ∈ rs, r.Proper rows right S) : ∀ {cs : List (Candidate Rat ExtRat)}, l.best = leader cs →
      ∀ e, ending = some e → ∃ before r, rs = before ++ [r]
        ∧ (∀ r' ∈ before, r'.answer.termination = .optimal ∧ r'.finds rows ≠ [])
        ∧ e.Follows rows (cs ++ candidates rows rs) r := by
  induction h with
  | spent l => exact fun _ _ => nofun
  | @ends _ _ r _ hstep =>
    rintro cs hbest e ⟨⟩
    exact ⟨[], r, rfl, fun r' hr' => absurd hr' List.not_mem_nil, hstep.follows (hproper r List.mem_cons_self) hbest⟩
  | @goes _ _ _ r rs _ hstep _ ih =>
    intro cs hbest e he
    obtain ⟨hoptimal, hfinds⟩ := hstep.completed
    obtain ⟨before, r', rfl, hbefore, hfollows⟩ :=
      ih (fun r' hr' => hproper r' (List.mem_cons_of_mem _ hr')) (hstep.best hbest) e he
    refine ⟨r :: before, r', rfl, List.forall_mem_cons.mpr ⟨⟨Outcome.ofTermination_eq_optimal.mp hoptimal, hfinds⟩, hbefore⟩, ?_⟩
    have hall : candidates rows (r :: (before ++ [r'])) = candidates rows [r] ++ candidates rows (before ++ [r']) := by
      rw [candidates, candidates, candidates, ← List.filterMap_append]
      rfl
    rw [hall, ← List.append_assoc]
    exact hfollows

/-- **A loop does not make more rounds than it may.** -/
theorem Course.length_le {ending : Option (LoopEnd Rat ExtRat)} (h : Course options rows l rs l' ending) {n : Int}
    (hn : options.maxIterations = some n) (hne : n ≠ -1) (hl : (l.iterations : Int) < n) :
    (l.iterations : Int) + rs.length ≤ n := by
  induction h with
  | spent l => exact (add_zero _).trans_le hl.le
  | ends => exact hl
  | goes hstep _ ih =>
    have hleft := hstep.left n hn hne
    have hnext := ih hleft
    rw [hstep.iterations] at hnext
    rw [List.length_cons]
    push_cast at hnext ⊢
    linarith

/-! ## Runs -/

/-- Of every oracle something is known, that is, nothing. -/
theorem separable_trivially (right : LinearProgram Rat ExtRat → SolverResults Rat → Prop) (rows : List (MixedRow Rat ExtRat)) :
    Separable right (fun _ => True) (fun _ _ _ => True) rows where
  separate x row _ := by
    unfold separateRow
    split
    next o _ =>
      -- whatever the set, as long as nothing is claimed
      let s : UncertaintySet Rat ExtRat := { lower := [], upper := [], integer := [], names := [] }
      have hseparate : Ensures (SolverResults.Draws s fun _ => True) (Run.separate o row x) (fun _ => False) _ :=
        ensures_separate none o row x nofun
      exact hseparate.of_forall fun _ _ => ⟨trivial, trivial⟩
    next => exact .throw _
  allow o allowance := by
    have hallow : Ensures right (Run.allow o allowance) _ fun _ _ => True := Run.ensures_allow o allowance
    exact hallow.of_forall fun _ _ => trivial

section

variable [Written Rat] [Written ExtRat]

/-- The loop together with the rounds that it made, under the titles of the iteration log. -/
def recorded (fuel : Nat) (options : LoopOptions Rat) (rows : List (MixedRow Rat ExtRat)) (l : LoopState Rat ExtRat) :
    Run Rat ExtRat (List (Round Rat ExtRat) × LoopState Rat ExtRat × Option (LoopEnd Rat ExtRat)) := do
  (Report.header true).forM Run.progress
  chronicle options rows fuel l

theorem run_eq_recorded (fuel : Nat) (l : LoopState Rat ExtRat) :
    run fuel options rows l = (·.2) <$> recorded fuel options rows l := by
  rw [run, recorded, map_bind]
  congr 1
  funext _
  exact rounds_eq_chronicle fuel l

theorem ensures_recorded {P : Condition} (h : Separable right P S rows) (fuel : Nat) (l : LoopState Rat ExtRat) :
    Ensures right (recorded fuel options rows l) P fun a _ => Course options rows l a.1 a.2.1 a.2.2
      ∧ (a.2.2 = none → a.1.length = fuel) ∧ ∀ r ∈ a.1, r.Proper rows right S :=
  .quiet_bind (.forM (fun _ => quiet_progress _) _) fun _ => ensures_chronicle h fuel l

end

end SolveLoop

end RobustLP
