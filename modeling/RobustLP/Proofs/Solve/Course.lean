import RobustLP.Proofs.Solve.Rounds

/-!
# What holds along a course

Each round adds what it found to the program, and nothing else: so a property of programs that such an addition keeps holds of
all of them (`Course.invariant`), each program narrows the first one (`Course.narrows`), and the points of a later program
respect what was found earlier (`Course.pairwise`). The rounds are counted (`Course.iterations`).
-/

namespace RobustLP

open ExtRat UncertaintySet Run

/-- What a round found violated holds at a point. -/
def Round.Respected (rows : List (MixedRow Rat ExtRat)) (r : Round Rat ExtRat) (x : Nat → Rat) : Prop :=
  ∀ v ∈ r.finds rows, v.1.Holds x (entries v.2.point)

theorem Round.finds_of_found {rows : List (MixedRow Rat ExtRat)} {r : Round Rat ExtRat}
    {found : List (Option (Realization Rat ExtRat))} (h : r.found = some found) :
    r.finds rows = SolveLoop.violated rows found := by
  rw [finds, h]

/-- What was found violated is as it has to be. -/
theorem Round.Proper.of_mem_finds {rows : List (MixedRow Rat ExtRat)} {r : Round Rat ExtRat}
    {right : LinearProgram Rat ExtRat → SolverResults Rat → Prop}
    {S : Option (List Rat) → MixedRow Rat ExtRat → Option (Realization Rat ExtRat) → Prop} (h : r.Proper rows right S)
    {v : MixedRow Rat ExtRat × Realization Rat ExtRat} (hv : v ∈ r.finds rows) :
    v.1 ∈ rows ∧ S r.answer.point v.1 (some v.2) := by
  unfold finds at hv
  split at hv
  next found hfound =>
    obtain ⟨⟨row, a⟩, hmem, hmap⟩ := List.mem_filterMap.mp hv
    obtain ⟨z, rfl, rfl⟩ := Option.map_eq_some_iff.mp hmap
    exact ⟨(List.of_mem_zip hmem).1, (List.forall₂_iff_zip.mp (h.found found hfound)).2 hmem⟩
  next => exact absurd hv List.not_mem_nil

namespace SolveLoop

variable {right : LinearProgram Rat ExtRat → SolverResults Rat → Prop} {options : LoopOptions Rat}
  {rows : List (MixedRow Rat ExtRat)} {S : Option (List Rat) → MixedRow Rat ExtRat → Option (Realization Rat ExtRat) → Prop}
  {l l' : LoopState Rat ExtRat} {r : Round Rat ExtRat} {rs : List (Round Rat ExtRat)} {ending : Option (LoopEnd Rat ExtRat)}

/-! ## One round -/

theorem Step.iterations (h : Step options rows l r l' ending) : l'.iterations = l.iterations + 1 := by
  obtain ⟨timing, hjudged⟩ := h.judged
  cases hjudged with
  | completed _ found _ l' hcut => exact hcut.iterations
  | _ => rfl

/-- **A round adds what it found.** -/
theorem Step.adds (h : Step options rows l r l' ending) (hproper : r.Proper rows right S) (haligned : l.program.rows.Aligned) :
    l.program.Adds True (r.Respected rows) l'.program := by
  have hnothing : (∀ found, r.found = some found → violated rows found = []) → ∀ x, r.Respected rows x := by
    intro hnil x v hv
    unfold Round.finds at hv
    split at hv
    next found hfound =>
      rw [hnil found hfound] at hv
      exact absurd hv List.not_mem_nil
    next => exact absurd hv List.not_mem_nil
  obtain ⟨timing, hjudged⟩ := h.judged
  cases hjudged with
  | failed hnot => exact .refl haligned (hnothing fun found hfound => absurd (hproper.optimal found hfound) hnot)
  | stopped _ hnone =>
    refine .refl haligned (hnothing fun found hfound => ?_)
    rw [hnone] at hfound
    cases hfound
  | certain _ hrows =>
    refine .refl haligned (hnothing fun found _ => ?_)
    rw [hrows]
    rfl
  | completed _ found hfound l' hcut =>
    have hfinds : r.finds rows = violated rows found := Round.finds_of_found hfound
    unfold Round.Respected
    rw [hfinds]
    exact hcut.program haligned

/-- A round after which the loop goes on found something. -/
theorem Step.completed (h : Step options rows l r l' none) :
    Outcome.ofTermination r.answer.termination = .optimal ∧ r.finds rows ≠ [] := by
  obtain ⟨timing, hjudged⟩ := h.judged
  cases hjudged with
  | completed hoptimal found hfound l' hcut ending hending =>
    cases hending with
    | «open» hsome => exact ⟨hoptimal, (Round.finds_of_found hfound).symm ▸ hsome⟩

/-- A round after which the loop goes on is not the last one that it may make. -/
theorem Step.left (h : Step options rows l r l' none) (n : Int) (hn : options.maxIterations = some n) (hne : n ≠ -1) :
    (l'.iterations : Int) < n := by
  obtain ⟨timing, hjudged⟩ := h.judged
  cases hjudged with
  | completed _ _ _ l' _ ending hending =>
    cases hending with
    | «open» _ hleft => exact (hleft n hn).resolve_left hne

/-! ## All rounds -/

/-- A loop that was given too few rounds goes on with another one. -/
theorem Course.snoc {l₁ : LoopState Rat ExtRat} (h : Course options rows l rs l₁ none) (hstep : Step options rows l₁ r l' ending) :
    Course options rows l (rs ++ [r]) l' ending := by
  generalize hnone : none = ending₁ at h
  induction h with
  | spent l =>
    cases ending with
    | none => exact .goes hstep (.spent l')
    | some e => exact .ends hstep
  | ends => cases hnone
  | goes hfirst _ ih => exact .goes hfirst (ih hstep hnone)

theorem Course.iterations (h : Course options rows l rs l' ending) : l'.iterations = l.iterations + rs.length := by
  induction h with
  | spent l => rfl
  | ends hstep => exact hstep.iterations
  | goes hstep _ ih =>
    rw [ih, hstep.iterations, List.length_cons]
    ring

/-- **What every addition keeps** is true of the programs of all rounds, and of the last one. -/
theorem Course.invariant {I : LinearProgram Rat ExtRat → Prop} (h : Course options rows l rs l' ending)
    (hproper : ∀ r ∈ rs, r.Proper rows right S) (haligned : l.program.rows.Aligned) (hI : I l.program)
    (hkeep : ∀ r ∈ rs, ∀ p p' : LinearProgram Rat ExtRat, I p → p.Adds True (r.Respected rows) p' → I p') :
    (∀ r ∈ rs, I r.program) ∧ I l'.program := by
  induction h with
  | spent l => exact ⟨fun r hr => absurd hr List.not_mem_nil, hI⟩
  | ends hstep =>
    obtain ⟨hfirst, -⟩ := List.forall_mem_cons.mp hproper
    refine ⟨List.forall_mem_singleton.mpr (hstep.program ▸ hI), ?_⟩
    exact hkeep _ List.mem_cons_self _ _ hI (hstep.adds hfirst haligned)
  | goes hstep _ ih =>
    obtain ⟨hfirst, hproper⟩ := List.forall_mem_cons.mp hproper
    have hadds := hstep.adds hfirst haligned
    obtain ⟨hall, hlast⟩ := ih hproper hadds.aligned (hkeep _ List.mem_cons_self _ _ hI hadds)
      fun r hr => hkeep r (List.mem_cons_of_mem _ hr)
    exact ⟨List.forall_mem_cons.mpr ⟨hstep.program ▸ hI, hall⟩, hlast⟩

/-- Every program narrows the first one. -/
theorem Course.narrows (h : Course options rows l rs l' ending) (hproper : ∀ r ∈ rs, r.Proper rows right S)
    (haligned : l.program.rows.Aligned) : (∀ r ∈ rs, l.program.Narrows r.program) ∧ l.program.Narrows l'.program :=
  h.invariant hproper haligned (.refl haligned) fun _ _ _ _ hnarrows hadds => hnarrows.trans hadds.toNarrows

/-- **The points of the program of a later round** respect what an earlier one found. -/
theorem Course.pairwise (h : Course options rows l rs l' ending) (hproper : ∀ r ∈ rs, r.Proper rows right S)
    (haligned : l.program.rows.Aligned) :
    rs.Pairwise fun r r' => ∀ x, r'.program.Feasible x → r.Respected rows x := by
  induction h with
  | spent l => exact .nil
  | ends => exact List.pairwise_singleton _ _
  | goes hstep hrest ih =>
    obtain ⟨hfirst, hproper⟩ := List.forall_mem_cons.mp hproper
    have hadds := hstep.adds hfirst haligned
    refine .cons (fun r' hr' x hx => hadds.sound x ?_) (ih hproper hadds.aligned)
    exact ((hrest.narrows hproper hadds.aligned).1 r' hr').feasible x hx

/-- A loop that was given too few rounds found something in all of them. -/
theorem Course.finds_of_unfinished (h : Course options rows l rs l' ending) (hnone : ending = none) :
    ∀ r ∈ rs, r.finds rows ≠ [] := by
  induction h with
  | spent l => exact fun r hr => absurd hr List.not_mem_nil
  | ends => cases hnone
  | goes hstep _ ih => exact List.forall_mem_cons.mpr ⟨hstep.completed.2, ih hnone⟩

end SolveLoop

end RobustLP
