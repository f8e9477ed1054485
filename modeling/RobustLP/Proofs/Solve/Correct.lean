import RobustLP.Proofs.Solve.Separate

/-!
# Correct answers

A solver is correct if an optimal answer is a best point of the program, and if programs that it calls infeasible or unbounded are
so (`SolverResults.Correct`). That an answer is correct can be checked (`Certificate.correct`): weights of the restrictions, whose
combination bounds the objective, certify an optimum, or that the program is infeasible; a ray certifies that it is unbounded.
-/

namespace RobustLP

open ExtRat UncertaintySet

/-- **A correct answer:** an optimal one comes with a best point of the program, and one that says infeasible or unbounded is
true. -/
structure SolverResults.Correct (p : LinearProgram Rat ExtRat) (r : SolverResults Rat) : Prop where
  optimal : r.termination = .optimal → ∃ x : List Rat, r.point = some x ∧ x.length = p.numColumns ∧ p.Feasible (entries x)
    ∧ p.Integral (entries x) ∧ r.objective = some (p.objectiveAt (entries x))
    ∧ ∀ v, p.Feasible v → p.Integral v → p.objective.sense.NoWorse (p.objectiveAt (entries x)) (p.objectiveAt v)
  infeasible : r.termination = .infeasible → ∀ v, p.Feasible v → ¬p.Integral v
  unbounded : r.termination = .unbounded →
    ∀ q, ∃ v, p.Feasible v ∧ p.Integral v ∧ p.objective.sense.NoWorse (p.objectiveAt v) q

/-- A correct answer is right, and where the solver was asked for an optimum over the set, it is a point of the set. -/
theorem SolverResults.Correct.draws {s : UncertaintySet Rat ExtRat} (hs : s.WellFormed) {p : LinearProgram Rat ExtRat}
    {r : SolverResults Rat} (h : r.Correct p) : r.Draws s s.Admits p := by
  constructor
  · intro htermination
    obtain ⟨x, hx, hlength, hfeasible, -, hobjective, hbest⟩ := h.optimal htermination
    exact ⟨x, hx, hlength, hfeasible, hobjective, fun _ => hbest⟩
  · rintro ⟨q, hq, hcolumns, hrows⟩ htermination x hx
    obtain ⟨y, hy, hlength, hfeasible, hintegral, -⟩ := h.optimal htermination
    obtain rfl : x = y := Option.some.inj (hx.symm.trans hy)
    obtain ⟨hset, hpoints⟩ := points_toProgram hq
    refine ⟨?_, (hpoints _).mp ⟨hrows ▸ hfeasible.rows, hcolumns ▸ hfeasible.columns⟩,
      integral_of_integral_columnsOf hs (hcolumns.trans hset) hintegral⟩
    rw [hlength, LinearProgram.numColumns, hcolumns, hset, columnsOf, List.length_map, List.length_range]

/-! ## Restrictions -/

/-- A restriction of the columns: coefficients, and the bounds between which their value has to lie. -/
abbrev Restriction := List (Nat × Rat) × ExtRat × ExtRat

namespace Restriction

variable {c : Restriction}

/-- The least value of a multiple of the left side, if there is one. -/
def least (c : Restriction) (w : Rat) : Option Rat :=
  if w = 0 then some 0
  else match if 0 < w then c.2.1 else c.2.2 with
    | .finite b => some (w * b)
    | _ => none

theorem le_of_least {w b : Rat} {x : Nat → Rat} (h : c.least w = some b) (hx : Between c.2.1 c.2.2 (lhs x c.1)) :
    b ≤ w * lhs x c.1 := by
  unfold least at h
  split at h
  next hzero =>
    cases h
    rw [hzero, zero_mul]
  next hne =>
    split at h
    next bound hbound =>
      cases h
      split at hbound
      next hpos =>
        rw [hbound, Between, finite_le_finite] at hx
        exact mul_le_mul_of_nonneg_left hx.1 hpos.le
      next hpos =>
        rw [hbound, Between, finite_le_finite] at hx
        exact mul_le_mul_of_nonpos_left hx.2 (not_lt.mp hpos)
    next => cases h

/-- The left side may go on with a slope: it has no bound in that direction. -/
def allows (c : Restriction) (slope : Rat) : Bool :=
  (decide (slope ≤ 0) || c.2.2 == posInf) && (decide (0 ≤ slope) || c.2.1 == negInf)

theorem between_add {slope q t : Rat} (h : c.allows slope = true) (hq : Between c.2.1 c.2.2 q) (ht : 0 ≤ t) :
    Between c.2.1 c.2.2 (q + t * slope) := by
  unfold allows at h
  simp only [Bool.and_eq_true, Bool.or_eq_true, decide_eq_true_eq, beq_iff_eq] at h
  obtain ⟨hupper, hlower⟩ := h
  constructor
  · rcases hlower with hslope | hnone
    · exact le_finite_of_le (le_add_of_nonneg_right (mul_nonneg ht hslope)) hq.1
    · rw [hnone]
      exact negInf_le _
  · rcases hupper with hslope | hnone
    · exact finite_le_of_le (add_le_of_nonpos_right (mul_nonpos_of_nonneg_of_nonpos ht hslope)) hq.2
    · rw [hnone]
      exact le_posInf _

/-- A combination of left sides. -/
def combine (cs : List (Restriction × Rat)) : List (Nat × Rat) := cs.flatMap fun (c, w) => c.1.map fun t => (t.1, w * t.2)

theorem lhs_append (x : Nat → Rat) (row row' : List (Nat × Rat)) : lhs x (row ++ row') = lhs x row + lhs x row' := by
  rw [lhs, List.map_append, List.sum_append, ← lhs, ← lhs]

theorem lhs_scale (x : Nat → Rat) (w : Rat) (row : List (Nat × Rat)) :
    lhs x (row.map fun t => (t.1, w * t.2)) = w * lhs x row := by
  rw [lhs, lhs, List.map_map, ← List.sum_map_mul_left]
  congr 1
  exact List.map_congr_left fun t _ => mul_assoc _ _ _

theorem lhs_add_mul (x d : Nat → Rat) (t : Rat) (row : List (Nat × Rat)) :
    lhs (fun j => x j + t * d j) row = lhs x row + t * lhs d row := by
  rw [lhs, lhs, lhs, ← List.sum_map_mul_left, ← List.sum_map_add]
  congr 1
  refine List.map_congr_left fun s _ => ?_
  ring

/-- **Weak duality:** the least values of the left sides bound the combination. -/
theorem sum_le_lhs_combine {x : Nat → Rat} : ∀ {cs : List (Restriction × Rat)} {bs : List Rat},
    cs.mapM (fun c => c.1.least c.2) = some bs → (∀ c ∈ cs, Between c.1.2.1 c.1.2.2 (lhs x c.1.1)) →
      bs.sum ≤ lhs x (combine cs)
  | [], bs, h, _ => by
    cases h
    exact le_refl (0 : Rat)
  | c :: cs, bs, h, hx => by
    rw [List.mapM_cons, Option.bind_eq_bind, Option.bind_eq_some_iff] at h
    obtain ⟨b, hb, hrest⟩ := h
    rw [Option.bind_eq_bind, Option.bind_eq_some_iff] at hrest
    obtain ⟨bs', hbs, hpure⟩ := hrest
    cases hpure
    obtain ⟨hfirst, hx⟩ := List.forall_mem_cons.mp hx
    rw [List.sum_cons, combine, List.flatMap_cons, lhs_append, lhs_scale]
    exact add_le_add (le_of_least hb hfirst) (sum_le_lhs_combine hbs hx)

end Restriction

open Restriction

namespace LinearProgram

variable {p : LinearProgram Rat ExtRat} {x : Nat → Rat}

/-- The restrictions of a program: its rows, and the bounds of its columns. -/
def restrictions (p : LinearProgram Rat ExtRat) : List Restriction :=
  p.rows.entries ++ p.columns.zipIdx.map fun (c, j) => ([(j, (1 : Rat))], c.lower, c.upper)

theorem feasible_iff_restrictions : p.Feasible x ↔ ∀ c ∈ p.restrictions, Between c.2.1 c.2.2 (lhs x c.1) := by
  have hone : ∀ j : Nat, lhs x [(j, 1)] = x j := fun j => by simp [lhs]
  rw [restrictions, List.forall_mem_append, List.forall_mem_map]
  constructor
  · rintro ⟨hrows, hcolumns⟩
    refine ⟨fun q hq => within_zero.mp (hrows q hq), fun t hc => ?_⟩
    obtain ⟨c, j⟩ := t
    rw [hone]
    exact within_zero.mp (hcolumns j c (List.mk_mem_zipIdx_iff_getElem?.mp hc))
  · rintro ⟨hrows, hcolumns⟩
    refine ⟨fun q hq => within_zero.mpr (hrows q hq), fun j c hc => within_zero.mpr ?_⟩
    rw [← hone j]
    exact hcolumns (c, j) (List.mk_mem_zipIdx_iff_getElem?.mpr hc)

instance (p : LinearProgram Rat ExtRat) (x : Nat → Rat) : Decidable (p.Feasible x) :=
  decidable_of_iff _ feasible_iff_restrictions.symm

/-- Weights of the restrictions show that the value of some terms is not less than a number. -/
def bounds (p : LinearProgram Rat ExtRat) (weights : List Rat) (terms : List (Nat × Rat)) (b : Rat) : Bool :=
  match (p.restrictions.zip weights).mapM fun c => c.1.least c.2 with
  | some bs => decide (b ≤ bs.sum)
    && (collect (combine (p.restrictions.zip weights) ++ terms.map fun t => (t.1, -1 * t.2))).isEmpty
  | none => false

theorem le_lhs_of_bounds {weights : List Rat} {terms : List (Nat × Rat)} {b : Rat} (h : p.bounds weights terms b = true)
    (hx : p.Feasible x) : b ≤ lhs x terms := by
  unfold bounds at h
  split at h
  next bs hbs =>
    obtain ⟨hle, hnil⟩ := Bool.and_eq_true_iff.mp h
    have hcombine := sum_le_lhs_combine hbs fun c hc => feasible_iff_restrictions.mp hx c.1 (List.of_mem_zip hc).1
    have hsum := lhs_collect x (combine (p.restrictions.zip weights) ++ terms.map fun t => (t.1, -1 * t.2))
    rw [List.isEmpty_iff.mp hnil, lhs_append, lhs_scale] at hsum
    have hzero : lhs x [] = 0 := rfl
    rw [hzero] at hsum
    linarith [of_decide_eq_true hle]
  next => cases h

/-- What is to be made small. -/
def goal (p : LinearProgram Rat ExtRat) : List (Nat × Rat) :=
  match p.objective.sense with
  | .minimize => p.objective.terms
  | .maximize => p.objective.terms.map fun t => (t.1, -1 * t.2)

/-- How large it may be for the objective not to be worse than a number. -/
def goalLimit (p : LinearProgram Rat ExtRat) (q : Rat) : Rat :=
  match p.objective.sense with
  | .minimize => q - p.objective.constant
  | .maximize => p.objective.constant - q

theorem noWorse_iff {q : Rat} : p.objective.sense.NoWorse (p.objectiveAt x) q ↔ lhs x p.goal ≤ p.goalLimit q := by
  unfold Sense.NoWorse goal goalLimit objectiveAt
  cases p.objective.sense with
  | minimize => exact le_sub_iff_add_le.symm
  | maximize =>
    rw [lhs_scale]
    constructor
    · intro h
      linarith
    · intro h
      linarith

/-- Numbers of which those of integer columns are integers. -/
def integralAt (p : LinearProgram Rat ExtRat) (x : List Rat) : Bool :=
  p.columns.zipIdx.all fun (c, j) => !c.integer || (entries x j).den == 1

theorem integral_of_integralAt {x : List Rat} (h : p.integralAt x = true) : p.Integral (entries x) := by
  intro j c hc hinteger
  have hj := List.all_eq_true.mp h (c, j) (List.mk_mem_zipIdx_iff_getElem?.mpr hc)
  dsimp only at hj
  rw [hinteger, Bool.not_true, Bool.false_or, beq_iff_eq] at hj
  exact ⟨_, (Rat.coe_int_num_of_den_eq_one hj).symm⟩

end LinearProgram

/-! ## Certificates -/

/-- What shows that an answer is correct. -/
inductive Certificate where
  /-- weights of the restrictions that bound the objective -/
  | optimum (weights : List Rat)
  /-- weights of the restrictions that contradict each other -/
  | contradiction (weights : List Rat)
  /-- a point, and a direction in which the objective improves -/
  | ray (point direction : List Rat)

namespace Certificate

variable {p : LinearProgram Rat ExtRat} {r : SolverResults Rat}

/-- A certificate shows that an answer is correct. -/
def proves (p : LinearProgram Rat ExtRat) (r : SolverResults Rat) : Certificate → Bool
  | optimum weights => match r.point with
    | some x => r.termination == .optimal && x.length == p.numColumns && decide (p.Feasible (entries x)) && p.integralAt x
      && r.objective == some (p.objectiveAt (entries x)) && p.bounds weights p.goal (lhs (entries x) p.goal)
    | none => false
  | contradiction weights => r.termination == .infeasible && p.bounds weights [] 1
  | ray x d => r.termination == .unbounded && p.columns.all (!·.integer) && decide (p.Feasible (entries x))
    && p.restrictions.all (fun c => c.allows (lhs (entries d) c.1)) && decide (lhs (entries d) p.goal < 0)

theorem correct_of_optimum {weights : List Rat} (h : (optimum weights).proves p r = true) : r.Correct p := by
  unfold proves at h
  dsimp only at h
  split at h
  next x hx =>
    simp only [Bool.and_eq_true, beq_iff_eq, decide_eq_true_eq] at h
    obtain ⟨⟨⟨⟨⟨htermination, hlength⟩, hfeasible⟩, hintegral⟩, hobjective⟩, hbounds⟩ := h
    refine ⟨fun _ => ⟨x, hx, hlength, hfeasible, LinearProgram.integral_of_integralAt hintegral, hobjective, fun v hv _ => ?_⟩,
      htermination ▸ nofun, htermination ▸ nofun⟩
    have hle := LinearProgram.le_lhs_of_bounds hbounds hv
    exact LinearProgram.noWorse_iff.mpr (hle.trans (LinearProgram.noWorse_iff.mp (.refl _ _)))
  next => cases h

theorem correct_of_contradiction {weights : List Rat} (h : (contradiction weights).proves p r = true) : r.Correct p := by
  unfold proves at h
  obtain ⟨htermination, hbounds⟩ := Bool.and_eq_true_iff.mp h
  rw [beq_iff_eq] at htermination
  refine ⟨htermination ▸ nofun, fun _ v hv _ => ?_, htermination ▸ nofun⟩
  exact absurd (LinearProgram.le_lhs_of_bounds hbounds hv) (not_le.mpr one_pos)

/-- **Along a ray** there are points with arbitrarily good objectives. -/
theorem correct_of_ray {x d : List Rat} (h : (ray x d).proves p r = true) : r.Correct p := by
  unfold proves at h
  simp only [Bool.and_eq_true, beq_iff_eq, decide_eq_true_eq] at h
  obtain ⟨⟨⟨⟨htermination, hcontinuous⟩, hfeasible⟩, hallows⟩, hslope⟩ := h
  refine ⟨htermination ▸ nofun, htermination ▸ nofun, fun _ q => ?_⟩
  -- go as far as the objective demands
  let t := max 0 ((p.goalLimit q - lhs (entries x) p.goal) / lhs (entries d) p.goal)
  refine ⟨fun j => entries x j + t * entries d j, LinearProgram.feasible_iff_restrictions.mpr fun c hc => ?_,
    fun j c hc hinteger => ?_, LinearProgram.noWorse_iff.mpr ?_⟩
  · rw [lhs_add_mul]
    have hbetween := LinearProgram.feasible_iff_restrictions.mp hfeasible c hc
    exact between_add (List.all_eq_true.mp hallows c hc) hbetween (le_max_left _ _)
  · have hno := List.all_eq_true.mp hcontinuous c (List.mem_of_getElem? hc)
    rw [hinteger] at hno
    cases hno
  · rw [lhs_add_mul]
    have ht := (div_le_iff_of_neg hslope).mp (le_max_right 0 ((p.goalLimit q - lhs (entries x) p.goal) / lhs (entries d) p.goal))
    linarith

/-- **An answer with a certificate is correct.** -/
theorem correct : ∀ {c : Certificate}, c.proves p r = true → r.Correct p
  | optimum _ => correct_of_optimum
  | contradiction _ => correct_of_contradiction
  | ray _ _ => correct_of_ray

end Certificate

namespace Environment

variable {env env' : Environment Rat ExtRat}

/-- Certificates show that all answers between two environments are correct. -/
def certified (env env' : Environment Rat ExtRat) (cs : List Certificate) : Bool :=
  let given := answers env.solvers (env'.calls.drop env.calls.length)
  given.length == cs.length && (given.zip cs).all fun (a, c) => match a.2 with
    | .ok r => c.proves a.1 r
    | .error _ => true

theorem trusted_of_certified {cs : List Certificate} (h : env.certified env' cs = true) :
    env.Trusted (fun p r => r.Correct p) env' := by
  intro new hnew a ha r hr
  unfold certified at h
  rw [hnew, List.drop_left] at h
  obtain ⟨hlength, hall⟩ := Bool.and_eq_true_iff.mp h
  obtain ⟨i, hi⟩ := List.mem_iff_getElem?.mp ha
  have hlt : i < cs.length := eq_of_beq hlength ▸ (List.getElem?_eq_some_iff.mp hi).1
  have hmem : (a, cs[i]) ∈ (answers env.solvers new).zip cs :=
    List.mem_iff_getElem?.mpr ⟨i, List.getElem?_zip_eq_some.mpr ⟨hi, List.getElem?_eq_getElem hlt⟩⟩
  have hproves := List.all_eq_true.mp hall _ hmem
  dsimp only at hproves
  rw [hr] at hproves
  exact Certificate.correct hproves

end Environment

end RobustLP
