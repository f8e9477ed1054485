import RobustLP.Backend
import RobustLP.Proofs.Backend.Request
import RobustLP.Proofs.Solve.Correct

/-!
# Solving through a correct back end

A back end answers a request correctly if an optimal answer is a point that the request admits, of least cost, and requests
that it calls infeasible or unbounded are so (`BackendAnswer.Correct`). A program is then solved correctly through it: what is
reported as optimal is a best point of the program, with its objective there (`correct_of_results`). A program without columns
is decided by its rows (`trivialResults_correct`).
-/

namespace RobustLP

open ExtRat UncertaintySet

variable {p : LinearProgram Rat ExtRat}

/-- **A correct answer of a back end.** An optimal one comes with a point of least cost among those that the request admits, and
one that says infeasible or unbounded is true. What it gives as numbers can be read. -/
structure BackendAnswer.Correct (r : BackendRequest Rat ExtRat) (a : BackendAnswer Rat) : Prop where
  iterations : ∀ n, a.iterations = some n → ∃ i, n = .ok i
  point : ∀ x, a.point = some x → ∃ y : List Rat, x = .ok y ∧ y.length = r.cost.length
  optimal : a.code = some 0 → ∃ x : List Rat, a.point = some (.ok x) ∧ r.Admits (entries x)
    ∧ ∀ v, r.Admits v → dot r.cost (entries x) ≤ dot r.cost v
  infeasible : a.code = some 2 → ∀ v, ¬r.Admits v
  unbounded : a.code = some 3 → ∀ q, ∃ v, r.Admits v ∧ dot r.cost v ≤ q

namespace BackendAnswer

/-! ## Reading an answer -/

/-- A code is read as optimal, infeasible or unbounded if it is the code for it. -/
theorem ofCode_iff {code : Option Int} : (ofCode code = .optimal ↔ code = some 0)
    ∧ (ofCode code = .infeasible ↔ code = some 2) ∧ (ofCode code = .unbounded ↔ code = some 3) := by
  unfold ofCode
  split <;> simp_all

/-- What the message tells only refines limits and errors. -/
theorem termination_eq_iff {a : BackendAnswer Rat} {t : Termination}
    (ht : t = .optimal ∨ t = .infeasible ∨ t = .unbounded) : a.termination = t ↔ ofCode a.code = t := by
  unfold termination
  split
  next hcode => rw [hcode]; split <;> rcases ht with rfl | rfl | rfl <;> simp
  next hcode => rw [hcode]; split <;> rcases ht with rfl | rfl | rfl <;> simp
  next => rfl

theorem length_costOf (p : LinearProgram Rat ExtRat) : (BackendRequest.costOf p).length = p.numColumns := by
  simp [BackendRequest.costOf, LinearProgram.objectiveVector, LinearProgram.denseRow]

/-- The objective that is reported for a point, constant included. -/
theorem objectiveValue_eq (h : p.WellFormed) {x : List Rat} (hx : x.length = p.numColumns) :
    p.objectiveValue x = .ok (p.objectiveAt (entries x)) := by
  have hlength : p.objectiveVector.length = x.length := by
    rw [hx]
    simp [LinearProgram.objectiveVector, LinearProgram.denseRow]
  have hvalue : lhs (entries x) p.objective.terms = dot p.objectiveVector (entries x) :=
    (dot_denseRow h.objective (entries x)).symm
  rw [LinearProgram.objectiveValue, if_pos hx, LinearProgram.objectiveAt, hvalue, ← sum_zipWith _ x hlength,
    LinearProgram.total, List.sum_eq_foldl]
  rfl

/-- A correct answer becomes results, with what the back end gives as optimum. -/
theorem Correct.exists_results {r : BackendRequest Rat ExtRat} {a : BackendAnswer Rat} (ha : a.Correct r) (h : p.WellFormed)
    (hcost : r.cost = BackendRequest.costOf p) (solver : String) : ∃ results, a.results solver p = .ok results
      ∧ results.termination = a.termination
      ∧ (a.termination = .optimal → ∀ x, a.point = some (.ok x) → results.point = some x ∧ results.status = .optimal
        ∧ results.objective = some (p.objectiveAt (entries x))) := by
  obtain ⟨iterations, hiterations⟩ : ∃ n, a.iterations.mapM id = .ok n := by
    cases hn : a.iterations with
    | none => exact ⟨none, rfl⟩
    | some n =>
      obtain ⟨i, rfl⟩ := ha.iterations n hn
      exact ⟨some i, rfl⟩
  unfold results
  rw [hiterations]
  cases hpoint : a.point with
  | none => exact ⟨_, rfl, rfl, fun _ x hx => by cases hx⟩
  | some x =>
    obtain ⟨y, rfl, hlength⟩ := ha.point x hpoint
    rw [hcost, length_costOf] at hlength
    have hobjective := objectiveValue_eq h hlength
    -- a point is only kept if there is a status for it, and an optimum has one
    cases hstatus : statusOf a.termination with
    | none =>
      refine ⟨_, rfl, rfl, fun hoptimal => ?_⟩
      rw [hoptimal] at hstatus
      cases hstatus
    | some status =>
      simp only [bind, Except.bind, hobjective, Except.mapError, pure, Except.pure]
      refine ⟨_, rfl, rfl, fun hoptimal x hx => ?_⟩
      rw [hoptimal] at hstatus
      cases hstatus
      cases hx
      exact ⟨rfl, rfl, rfl⟩

/-- **A correct answer makes correct results:** what is reported as optimal is a best point of the program. -/
theorem Correct.correct_results {options : List (String × Value)} {a : BackendAnswer Rat}
    (ha : a.Correct (.ofProgram p options)) (h : p.WellFormed) (solver : String) : ∃ results,
      a.results solver p = .ok results ∧ results.termination = a.termination ∧ results.Correct p := by
  have hadmits := fun v => BackendRequest.admits_ofProgram_iff (v := v) h options
  obtain ⟨results, hresults, htermination, hoptimum⟩ := ha.exists_results h rfl solver
  refine ⟨results, hresults, htermination, ?_, ?_, ?_⟩
  · intro hoptimal
    rw [htermination] at hoptimal
    obtain ⟨x, hx, hfeasible, hbest⟩ := ha.optimal (ofCode_iff.1.mp ((termination_eq_iff (.inl rfl)).mp hoptimal))
    obtain ⟨hpoint, -, hobjective⟩ := hoptimum hoptimal x hx
    obtain ⟨y, hy, hlength⟩ := ha.point _ hx
    cases hy
    obtain ⟨hfeasible, hint⟩ := (hadmits _).mp hfeasible
    refine ⟨x, hpoint, hlength.trans (length_costOf p), hfeasible, hint, hobjective, fun v hv hvint => ?_⟩
    exact (BackendRequest.cost_le_iff h).mp (hbest v ((hadmits v).mpr ⟨hv, hvint⟩))
  · intro hinfeasible v hv hint
    rw [htermination, termination_eq_iff (.inr (.inl rfl))] at hinfeasible
    exact ha.infeasible (ofCode_iff.2.1.mp hinfeasible) v ((hadmits v).mpr ⟨hv, hint⟩)
  · intro hunbounded q
    rw [htermination, termination_eq_iff (.inr (.inr rfl))] at hunbounded
    obtain ⟨v, hv, hcost⟩ := ha.unbounded (ofCode_iff.2.2.mp hunbounded) (p.objective.sense.sign * (q - p.objective.constant))
    obtain ⟨hfeasible, hint⟩ := (hadmits v).mp hv
    exact ⟨v, hfeasible, hint, (BackendRequest.cost_le_goal_iff h q).mp hcost⟩

/-! ## Without columns -/

section

variable (h : p.WellFormed) (hnone : p.columns = [])

include h hnone

/-- Rows without columns have the value zero. -/
theorem feasible_iff_of_columns_eq_nil (v : Nat → Rat) :
    p.Feasible v ↔ ((p.rows.lower.zip p.rows.upper).all fun (l, u) => admitsZero (K := Rat) l u) = true := by
  have hrow : ∀ row ∈ p.rows.coefs, lhs v row = 0 := by
    intro row hrow
    rw [(h.rows row hrow).eq_nil (List.length_eq_zero_iff.mpr hnone)]
    rfl
  have hbounds : p.rows.entries.map (·.2) = p.rows.lower.zip p.rows.upper := by
    refine List.map_snd_zip ?_
    rw [List.length_zip]
    exact (Nat.min_le_left _ _).trans h.bounds
  rw [← hbounds, List.all_map, List.all_eq_true]
  constructor
  · rintro ⟨hholds, -⟩ q hq
    have hq0 := within_zero.mp (hholds q hq)
    rw [hrow q.1 (List.of_mem_zip hq).1] at hq0
    exact Bool.and_eq_true_iff.mpr hq0
  · intro hall
    refine ⟨fun q hq => within_zero.mpr ?_, fun j c hc => ?_⟩
    · rw [hrow q.1 (List.of_mem_zip hq).1]
      exact Bool.and_eq_true_iff.mp (hall q hq)
    · rw [hnone] at hc
      cases hc

/-- **A program without columns is decided by its rows:** it is optimal at the empty point if this satisfies every row, and
infeasible otherwise. -/
theorem trivialResults_correct (solver : String) : (trivialResults solver p).Correct p
    ∧ ((trivialResults solver p).termination = .optimal ↔ p.Feasible (entries []))
    ∧ ((trivialResults solver p).termination = .infeasible ↔ ¬p.Feasible (entries [])) := by
  have hobjective : ∀ v, p.objectiveAt v = p.objective.constant := by
    intro v
    rw [LinearProgram.objectiveAt, h.objective.eq_nil (List.length_eq_zero_iff.mpr hnone)]
    exact zero_add _
  have hfeasible := feasible_iff_of_columns_eq_nil h hnone
  unfold trivialResults
  split
  next hall =>
    have hempty := (hfeasible (entries [])).mpr hall
    refine ⟨⟨fun _ => ⟨[], rfl, ?_, hempty, ?_, ?_, ?_⟩, fun h => ?_, fun h => ?_⟩, by simp [hempty], by simp [hempty]⟩
    · simp [LinearProgram.numColumns, hnone]
    · intro j c hc
      rw [hnone] at hc
      cases hc
    · rw [hobjective]
    · intro v _ _
      rw [hobjective, hobjective]
      exact .refl _ _
    -- it is reported as optimal, and as nothing else
    · cases h
    · cases h
  next hsome =>
    have hempty : ¬p.Feasible (entries []) := mt (hfeasible _).mp hsome
    refine ⟨⟨fun h => ?_, fun _ v hv => absurd ((hfeasible v).mp hv) hsome, fun h => ?_⟩, by simp [hempty], by simp [hempty]⟩
    · cases h
    · cases h

end

end BackendAnswer

namespace LinearProgram

/-- **A program is handed over as the same problem, and solved correctly.** With columns, what the back end is handed admits
exactly the points of the program (with integers where a column is one), and its cost orders them as the objective does in its
sense; a correct answer is reported as correct results. Without columns the program is optimal exactly if the empty point
satisfies every row, and infeasible otherwise. -/
theorem solveThrough_correct (h : p.WellFormed) (solver : String) (options : List (String × Value)) :
    (p.columns ≠ [] →
      ((∀ c ∈ p.columns, c.integer = false) → ∃ rows, (BackendRequest.ofProgram p options).rows = .split rows
        ∧ ∀ v, (BackendRequest.ofProgram p options).Admits v ↔ p.Feasible v)
      ∧ ((∃ c ∈ p.columns, c.integer = true) → ∃ integrality rows,
        (BackendRequest.ofProgram p options).rows = .ranged integrality rows
        ∧ ∀ v, (BackendRequest.ofProgram p options).Admits v ↔ p.Feasible v ∧ p.Integral v)
      ∧ (∀ v w, dot (BackendRequest.ofProgram p options).cost v ≤ dot (BackendRequest.ofProgram p options).cost w
        ↔ p.objective.sense.NoWorse (p.objectiveAt v) (p.objectiveAt w))
      ∧ ∀ backend a, backend (BackendRequest.ofProgram p options) = .ok a →
        a.Correct (BackendRequest.ofProgram p options) →
          ∃ results, p.solveThrough backend solver options = .ok (results, some a.message) ∧ results.Correct p
            ∧ (results.termination = .optimal ↔ a.code = some 0))
    ∧ (p.columns = [] → ∀ backend, ∃ results, p.solveThrough backend solver options = .ok (results, none)
      ∧ results.Correct p ∧ (results.termination = .optimal ↔ p.Feasible (entries []))
      ∧ (results.termination = .infeasible ↔ ¬p.Feasible (entries []))) := by
  have hadmits := fun v => BackendRequest.admits_ofProgram_iff (v := v) h options
  constructor
  · intro hsome
    refine ⟨fun hcontinuous => ?_, fun hmixed => ?_, fun v w => BackendRequest.cost_le_iff h, fun backend a hask ha => ?_⟩
    · have hmixed : BackendRequest.isMixed p = false := by simpa [BackendRequest.isMixed] using hcontinuous
      refine ⟨.ofProgram p, by simp [BackendRequest.ofProgram, hmixed], fun v => ?_⟩
      exact (hadmits v).trans (and_iff_left (BackendRequest.integral_of_not_isMixed hmixed v))
    · have hmixed := BackendRequest.isMixed_iff.mpr hmixed
      exact ⟨p.columns.map (·.integer), BackendRequest.rangedRows p, by simp [BackendRequest.ofProgram, hmixed], hadmits⟩
    · have hrequest : BackendRequest.ofProgram? p options = some (.ofProgram p options) :=
        if_neg (mt List.length_eq_zero_iff.mp hsome)
      obtain ⟨results, hresults, htermination, hcorrect⟩ := ha.correct_results h solver
      refine ⟨results, ?_, hcorrect, ?_⟩
      · rw [solveThrough, hrequest]
        simp only [hask, hresults, bind, Except.bind, pure, Except.pure]
      · rw [htermination, BackendAnswer.termination_eq_iff (.inl rfl), BackendAnswer.ofCode_iff.1]
  · intro hnone backend
    have hrequest : BackendRequest.ofProgram? p options = none := if_pos (by rw [numColumns, hnone]; rfl)
    refine ⟨BackendAnswer.trivialResults solver p, ?_, BackendAnswer.trivialResults_correct h hnone solver⟩
    rw [solveThrough, hrequest]

/-- Maximise `2 x + y + 5` where `1 ≤ x + y ≤ 3` and `x - y = 1`, with `0 ≤ x ≤ 4` and `0 ≤ y`. -/
def rangedProgram : LinearProgram Rat ExtRat :=
  { columns := [⟨finite 0, finite 4, false, "x"⟩, ⟨finite 0, posInf, false, "y"⟩]
    rows := { coefs := [[(0, 1), (1, 1)], [(0, 1), (1, -1)]], lower := [finite 1, finite 1], upper := [finite 3, finite 1]
              names := ["r", "s"] }
    objective := { terms := [(0, 2), (1, 1)], constant := 5, sense := .maximize } }

/-- What a back end answers for it. -/
def rangedAnswer : BackendAnswer Rat := { code := some 0, message := "found", point := some (.ok [2, 1]) }

theorem rangedProgram_wellFormed : rangedProgram.WellFormed := ⟨by decide, by decide, by decide⟩

/-- The point is the best one: three halves of the upper bound of the first row and half of the second one bound the
objective. -/
theorem rangedAnswer_correct : rangedAnswer.Correct (.ofProgram rangedProgram []) where
  iterations := nofun
  point x hx := by
    cases hx
    exact ⟨_, rfl, rfl⟩
  optimal _ := by
    have hadmits := fun v => BackendRequest.admits_ofProgram_iff (v := v) rangedProgram_wellFormed []
    have hbest : SolverResults.Correct rangedProgram { termination := .optimal, point := some [2, 1], objective := some 10 } :=
      Certificate.correct (c := .optimum [-3 / 2, -1 / 2, 0, 0]) (by decide +kernel)
    obtain ⟨x, hx, -, hfeasible, hint, -, hbest⟩ := hbest.optimal rfl
    cases hx
    refine ⟨_, rfl, (hadmits _).mpr ⟨hfeasible, hint⟩, fun v hv => ?_⟩
    obtain ⟨hv, hvint⟩ := (hadmits v).mp hv
    exact (BackendRequest.cost_le_iff rangedProgram_wellFormed).mpr (hbest v hv hvint)
  infeasible := nofun
  unbounded := nofun

/-- A program without columns, with a row that must be at least one. -/
def emptyProgram : LinearProgram Rat ExtRat :=
  { rows := { coefs := [[]], lower := [finite 1], upper := [posInf], names := ["r"] }, objective := { constant := 0 } }

/-- The ranged program is solved with the objective 10; the program without columns is infeasible, whatever a back end says. -/
theorem solveThrough_correct_ranged :
    (∃ results, rangedProgram.solveThrough (fun _ => .ok rangedAnswer) "s" [] = .ok (results, some "found")
      ∧ results.objective = some 10 ∧ results.Correct rangedProgram)
    ∧ ∃ results, emptyProgram.solveThrough (fun _ => .error "") "s" [] = .ok (results, none)
      ∧ results.termination = .infeasible := by
  constructor
  · obtain ⟨-, -, -, hsolve⟩ := (solveThrough_correct rangedProgram_wellFormed "s" []).1 (by decide)
    obtain ⟨results, hresults, hcorrect, -⟩ := hsolve (fun _ => .ok rangedAnswer) rangedAnswer rfl rangedAnswer_correct
    have hvalue : (rangedProgram.solveThrough (fun _ => .ok rangedAnswer) "s" []).toOption.map (·.1.objective)
        = some (some 10) := by decide +kernel
    rw [hresults] at hvalue
    exact ⟨results, hresults, Option.some.inj hvalue, hcorrect⟩
  · obtain ⟨results, hresults, -, -, hinfeasible⟩ :=
      (solveThrough_correct (p := emptyProgram) ⟨by decide, by decide, by decide⟩ "s" []).2 rfl fun _ => .error ""
    exact ⟨results, hresults, hinfeasible.mpr (by decide +kernel)⟩

end LinearProgram

end RobustLP
