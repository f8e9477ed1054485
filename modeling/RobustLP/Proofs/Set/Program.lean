import RobustLP.Oracle.Protocol
import RobustLP.Proofs.Narrow
import RobustLP.Proofs.Set.Points

/-!
# An uncertainty set as a program

The program that stands for an uncertainty set has the points of the set as its points (`points_toProgram`), so that an optimum
of the program is the best value of the objective over the set.
-/

namespace RobustLP

open ExtRat UncertaintySet

namespace UncertaintySet

variable {s : UncertaintySet Rat ExtRat} {v : Nat → Rat}

/-- Integer parameters have integers as numbers. -/
def Integral (s : UncertaintySet Rat ExtRat) (v : Nat → Rat) : Prop :=
  ∀ k, s.integer[k]? = some true → ∃ z : Int, v k = z

theorem dot_eq_weigh (row : List Rat) (v : Nat → Rat) : dot row v = weigh v 0 row := by
  rw [weigh_eq_sum, dot]
  simp only [Nat.zero_add]

/-- A row of the set has the same value as row of the program. -/
theorem lhs_sparseRow (row : List Rat) (v : Nat → Rat) : lhs v (sparseRow row) = dot row v := by
  have hfrom : ∀ (row : List Rat) (start : Nat), lhs v ((row.zipIdx start).filterMap
      fun (a, k) => if Scalar.isZero a then none else some (k, a)) = weigh v start row := by
    intro row
    induction row with
    | nil => exact fun _ => rfl
    | cons a row ih =>
      intro start
      have hcons : weigh v start (a :: row) = a * v start + weigh v (start + 1) row := rfl
      rw [hcons, ← ih (start + 1), List.zipIdx_cons, List.filterMap_cons]
      dsimp only
      by_cases ha : a = 0
      · simp [ha]
      · rw [isZero_eq_false_iff.mpr ha]
        simp [lhs]
  rw [dot_eq_weigh]
  exact hfrom row 0

/-- A row of the set, as row of a program. -/
theorem adds_sparseRow (lower upper : ExtRat) {row : List Rat} {q q' : LinearProgram Rat ExtRat} (h : q.rows.Aligned)
    (hrun : (discard (LinearProgram.addRow (LinearProgram.given (sparseRow row)) (some (.ok lower)) (some (.ok upper))
      none)).run q = (.ok ⟨⟩, q')) : q.Adds True (fun v => Between lower upper (dot row v)) q' := by
  obtain ⟨i, q₁, hadd, hpure⟩ := Edit.run_bind_eq_ok.mp hrun
  obtain rfl : q₁ = q' := (Prod.mk.inj hpure).2
  obtain ⟨coefs, hread, hadds⟩ := LinearProgram.adds_addRow h hadd
  obtain rfl := LinearProgram.eq_of_readTerms_given hread
  exact hadds.congr id (fun v hv => by rwa [lhs_sparseRow] at hv) fun _ v hv => by rwa [lhs_sparseRow]

/-- The column of a parameter. -/
def columnOf (s : UncertaintySet Rat ExtRat) (k : Nat) : Column ExtRat :=
  { lower := s.lower[k]?.getD negInf, upper := s.upper[k]?.getD posInf
    integer := s.integer[k]?.getD false, name := s.names[k]?.getD s!"_col{k}" }

/-- The columns of the program that stands for a set. -/
def columnsOf (s : UncertaintySet Rat ExtRat) : List (Column ExtRat) := (List.range s.numParameters).map s.columnOf

theorem getElem?_columnsOf {j : Nat} {c : Column ExtRat} :
    s.columnsOf[j]? = some c ↔ j < s.numParameters ∧ c = s.columnOf j := by
  rw [columnsOf, List.getElem?_map]
  by_cases hj : j < s.numParameters
  · rw [List.getElem?_range hj]
    exact ⟨fun h => ⟨hj, (Option.some.inj h).symm⟩, fun h => congrArg some h.2.symm⟩
  · rw [List.getElem?_eq_none (by simpa using hj)]
    exact ⟨fun h => by (cases h), fun h => absurd h.1 hj⟩

/-- **The program that stands for a set** has a column for each parameter, and the points of the set. -/
theorem points_toProgram {name : Option String} {p : LinearProgram Rat ExtRat} (h : s.toProgram name = .ok p) :
    p.columns = s.columnsOf ∧ ∀ v, p.Feasible v ↔ s.Solves v := by
  unfold toProgram at h
  dsimp only at h
  split at h
  next q hrun =>
    cases h
    obtain ⟨⟨⟩, q₁, hatMost, hequal⟩ := Edit.run_bind_eq_ok.mp hrun
    have hstart : ∀ v, ({ LinearProgram.empty name with columns := s.columnsOf } : LinearProgram Rat ExtRat).Feasible v
        ↔ ∀ k < s.numParameters, Between (s.lower[k]?.getD negInf) (s.upper[k]?.getD posInf) (v k) := by
      intro v
      constructor
      · exact fun hv k hk => within_zero.mp (hv.columns k _ (getElem?_columnsOf.mpr ⟨hk, rfl⟩))
      · refine fun hv => ⟨fun q hq => absurd hq List.not_mem_nil, fun j c hc => within_zero.mpr ?_⟩
        obtain ⟨hj, rfl⟩ := getElem?_columnsOf.mp hc
        exact hv j hj
    have hadds₁ := LinearProgram.adds_forM (fun b _ q q' haligned hstep =>
      adds_sparseRow negInf b.2 haligned hstep) ⟨rfl, rfl, rfl⟩ hatMost
    have hadds₂ := LinearProgram.adds_forM (fun b _ q q' haligned hstep =>
      adds_sparseRow b.2 b.2 haligned hstep) hadds₁.aligned hequal
    refine ⟨(hadds₂.same trivial).trans (hadds₁.same trivial), fun v => ?_⟩
    rw [hadds₂.feasible_iff, hadds₁.feasible_iff]
    constructor
    · rintro ⟨⟨hbounds, hle⟩, heq⟩
      exact ⟨(hstart v).mp hbounds, fun b hb => (hle b hb).2, fun b hb => between_self.mp (heq b hb)⟩
    · rintro ⟨hbounds, hle, heq⟩
      exact ⟨⟨(hstart v).mpr hbounds, fun b hb => ⟨negInf_le _, hle b hb⟩⟩, fun b hb => between_self.mpr (heq b hb)⟩
  next => cases h

/-- Integers for the integer parameters are integers for the integer columns. -/
theorem integral_of_columnsOf {p : LinearProgram Rat ExtRat} (h : p.columns = s.columnsOf) (hv : s.Integral v) :
    p.Integral v := by
  intro j c hc hinteger
  rw [h] at hc
  obtain ⟨-, rfl⟩ := getElem?_columnsOf.mp hc
  refine hv j ?_
  cases hget : s.integer[j]? with
  | none =>
    rw [columnOf, hget] at hinteger
    cases hinteger
  | some b =>
    rw [columnOf, hget] at hinteger
    exact congrArg some hinteger

/-- Integers for the integer columns are integers for the integer parameters. -/
theorem integral_of_integral_columnsOf {p : LinearProgram Rat ExtRat} (hs : s.WellFormed) (h : p.columns = s.columnsOf)
    (hp : p.Integral v) : s.Integral v := by
  intro k hk
  have hlt : k < s.numParameters := hs.integer ▸ (List.getElem?_eq_some_iff.mp hk).1
  refine hp k (s.columnOf k) (h ▸ getElem?_columnsOf.mpr ⟨hlt, rfl⟩) ?_
  rw [columnOf, hk]
  rfl

end UncertaintySet

end RobustLP
