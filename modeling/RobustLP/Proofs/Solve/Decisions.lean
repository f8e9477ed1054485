import RobustLP.Proofs.Model.Meets
import RobustLP.Solve.Robust

/-!
# The decisions of a solve

The results of a solve give each variable a decision at each realization: the policy of a variable that has one, evaluated there,
or else its entry in the solution (`RobustResults.decisionAt`). This is the decision rule for the final point
(`decisionAt_withSolution`).
-/

namespace RobustLP

open ExtRat UncertaintySet

/-- **The decision** of each variable at a realization. -/
def RobustResults.decisionAt (r : RobustResults Rat ExtRat) (u : List Rat) : Lookup Rat := fun j =>
  match r.policies.find? (·.1 == j) with
  | some (_, p) => p.evaluate fun k => Lookup.ofList u k.index
  | none => match r.solution with
    | some x => Lookup.ofList x j
    | none => .error .noAttribute

/-! ## Reading the final point -/

namespace RobustSolve

variable {model : ModelId} {wm : WorkingModel Rat ExtRat} {x u : List Rat} {j : Nat} {ks : List Nat}

theorem eq_of_valueAt {q : Rat} (h : valueAt x j = .ok q) : x[j]? = some q ∧ q = entries x j := by
  unfold valueAt at h
  split at h
  next v hv =>
    cases h
    refine ⟨hv, ?_⟩
    rw [entries, hv]
    rfl
  next => cases h

/-- **A policy that was read from the final point** has the column of the variable as base, and the columns of its parameters
as coefficients. -/
theorem eq_of_policyAt {p : AffinePolicy Rat} (h : policyAt model wm x j ks = .ok p) : p.base = entries x j
    ∧ p.coefficients = ks.map fun k => ({ model, index := k }, Expander.auxValue wm.auxColumns (entries x) j k) := by
  obtain ⟨base, hbase, hrest⟩ := bind_eq_ok.mp h
  obtain ⟨coefficients, hcoefficients, hpure⟩ := bind_eq_ok.mp hrest
  cases hpure
  refine ⟨(eq_of_valueAt hbase).2, eq_map_of_mapM_ok (fun k _ c hc => ?_) hcoefficients⟩
  cases hfind : wm.auxColumns.find? (·.1 == (j, k)) with
  | some aux =>
    rw [hfind] at hc
    obtain ⟨q, hq, hc⟩ := bind_eq_ok.mp hc
    cases hc
    rw [Expander.auxValue, hfind, (eq_of_valueAt hq).2]
  | none =>
    rw [hfind] at hc
    cases hc
    rw [Expander.auxValue, hfind]
    rfl

/-- **The policy of a variable, evaluated,** is the decision rule. -/
theorem evaluate_policyAt {p : AffinePolicy Rat} (h : policyAt model wm x j ks = .ok p) (hks : ∀ k ∈ ks, k < u.length) :
    p.evaluate (fun k => Lookup.ofList u k.index) = .ok (entries x j
      + (ks.map fun k => Expander.auxValue wm.auxColumns (entries x) j k * entries u k).sum) := by
  obtain ⟨hbase, hcoefficients⟩ := eq_of_policyAt h
  have hproduct : ∀ k ∈ ks, (do return Expander.auxValue wm.auxColumns (entries x) j k * (← Lookup.ofList u k) :
      Except Fault Rat) = .ok (Expander.auxValue wm.auxColumns (entries x) j k * entries u k) := by
    intro k hk
    rw [Lookup.ofList_of_lt (hks k hk), entries, List.getElem?_eq_getElem (hks k hk)]
    rfl
  unfold AffinePolicy.evaluate
  rw [hbase, hcoefficients, List.mapM_map]
  have hproducts : ks.mapM (fun k => (do return Expander.auxValue wm.auxColumns (entries x) j k * (← Lookup.ofList u k) :
      Except Fault Rat)) = .ok (ks.map fun k => Expander.auxValue wm.auxColumns (entries x) j k * entries u k) :=
    mapM_ok_map hproduct
  exact bind_eq_ok.mpr ⟨_, hproducts, rfl⟩

/-- **The decisions of the final point** are the decision rules of the model. -/
theorem decisionAt_withSolution {m : Model Rat ExtRat} (hm : m.WellFormed) (hwm : wm.userColumns = m.decisions.length)
    (hx : m.decisions.length ≤ x.length) (hu : u.length = m.parameters.length) {answer : SolverResults Rat}
    {r r' : RobustResults Rat ExtRat} (h : withSolution model m wm (some (some x, answer)) r = .ok r')
    (hj : j < m.decisions.length) :
    r'.decisionAt u j = .ok ((Expander.ofModel m).rule wm.auxColumns (entries x) (entries u) j) := by
  obtain ⟨policies, hpolicies, hpure⟩ := bind_eq_ok.mp h
  cases hpure
  have hall := mapM_eq_ok_iff.mp hpolicies
  unfold RobustResults.decisionAt
  dsimp only
  split
  next j' p hfind =>
    obtain rfl : j' = j := by simpa using List.find?_some hfind
    obtain ⟨⟨j'', ks⟩, hmem, hread⟩ := exists_left_of_forall₂ hall (List.mem_of_find?_eq_some hfind)
    obtain ⟨p', hp', hpair⟩ := bind_eq_ok.mp hread
    cases hpair
    rw [evaluate_policyAt hp' fun k hk => ((hm.adaptive _ hmem).2 k hk).trans_eq hu.symm, Expander.rule,
      Expander.correction, Expander.dependsOn_ofModel hm hmem]
  next hnone =>
    have hno : j ∉ keys m.affine := by
      intro hj'
      obtain ⟨e, he, rfl⟩ := List.mem_map.mp hj'
      obtain ⟨q, hq, hread⟩ := exists_right_of_forall₂ hall he
      obtain ⟨p', -, hpair⟩ := bind_eq_ok.mp hread
      cases hpair
      exact List.find?_eq_none.mp hnone _ hq (beq_self_eq_true _)
    have hlt := hj.trans_le hx
    rw [Expander.rule, Expander.correction, Expander.dependsOn_ofModel_of_not_mem hno, hwm, entries,
      List.getElem?_eq_getElem hlt, Lookup.ofList, List.getElem?_take_of_lt hj, List.getElem?_eq_getElem hlt]
    exact congrArg Except.ok (add_zero _).symm

end RobustSolve

end RobustLP
