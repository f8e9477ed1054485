import RobustLP.Proofs.Model.Grows
import RobustLP.Proofs.Model.Rows

/-!
# Models as they are built

Symbols are handed out when they are declared, so what a call is given mentions declared symbols only, unless it belongs to another
model (`Model.Call.Fits`). All models that such calls lead to, including calls that failed, are well-formed, sort their constraints
by kind and have no parameter with contradictory bounds (`Model.Reached.built`).
-/

namespace RobustLP

open ExtRat

namespace Model

variable {self : ModelId} {m m' : Model Rat ExtRat} {c : Call Rat ExtRat}

/-- **A call with symbols that the model has declared.** Objects of other models are refused, so nothing is required of them. -/
def Call.Fits (self : ModelId) (m : Model Rat ExtRat) : Call Rat ExtRat → Prop
  | .addConstraint (.constraint c) _ => Owned self c.owner → m.Declares c.body
  | .setObjective (.ok q) _ => Owned self (Quantity.objective q).owner → m.Declares (Quantity.objective q)
  | .setPolicy adapted _ dependsOn => (∀ j, .decision { model := self, index := j } ∈ adapted → j < m.decisions.length)
    ∧ ∀ k, .parameter { model := self, index := k } ∈ dependsOn → k < m.parameters.length
  | _ => True

/-- **A model as calls build it:** it is well-formed, each table of constraints holds those of its kind, and no parameter has
contradictory bounds. -/
structure Built (m : Model Rat ExtRat) : Prop extends m.WellFormed where
  certain : ∀ c ∈ m.constraints, c.kind = .linear
  ofSet : ∀ c ∈ m.setConstraints, c.kind = .uncertain
  ordered : ∀ d ∈ m.parameters, Bound.lt d.upper.value d.lower.value = false

theorem built_empty (name : String) (robust : Bool) (oracle : OracleId) :
    (empty name robust oracle : Model Rat ExtRat).Built where
  constraints := List.forall_mem_nil _
  setConstraints := List.forall_mem_nil _
  setColumns := List.forall_mem_nil _
  uncertain := List.forall_mem_nil _
  objective := ⟨List.forall_mem_nil _, List.forall_mem_nil _⟩
  distinct := List.nodup_nil
  adaptive := List.forall_mem_nil _
  continuous := List.forall_mem_nil _
  certain := List.forall_mem_nil _
  ofSet := List.forall_mem_nil _
  ordered := List.forall_mem_nil _

theorem Grows.declares (h : m.Grows m.Declares m') {e : Expr Rat} (he : m.Declares e) : m'.Declares e :=
  ⟨fun j hj => (he.columns j hj).trans_le h.length, fun k hk => (he.positions k hk).trans_le h.parameters⟩

theorem columns_of_kind {e : Expr Rat} (h : e.kind = .uncertain) : e.columns = [] := by
  cases e with
  | uncertain e => rfl
  | linear e => cases h
  | full e => cases h

/-- **A model stays built when it grows.** -/
theorem Built.grow (hm : m.Built) (h : m.Grows m.Declares m') : m'.Built := by
  have hconstraints : ∀ c ∈ m'.constraints, m.Declares c.body ∧ c.kind = .linear := fun c hc =>
    (h.constraints c hc).elim (fun hc => ⟨hm.constraints c hc, hm.certain c hc⟩) id
  have hset : ∀ c ∈ m'.setConstraints, m.Declares c.body ∧ c.kind = .uncertain := fun c hc =>
    (h.setConstraints c hc).elim (fun hc => ⟨hm.setConstraints c hc, hm.ofSet c hc⟩) id
  obtain ⟨hdistinct, hpolicies⟩ := h.policies hm.distinct
  have hcontinuous : ∀ p ∈ m'.affine, ∃ d, m'.decisions[p.1]? = some d ∧ d.domain.isInteger = false := by
    intro p hp
    rcases hpolicies p hp with hold | hnew
    · have hget := List.getElem?_eq_getElem (hm.adaptive p hold).1
      obtain ⟨d', hd', hdomain⟩ := h.decisions p.1 _ hget
      exact ⟨d', hd', hdomain ▸ hm.continuous p hold _ hget⟩
    · exact (h.allowsPolicy hnew).decision
  exact {
    constraints := fun c hc => h.declares (hconstraints c hc).1
    setConstraints := fun c hc => h.declares (hset c hc).1
    setColumns := fun c hc => columns_of_kind (hset c hc).2
    uncertain := fun c hc => h.declares ((h.uncertain c hc).elim (hm.uncertain c) And.left)
    objective := h.declares (h.objective.elim (fun heq => heq ▸ hm.objective) id)
    distinct := hdistinct
    adaptive := fun p hp => by
      obtain ⟨d, hd, -⟩ := hcontinuous p hp
      refine ⟨(List.getElem?_eq_some_iff.mp hd).1, fun k hk => ?_⟩
      rcases hpolicies p hp with hold | hnew
      · exact ((hm.adaptive p hold).2 k hk).trans_le h.parameters
      · exact (h.allowsPolicy hnew).parameters k hk
    continuous := fun p hp d hd => by
      obtain ⟨d', hd', hinteger⟩ := hcontinuous p hp
      cases hd.symm.trans hd'
      exact hinteger
    certain := fun c hc => (hconstraints c hc).2
    ofSet := fun c hc => (hset c hc).2
    ordered := h.orderedParameters hm.ordered }

/-! ## Calls -/

theorem Call.Fits.mentions (hc : c.Fits self m) : c.Mentions m.Declares self m := by
  unfold Mentions
  split
  · exact hc
  · exact hc
  · exact hc
  · trivial

/-- **Every model that is reached is built,** where calls only mention what the model has declared. -/
theorem Reached.built (h : m.Reached self (Call.Fits self)) : m.Built := by
  induction h with
  | start name robust oracle => exact built_empty name robust oracle
  | call naming c _ hc ih => exact ih.grow (Call.grows naming hc.mentions)

end Model

end RobustLP
