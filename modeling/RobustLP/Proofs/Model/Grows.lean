import RobustLP.Proofs.Entries
import RobustLP.Proofs.Model.Editing

/-!
# Models grow

No call takes away from a model what others may rely on: variables keep their positions and domains, parameters their positions,
and constraints stay. What a call adds depends on what it is given (`Model.Call.Mentions`); all that a call can do to a model,
whether it succeeds or fails, is described by one relation (`Model.Grows`), of which every call is an instance
(`Model.Call.grows`).
-/

namespace RobustLP

open Edit

/-- The bounds do not contradict each other. -/
def Declared.Ordered {B : Type} [Bound B] (d : Declared B) : Prop := Bound.lt d.upper.value d.lower.value = false

namespace Model

variable {K B : Type}

/-! ## What a call is given -/

/-- **A call of which the expressions have a property** and the objects are variables and parameters that the model has declared.
What belongs to other models is refused, so nothing is required of it. -/
def Call.Mentions (Q : Expr K → Prop) (self : ModelId) (m : Model K B) : Call K B → Prop
  | .addConstraint (.constraint c) _ => Owned self c.owner → Q c.body
  | .setObjective (.ok q) _ => Owned self (Quantity.objective q).owner → Q (Quantity.objective q)
  | .setPolicy adapted _ dependsOn => (∀ j, .decision { model := self, index := j } ∈ adapted → j < m.decisions.length)
    ∧ ∀ k, .parameter { model := self, index := k } ∈ dependsOn → k < m.parameters.length
  | _ => True

/-! ## What a call adds -/

/-- A policy over the tables of a model: it is that of a variable that is no integer, and depends on parameters that differ. -/
structure AllowsPolicy (m : Model K B) (p : Nat × List Nat) : Prop where
  decision : ∃ d, m.decisions[p.1]? = some d ∧ d.domain.isInteger = false
  parameters : ∀ k ∈ p.2, k < m.parameters.length
  distinct : p.2.Nodup

/-- **A model with more entries:** what is there stays, and what is new is what calls may add. -/
structure Grows [Bound B] (Q : Expr K → Prop) (m m' : Model K B) : Prop where
  decisions : ∀ (j : Nat) (d : Declared B), m.decisions[j]? = some d →
    ∃ d' : Declared B, m'.decisions[j]? = some d' ∧ d'.domain = d.domain := by exact fun _ d hd => ⟨d, hd, rfl⟩
  parameters : m.parameters.length ≤ m'.parameters.length := by exact le_rfl
  orderedDecisions : (∀ d ∈ m.decisions, d.Ordered) → ∀ d ∈ m'.decisions, d.Ordered := by exact id
  orderedParameters : (∀ d ∈ m.parameters, d.Ordered) → ∀ d ∈ m'.parameters, d.Ordered := by exact id
  constraints : ∀ c ∈ m'.constraints, c ∈ m.constraints ∨ Q c.body ∧ c.kind = .linear := by exact fun _ hc => .inl hc
  setConstraints : ∀ c ∈ m'.setConstraints, c ∈ m.setConstraints ∨ Q c.body ∧ c.kind = .uncertain := by
    exact fun _ hc => .inl hc
  uncertain : ∀ c ∈ m'.uncertain, c ∈ m.uncertain ∨ Q c.1.body ∧ c.1.kind = .full := by exact fun _ hc => .inl hc
  objective : m'.objective = m.objective ∨ Q m'.objective := by exact .inl rfl
  policies : (keys m.affine).Nodup →
    (keys m'.affine).Nodup ∧ ∀ p ∈ m'.affine, p ∈ m.affine ∨ m.AllowsPolicy p := by exact fun h => ⟨h, fun _ hp => .inl hp⟩

section

variable [Bound B] {Q : Expr K → Prop} {m m' : Model K B}

theorem Grows.refl (m : Model K B) : m.Grows Q m := {}

theorem Grows.length (h : m.Grows Q m') : m.decisions.length ≤ m'.decisions.length := by
  by_contra hlt
  obtain ⟨d, hd, -⟩ := h.decisions m'.decisions.length _ (List.getElem?_eq_getElem (not_le.mp hlt))
  rw [List.getElem?_eq_none le_rfl] at hd
  cases hd

theorem Grows.allowsPolicy (h : m.Grows Q m') {p : Nat × List Nat} (hp : m.AllowsPolicy p) : m'.AllowsPolicy p where
  decision := by
    obtain ⟨d, hd, hinteger⟩ := hp.decision
    obtain ⟨d', hd', hdomain⟩ := h.decisions p.1 d hd
    exact ⟨d', hd', by rw [hdomain, hinteger]⟩
  parameters k hk := (hp.parameters k hk).trans_le h.parameters
  distinct := hp.distinct

/-! ## Tables -/

omit [Bound B] in
theorem getElem?_append_domain {ds xs : List (Declared B)} {j : Nat} {d : Declared B} (hd : ds[j]? = some d) :
    ∃ d' : Declared B, (ds ++ xs)[j]? = some d' ∧ d'.domain = d.domain :=
  ⟨d, by rw [List.getElem?_append_left (List.getElem?_eq_some_iff.mp hd).1, hd], rfl⟩

omit [Bound B] in
/-- A change that keeps the domain. -/
theorem getElem?_modify_domain {ds : List (Declared B)} {f : Declared B → Declared B} {i j : Nat} {d : Declared B}
    (hd : ds[j]? = some d) (hf : ∀ d, (f d).domain = d.domain := by exact fun _ => rfl) :
    ∃ d' : Declared B, (ds.modify i f)[j]? = some d' ∧ d'.domain = d.domain := by
  rw [List.getElem?_modify, hd]
  by_cases hij : i = j
  · exact ⟨f d, congrArg some (if_pos hij), hf d⟩
  · exact ⟨d, congrArg some (if_neg hij), rfl⟩

/-- Bounds that do not contradict each other at the position that is changed. -/
theorem ordered_modify {ds : List (Declared B)} {k : Nat} {f : Declared B → Declared B} (hds : ∀ d ∈ ds, d.Ordered)
    (hf : ∀ d, ds[k]? = some d → (f d).Ordered) : ∀ d ∈ ds.modify k f, d.Ordered := by
  intro x hx
  obtain ⟨j, hj⟩ := List.mem_iff_getElem?.mp hx
  rw [List.getElem?_modify] at hj
  obtain ⟨d, hd, rfl⟩ := Option.map_eq_some_iff.mp hj
  split
  next heq => exact hf d (heq ▸ hd)
  next => exact hds d (List.mem_of_getElem? hd)

/-- A change of one bound that was compared with the other one. -/
theorem ordered_modify_of_eq {ds : List (Declared B)} {k : Nat} {f : Declared B → Declared B} {d : Declared B}
    (hd : ds[k]? = some d) (hf : (f d).Ordered) (hds : ∀ d ∈ ds, d.Ordered) : ∀ d ∈ ds.modify k f, d.Ordered :=
  ordered_modify hds fun d' hd' => by
    cases hd.symm.trans hd'
    exact hf

theorem mem_append_singleton {α : Type} {l : List α} {a : α} {P : α → Prop} (ha : P a) : ∀ x ∈ l ++ [a], x ∈ l ∨ P x := by
  intro x hx
  rcases List.mem_append.mp hx with hx | hx
  · exact .inl hx
  · exact .inr (List.mem_singleton.mp hx ▸ ha)

/-- What holds of the entries of a table and of the new ones holds after the new ones were entered. -/
theorem enterPolicy_foldl {P : Nat × List Nat → Prop} {ks : List Nat} : ∀ {js : List Nat} {table : List (Nat × List Nat)},
    (keys table).Nodup → (∀ p ∈ table, P p) → (∀ j ∈ js, P (j, ks)) →
      (keys (js.foldl (fun t j => enterPolicy j ks t) table)).Nodup
        ∧ ∀ p ∈ js.foldl (fun t j => enterPolicy j ks t) table, P p
  | [], _, hnodup, htable, _ => ⟨hnodup, htable⟩
  | j :: _, table, hnodup, htable, hnew => by
    have hupsert : enterPolicy j ks table = upsert j (fun _ => ks) table := rfl
    rw [List.foldl_cons, hupsert]
    exact enterPolicy_foldl (nodup_upsert hnodup) (forall_mem_upsert hnodup htable (hnew j List.mem_cons_self))
      fun i hi => hnew i (List.mem_cons_of_mem _ hi)

omit [Bound B] in
/-- A variable that can follow an affine policy is declared, and no integer. -/
theorem Adapts.exists_decision {self : ModelId} {o : PolicyObject} {j : Nat} (h : m.Adapts self .affine o j)
    (hj : j < m.decisions.length) : ∃ d, m.decisions[j]? = some d ∧ d.domain.isInteger = false := by
  have hget := List.getElem?_eq_getElem hj
  have hinteger := h.2 rfl
  unfold isInteger at hinteger
  rw [hget] at hinteger
  exact ⟨_, hget, hinteger⟩

end

/-! ## Calls -/

variable [Bound B] [Scalar K B] {Q : Expr K → Prop} {self : ModelId} {m m' : Model K B} {c : Call K B}

/-- **What a call does that succeeds,** other than one that declares decision rules, makes a model grow. -/
theorem Call.Done.grows (h : c.Done self m m') (hc : c.Mentions Q self m)
    (hpolicy : ∀ adapted policy dependsOn, c ≠ .setPolicy adapted policy dependsOn) : m.Grows Q m' := by
  cases h with
  | addVariable hx => exact {
      decisions := fun _ _ => getElem?_append_domain
      orderedDecisions := fun h => List.forall_mem_append.mpr ⟨h, List.forall_mem_singleton.mpr hx.ordered⟩ }
  | addVariables hxs =>
    refine { decisions := fun _ _ => getElem?_append_domain
             orderedDecisions := fun h => List.forall_mem_append.mpr ⟨h, fun x hx => ?_⟩ }
    obtain ⟨i, -, hi⟩ := exists_left_of_forall₂ hxs hx
    exact hi.ordered
  | addParameter hx => exact {
      parameters := by simp
      orderedParameters := fun h => List.forall_mem_append.mpr ⟨h, List.forall_mem_singleton.mpr hx.ordered⟩ }
  | addParameters hxs =>
    refine { parameters := by simp, orderedParameters := fun h => List.forall_mem_append.mpr ⟨h, fun x hx => ?_⟩ }
    obtain ⟨i, -, hi⟩ := exists_left_of_forall₂ hxs hx
    exact hi.ordered
  | renameVariable =>
    refine { decisions := fun _ _ hd => getElem?_modify_domain hd, orderedDecisions := fun h => ordered_modify h ?_ }
    exact fun d hd => h d (List.mem_of_getElem? hd)
  | renameParameter =>
    refine { parameters := by simp, orderedParameters := fun h => ordered_modify h ?_ }
    exact fun d hd => h d (List.mem_of_getElem? hd)
  | setLower _ hd hlt | setUpper _ hd hlt => exact {
      decisions := fun _ _ hd => getElem?_modify_domain hd
      orderedDecisions := ordered_modify_of_eq hd hlt }
  | setParameterLower _ hd hlt | setParameterUpper _ hd hlt =>
    exact { parameters := by simp, orderedParameters := ordered_modify_of_eq hd hlt }
  | setValue | loadValues | setDefaultOracle => exact {}
  | addDeterministic _ hkind hown => exact { constraints := mem_append_singleton ⟨hc hown, hkind⟩ }
  | addToSet _ hkind hown => exact { setConstraints := mem_append_singleton ⟨hc hown, hkind⟩ }
  | addUncertain _ hkind hown => exact { uncertain := mem_append_singleton ⟨hc hown, hkind⟩ }
  | setObjective _ hown => exact { objective := .inr (hc hown) }
  | setFixed | setAffine => exact (hpolicy _ _ _ rfl).elim

/-- **What a call leaves behind that fails** makes a model grow, too. -/
theorem Call.Torn.grows (h : c.Torn self m m') (hc : c.Mentions Q self m) : m.Grows Q m' := by
  cases h with
  | addVariable hx => exact {
      decisions := fun _ _ => getElem?_append_domain
      orderedDecisions := fun h => List.forall_mem_append.mpr ⟨h, List.forall_mem_singleton.mpr hx.ordered⟩ }
  | setObjective _ hown => exact { objective := .inr (hc hown) }
  | loadValues => exact {}

omit [Scalar K B] in
/-- Declaring decision rules makes a model grow. -/
theorem ends_setPolicy_grows {naming : Naming} {adapted : List PolicyObject} {policy : Value} {dependsOn : List PolicyObject}
    (hc : (Call.setPolicy adapted policy dependsOn).Mentions Q self m) :
    Edit.Ends (setPolicy naming self adapted policy dependsOn) m (fun _ => m.Grows Q) (m.Grows Q) := by
  obtain ⟨hadapted, hdependsOn⟩ := hc
  refine ends_setPolicy_of (fun js _ _ => { policies := fun h => ⟨?_, ?_⟩ }) fun js ks _ hnodup hks hjs => { policies := fun h => ?_ }
  · exact h.sublist (List.filter_sublist.map _)
  · exact fun p hp => .inl (List.mem_filter.mp hp).1
  · refine enterPolicy_foldl (P := fun p => p ∈ m.affine ∨ m.AllowsPolicy p) h (fun p hp => .inl hp) fun j hj => .inr ?_
    obtain ⟨o, ho, hadapts⟩ := exists_left_of_forall₂ hjs hj
    exact ⟨hadapts.exists_decision (hadapted j (hadapts.1 ▸ ho)), fun k hk => hdependsOn k (hks k hk), hnodup⟩

/-- **Every call makes a model grow,** whether it succeeds or fails. -/
theorem Call.grows [Written K] [Written B] (naming : Naming) (hc : c.Mentions Q self m) :
    m.Grows Q ((c.edit naming self).run m).2 := by
  refine Ends.leaves ?_ (.refl m)
  cases c with
  -- what is known of declaring decision rules in general does not say that the parameters differ
  | setPolicy adapted policy dependsOn => exact ends_setPolicy_grows hc
  | _ => exact (Call.ends naming self m _).mono (fun _ _ h => h.grows hc nofun) fun _ h => h.grows hc

end Model

end RobustLP
