import RobustLP.Proofs.Algebra.Totals
import RobustLP.Proofs.Model.Editing

/-!
# Symbols of other models

An expression never mixes symbols of several models, though any number of models may hand out their symbols. Sums, differences and
comparisons of what two models own are refused (`add_of_owners`, `compare_of_owners`); what is formed belongs to the model that it
notes, as a whole and in its parts (`Quantity.Formed.owner_eq`, `Constraint.Formed.body`). Two things rely on this:

* Normal forms bring symbols together that have the same position. As the symbols of one expression are told apart by their
  positions, each coefficient is the sum of those of one symbol (`Expr.Within.collects`).
* A model looks at the note only. What it holds is made of its own symbols (`Model.Reached.owns_held`), and offers of anything else
  leave it as it was (`Model.Call.refuses_foreign`).
-/

namespace RobustLP

section

variable {K B : Type} [Scalar K B]

/-! ## One owner for all symbols -/

namespace Expr

variable {e : Expr K} {m : ModelId}

omit [Scalar K B] in
/-- The symbols are the variables and parameters that occur. -/
theorem within_iff : e.Within m ↔ (∀ v ∈ e.allVariables, v.model = m) ∧ ∀ u ∈ e.allParameters, u.model = m := by
  cases e with
  | linear e => exact ⟨fun h => ⟨List.forall_mem_map.mpr h, List.forall_mem_nil _⟩, fun h => List.forall_mem_map.mp h.1⟩
  | uncertain e => exact ⟨fun h => ⟨List.forall_mem_nil _, List.forall_mem_map.mpr h⟩, fun h => List.forall_mem_map.mp h.2⟩
  | full e =>
    constructor
    · intro h
      have h : e.Within m := h
      refine ⟨List.forall_mem_map.mpr h.decisions, List.forall_mem_flatMap.mpr fun f hf => List.forall_mem_map.mpr ?_⟩
      rcases List.mem_cons.mp hf with rfl | hf
      · exact h.constant
      · obtain ⟨t, ht, rfl⟩ := List.mem_map.mp hf
        exact h.parameters t ht
    · rintro ⟨hvariables, hparameters⟩
      have hforms : ∀ f ∈ e.constant :: e.terms.map (·.2), f.Within m := fun f hf =>
        List.forall_mem_map.mp (List.forall_mem_flatMap.mp hparameters f hf)
      exact {
        decisions := List.forall_mem_map.mp hvariables
        parameters := fun t ht => hforms _ (List.mem_cons_of_mem _ (List.mem_map_of_mem ht))
        constant := hforms _ List.mem_cons_self }

omit [Scalar K B] in
/-- The symbols of an expression belong to any model that does not contradict the note. -/
theorem Attributed.within (h : e.Attributed) (howner : Model.Owned m e.owner) : e.Within m := by
  have hmodel : ∀ i, e.owner = some i → i = m := fun i hi => (hi ▸ howner).eq_of_some
  exact within_iff.mpr ⟨fun v hv => hmodel _ (h.owner_of_variable hv), fun u hu => hmodel _ (h.owner_of_parameter hu)⟩

omit [Scalar K B] in
theorem Attributed.exists_within (h : e.Attributed) : ∃ m, e.Within m := by
  rcases howner : e.owner with - | m
  · exact ⟨0, h.within (.inl howner)⟩
  · exact ⟨m, h.within (.inr howner)⟩

end Expr

/-! ## Symbols that are brought together -/

section

variable {S α β : Type} [DecidableEq S] {key : S → Nat} {ts : List (S × α)}

omit [Scalar K B] in
/-- **What is brought together for a symbol is what is paired with that very symbol,** and no symbol is left out. -/
theorem mem_mapM_gather (h : Distinguished key ts) {f : List α → Except Fault β} {sums : List (S × β)}
    (hsums : (gather key ts).mapM (fun p => do return (p.1, ← f p.2)) = .ok sums) :
    (∀ t ∈ sums, f (coefsOf t.1 ts) = .ok t.2) ∧ ∀ s ∈ ts.map (·.1), ∃ c, (s, c) ∈ sums := by
  -- keys that tell the symbols apart gather by symbol
  rw [gather_eq_coefsOf h, mapM_eq_ok_iff, List.forall₂_map_left_iff] at hsums
  constructor
  · intro t ht
    obtain ⟨s, -, hst⟩ := exists_left_of_forall₂ hsums ht
    obtain ⟨c, hc, hst⟩ := bind_eq_ok.mp hst
    cases hst
    exact hc
  · intro s hs
    obtain ⟨t, ht, hst⟩ := exists_right_of_forall₂ hsums (List.mem_eraseDups.mpr hs)
    obtain ⟨c, -, hst⟩ := bind_eq_ok.mp hst
    cases hst
    exact ⟨c, ht⟩

omit [DecidableEq S] in
theorem exists_mem_of_not_mem_filter {sums : List (S × β)} (keep : β → Bool) {s : S} (hs : ∃ c, (s, c) ∈ sums)
    (hdropped : s ∉ (sums.filter fun t => keep t.2).map (·.1)) : ∃ c, (s, c) ∈ sums ∧ keep c = false := by
  obtain ⟨c, hc⟩ := hs
  refine ⟨c, hc, Bool.eq_false_iff.mpr fun hkeep => hdropped ?_⟩
  exact List.mem_map_of_mem (List.mem_filter.mpr ⟨hc, hkeep⟩)

end

/-- **A form that collects another one:** each coefficient is the sum of those that the very symbol has, and where this is zero the
symbol is left out. -/
structure Affine.Collects {S : Type} [DecidableEq S] (e n : Affine S K) : Prop where
  coefficients : ∀ t ∈ n.terms, sumCoefs (coefsOf t.1 e.terms) = .ok t.2
  dropped : ∀ s ∈ e.terms.map (·.1), s ∉ n.terms.map (·.1) → ∃ c, sumCoefs (coefsOf s e.terms) = .ok c ∧ Scalar.isZero c = true
  constant : e.exactConstant = .ok n.constant

/-- Each coefficient collects those that the very variable has, and where this gives zero the variable is left out. -/
structure Full.Collects (e n : Full K) : Prop where
  coefficients : ∀ t ∈ n.terms, (e.coefficient t.1).Collects t.2
  dropped : ∀ v ∈ e.terms.map (·.1), v ∉ n.terms.map (·.1) → ∃ f, (e.coefficient v).Collects f ∧ isZeroForm f = true
  constant : e.constant.Collects n.constant

/-- An expression of the same kind that collects another one. -/
inductive Expr.Collects : Expr K → Expr K → Prop
  | linear {e n : Affine Variable K} (h : e.Collects n) : Collects (.linear e) (.linear n)
  | uncertain {e n : Affine Parameter K} (h : e.Collects n) : Collects (.uncertain e) (.uncertain n)
  | full {e n : Full K} (h : e.Collects n) : Collects (.full e) (.full n)

theorem Affine.Within.collects {S : Type} [Symbol S] [LawfulSymbol S] [DecidableEq S] {e n : Affine S K} {m : ModelId}
    (he : e.Within m) (h : e.normalized = .ok n) : e.Collects n := by
  obtain ⟨terms, hterms, h⟩ := bind_eq_ok.mp h
  obtain ⟨c, hc, h⟩ := bind_eq_ok.mp h
  cases h
  obtain ⟨sums, hsums, hterms⟩ := bind_eq_ok.mp hterms
  cases hterms
  obtain ⟨hown, hall⟩ := mem_mapM_gather (distinguished_of_model he) hsums
  refine ⟨fun t ht => hown t (List.mem_filter.mp ht).1, fun s hs hdropped => ?_, hc⟩
  obtain ⟨c, hc, hzero⟩ := exists_mem_of_not_mem_filter (fun c => !Scalar.isZero c) (hall s hs) hdropped
  exact ⟨c, hown _ hc, (Bool.not_eq_false' _).mp hzero⟩

theorem Full.Within.collects {e n : Full K} {m : ModelId} (he : e.Within m) (h : e.normalized = .ok n) : e.Collects n := by
  obtain ⟨sums, hsums, h⟩ := bind_eq_ok.mp h
  obtain ⟨constant, hconstant, h⟩ := bind_eq_ok.mp h
  cases h
  obtain ⟨hown, hall⟩ := mem_mapM_gather (f := sumForms e.owner) (distinguished_of_model he.decisions) hsums
  have hcoefficient : ∀ t ∈ sums, (e.coefficient t.1).Collects t.2 := fun t ht =>
    (within_coefficient he t.1).collects (hown t ht)
  refine ⟨fun t ht => hcoefficient t (List.mem_filter.mp ht).1, fun v hv hdropped => ?_, he.constant.collects hconstant⟩
  obtain ⟨f, hf, hzero⟩ := exists_mem_of_not_mem_filter (fun f => !isZeroForm f) (hall v hv) hdropped
  exact ⟨f, hcoefficient _ hf, (Bool.not_eq_false' _).mp hzero⟩

/-- **Normal forms collect the symbols of one model.** -/
theorem Expr.Within.collects {e n : Expr K} {m : ModelId} (he : e.Within m) (h : e.normalized = .ok n) : e.Collects n := by
  obtain ⟨f, g, rfl, rfl, hg⟩ | ⟨f, g, rfl, rfl, hg⟩ | ⟨f, g, rfl, rfl, hg⟩ := normalized_cases h
  · exact .linear (Affine.Within.collects he hg)
  · exact .uncertain (Affine.Within.collects he hg)
  · exact .full (Full.Within.collects he hg)

/-! ## Operations that are refused -/

/-- An operation on expressions is refused as it would mix the symbols of different models. -/
def MixesOwners [Written K] {α : Type} (naming : Naming) (r : Except (ExprError K) α) : Prop :=
  ∃ err, r = .error err ∧ (err.report naming).kind = .ownership

section

variable {a b : Expr K} {i j : ModelId}

theorem Expr.add_of_owners (hij : i ≠ j) (ha : a.owner = some i) (hb : b.owner = some j) :
    a.add b = .error (.owners i j) := by
  have hjoin : joinOwners (K := K) a.owner b.owner = .error (.owners i j) := by
    rw [ha, hb]
    exact if_neg hij
  unfold add
  rw [hjoin]
  rfl

namespace Quantity

theorem add_of_owners (hij : i ≠ j) (ha : a.owner = some i) (hb : b.owner = some j) :
    (expr a).add (expr b) = .error (.owners i j) := by
  rw [add, Expr.add_of_owners hij ha hb]
  rfl

theorem sub_of_owners (hij : i ≠ j) (ha : a.owner = some i) (hb : b.owner = some j) :
    (expr a).sub (expr b) = .error (.owners i j) := by
  have hneg : (b.scale Scalar.minusOne).owner = some j := by
    rw [← hb]
    cases b <;> rfl
  exact add_of_owners hij ha hneg

/-- A comparison is that of the difference. -/
theorem compare_of_owners [Bound B] (r : Relation) (hij : i ≠ j) (ha : a.owner = some i) (hb : b.owner = some j) :
    (compare r (expr a) (expr b) : Except (ExprError K) (Option (Constraint K B))) = .error (.owners i j) := by
  rw [compare, Expr.compare, sub_of_owners hij ha hb]
  rfl

/-- The note of what was formed names the model of each symbol. -/
theorem Formed.owner_eq {e : Expr K} (h : (expr e).Formed) :
    (∀ v ∈ e.allVariables, e.owner = some v.model) ∧ ∀ u ∈ e.allParameters, e.owner = some u.model :=
  ⟨fun _ hv => h.attributed.owner_of_variable hv, fun _ hu => h.attributed.owner_of_parameter hu⟩

end Quantity

end

/-! ## Constraints -/

/-- **The constraints that are formed** by comparing two quantities, or by bounding an expression. -/
inductive Constraint.Formed [Bound B] : Constraint K B → Prop
  | compare {r : Relation} {a b : Quantity K} {c : Constraint K B} : a.Formed → b.Formed → Quantity.compare r a b = .ok (some c) →
    Formed c
  | between {lower upper : Option B} {e : Expr K} {c : Constraint K B} : (Quantity.expr e).Formed →
    Constraint.between lower e upper = .ok c → Formed c

theorem Constraint.Formed.body [Bound B] {c : Constraint K B} (h : c.Formed) : (Quantity.expr c.body).Formed := by
  cases h with
  | compare ha hb h => exact .of_compare ha hb h
  | between he h => exact .of_between he h

end

/-! ## Models -/

namespace Model

variable {K B : Type} {self : ModelId} {m m' : Model K B} {c : Call K B}

/-- The expressions that a model holds. -/
def held (m : Model K B) : List (Expr K) :=
  m.objective :: (m.constraints.map (·.body) ++ m.setConstraints.map (·.body) ++ m.uncertain.map (·.1.body))

/-- The expression that a call offers to a model, as a constraint or objective. -/
def Call.offer : Call K B → Option (Expr K)
  | .addConstraint (.constraint c) _ => some c.body
  | .setObjective (.ok q) _ => some (Quantity.objective q)
  | _ => none

section

variable [Bound B] [Scalar K B]

/-- **What is offered was formed** by the operations of the library. -/
def Call.Formed : Call K B → Prop
  | .addConstraint (.constraint c) _ => c.Formed
  | .setObjective (.ok q) _ => q.Formed
  | _ => True

theorem Call.Formed.offer {e : Expr K} (hc : c.Formed) (he : c.offer = some e) : (Quantity.expr e).Formed := by
  unfold Call.offer at he
  split at he
  next =>
    cases he
    exact Constraint.Formed.body hc
  next q s =>
    cases he
    cases q with
    | number x =>
      have hconstant : Affine.ofTerms x ([] : List (Variable × K)) = .ok (.ofConstant x) := rfl
      exact .linear hconstant
    | expr e => exact hc
  next => cases he

/-- What is offered has no other owner, where a call does something. -/
theorem Call.Done.owned (h : c.Done self m m') {e : Expr K} (he : c.offer = some e) : Owned self e.owner := by
  cases h with
  | addDeterministic _ _ hown | addToSet _ _ hown | addUncertain _ _ hown | setObjective _ hown =>
    cases he
    exact hown
  | _ => cases he

theorem Call.Torn.owned (h : c.Torn self m m') {e : Expr K} (he : c.offer = some e) : Owned self e.owner := by
  cases h with
  | setObjective _ hown =>
    cases he
    exact hown
  | _ => cases he

/-- **A model holds what it held before,** and what it was offered. -/
theorem Call.Done.held (h : c.Done self m m') : ∀ e ∈ m'.held, e ∈ m.held ∨ c.offer = some e := by
  intro e he
  cases h with
  | addDeterministic | addToSet | addUncertain =>
    simp only [Model.held, List.map_append, List.mem_cons, List.mem_append, List.map_cons, List.map_nil, List.not_mem_nil] at he
    simp only [Model.held, List.mem_cons, List.mem_append, Call.offer, Option.some.injEq]
    tauto
  | setObjective =>
    rcases List.mem_cons.mp he with rfl | he
    · exact .inr rfl
    · exact .inl (List.mem_cons_of_mem _ he)
  | _ => exact .inl he

theorem Call.Torn.held (h : c.Torn self m m') : ∀ e ∈ m'.held, e ∈ m.held ∨ c.offer = some e := by
  intro e he
  cases h with
  | setObjective =>
    rcases List.mem_cons.mp he with rfl | he
    · exact .inr rfl
    · exact .inl (List.mem_cons_of_mem _ he)
  | _ => exact .inl he

variable [Written K] [Written B]

/-- **An offer with symbols of another model is refused,** and leaves the model as it was. -/
theorem Call.refuses_foreign (naming : Naming) (m : Model K B) {e : Expr K} (hc : c.Formed) (he : c.offer = some e)
    (hforeign : ¬e.Within self) : ∃ err, (c.edit naming self).run m = (.error err, m) := by
  have hattributed : e.Attributed := (hc.offer he).attributed
  -- only the note is looked at, but it is right: whatever the call does to the model, it does with symbols of its own
  have hends := c.ends naming self m
  rcases hrun : (c.edit naming self).run m with ⟨r, m'⟩
  cases r with
  | ok a => exact (hforeign (hattributed.within ((hends.done a m' hrun).owned he))).elim
  | error err =>
    rcases hends.failed err m' hrun with rfl | htorn
    · exact ⟨err, rfl⟩
    · exact (hforeign (hattributed.within (htorn.owned he))).elim

/-- **A model holds its own symbols only.** -/
theorem Reached.owns_held (h : m.Reached self fun _ c => c.Formed) : ∀ e ∈ m.held, e.Within self := by
  refine h.induct (I := fun m => ∀ e ∈ m.held, e.Within self) (fun _ _ _ => ?_) (fun m c m' hm hc hdone e he => ?_)
    fun m c m' hm hc htorn e he => ?_
  · exact List.forall_mem_singleton.mpr (List.forall_mem_nil _)
  · rcases hdone.held e he with he | he
    · exact hm e he
    · exact (hc.offer he).attributed.within (hdone.owned he)
  · rcases htorn.held e he with he | he
    · exact hm e he
    · exact (hc.offer he).attributed.within (htorn.owned he)

end

end Model

/-! ## Owners -/

section

variable {K B : Type} [Bound B] [Scalar K B] [Written K] [Written B]

/-- **Owners are never mixed.** Every symbol of an expression or constraint that was formed, of symbols of any number of models,
belongs to the model that is noted, and each coefficient of its normal form is the sum of those of one symbol. Sums, differences and
comparisons of expressions of different models are refused. A model refuses constraints and objectives with symbols of another
model and stays as it was, and whatever calls lead to it, those that it holds are made of its own symbols. -/
theorem owners_never_mixed (naming : Naming) (self : ModelId) :
    (∀ e : Expr K, (Quantity.expr e).Formed → (∀ v ∈ e.allVariables, e.owner = some v.model)
      ∧ (∀ u ∈ e.allParameters, e.owner = some u.model) ∧ ∀ n, e.normalized = .ok n → e.Collects n) ∧
    (∀ c : Constraint K B, c.Formed → (∀ v ∈ c.body.allVariables, c.owner = some v.model)
      ∧ ∀ u ∈ c.body.allParameters, c.owner = some u.model) ∧
    (∀ (a b : Expr K) (i j : ModelId), i ≠ j → a.owner = some i → b.owner = some j →
      MixesOwners naming ((Quantity.expr a).add (.expr b)) ∧ MixesOwners naming ((Quantity.expr a).sub (.expr b))
        ∧ ∀ r, MixesOwners naming (Quantity.compare r (.expr a) (.expr b) : Except _ (Option (Constraint K B)))) ∧
    (∀ (m : Model K B) (c : Model.Call K B) (e : Expr K), c.Formed → c.offer = some e → ¬e.Within self →
      ∃ err, (c.edit naming self).run m = (.error err, m)) ∧
    ∀ m : Model K B, (m.Reached self fun _ c => c.Formed) → ∀ e ∈ m.held, e.Within self := by
  refine ⟨fun e he => ?_, fun c hc => hc.body.owner_eq, fun a b i j hij ha hb => ?_,
    fun m c e hc he hforeign => Model.Call.refuses_foreign naming m hc he hforeign, fun m hm => hm.owns_held⟩
  · obtain ⟨hvariables, hparameters⟩ := he.owner_eq
    obtain ⟨m, hm⟩ := Expr.Attributed.exists_within he.attributed
    exact ⟨hvariables, hparameters, fun n hn => hm.collects hn⟩
  · exact ⟨⟨_, Quantity.add_of_owners hij ha hb, rfl⟩, ⟨_, Quantity.sub_of_owners hij ha hb, rfl⟩,
      fun r => ⟨_, Quantity.compare_of_owners r hij ha hb, rfl⟩⟩

/-- The first variables of two models, and the first parameter of one of them. The model holds the constraint that is made of its
own symbols, but not the one of the other variable, and the two variables have no sum. -/
theorem owners_never_mixed_two_models : ∃ (naming : Naming) (s : Expr Rat) (c c' : Constraint Rat ExtRat) (m : Model Rat ExtRat),
    (Quantity.expr (.ofVariable ⟨0, 0⟩)).add (.expr (.ofParameter ⟨0, 0⟩)) = .ok (.expr s)
    ∧ (∀ u ∈ s.allParameters, s.owner = some u.model) ∧ (∀ n, s.normalized = .ok n → s.Collects n)
    ∧ MixesOwners naming ((Quantity.expr s).add (.expr (.ofVariable ⟨1, 0⟩)))
    ∧ Quantity.compare .atMost (.expr s) (.expr (.ofVariable ⟨0, 1⟩)) = .ok (some c)
    ∧ (∀ v ∈ c.body.allVariables, c.owner = some v.model)
    ∧ Constraint.between none (.ofVariable ⟨1, 0⟩ : Expr Rat) (some (ExtRat.finite 1)) = .ok c'
    ∧ (∃ err, ((Model.Call.addConstraint (.constraint c') none).edit naming 0).run m = (.error err, m))
    ∧ m.uncertain = [(c, none)] ∧ ∀ e ∈ m.held, e.Within 0 := by
  let naming : Naming := Catalog.naming ([] : Catalog Rat ExtRat)
  obtain ⟨hexpr, hconstraint, hmixed, hforeign, hheld⟩ := owners_never_mixed (K := Rat) (B := ExtRat) naming 0
  have hsum : (Quantity.expr _ : Quantity Rat).Formed := .add (.ofVariable ⟨0, 0⟩) (.ofParameter ⟨0, 0⟩) rfl
  have hown : Constraint.Formed _ := .compare (r := .atMost) (B := ExtRat) hsum (.ofVariable ⟨0, 1⟩) rfl
  have hbetween : Constraint.between none (.ofVariable ⟨1, 0⟩ : Expr Rat) (some (ExtRat.finite 1)) = .ok _ := rfl
  have hother : Constraint.Formed _ := .between (.ofVariable ⟨1, 0⟩) hbetween
  have hreached : Model.Reached 0 (fun _ c => c.Formed) _ :=
    .call naming (.addConstraint (.constraint _) none) (.start "m" true 0) hown
  obtain ⟨-, hparameters, hcollects⟩ := hexpr _ hsum
  obtain ⟨hvariables, -⟩ := hconstraint _ hown
  have hrefused := fun m =>
    hforeign m (.addConstraint (.constraint _) none) _ hother rfl fun h => Nat.one_ne_zero (h _ List.mem_cons_self)
  exact ⟨naming, _, _, _, _, rfl, hparameters, hcollects, (hmixed _ _ 0 1 Nat.zero_ne_one rfl rfl).1, rfl, hvariables, rfl,
    hrefused _, rfl, hheld _ hreached⟩

end

end RobustLP
