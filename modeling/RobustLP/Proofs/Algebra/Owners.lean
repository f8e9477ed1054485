import RobustLP.Constraint
import RobustLP.Proofs.Algebra.Normal
import RobustLP.Proofs.Algebra.Operators

/-!
# Owners of expressions

An expression notes the model of its symbols, and only this note is looked at when symbols are combined or a constraint is added
to a model. The note can be trusted: every symbol that occurs in an expression that the operations of the library have formed
belongs to the model that is noted (`Quantity.Formed.attributed`). The note of a sum or product is the common one of its operands
(`joinOwners`), everything else hands on the note of its operand and adds no symbol. A full form notes its owner twice, for itself
and for its constant, and so may its coefficients; all of these notes are right.
-/

namespace RobustLP

/-- The model that `o` notes, if any, is noted by `o'`. -/
def Retains (o o' : Option ModelId) : Prop := ∀ m, o = some m → o' = some m

/-- The common owner of two operands is that of each. -/
theorem retains_of_join {K : Type} {a b o : Option ModelId} (h : joinOwners (K := K) a b = .ok o) : Retains a o ∧ Retains b o := by
  cases a with
  | none =>
    unfold joinOwners at h
    obtain rfl := Except.ok.inj h
    exact ⟨fun _ hm => (nomatch hm), fun _ hm => hm⟩
  | some i =>
    cases b with
    | none =>
      obtain rfl := Except.ok.inj h
      exact ⟨fun _ hm => hm, fun _ hm => nomatch hm⟩
    | some j =>
      unfold joinOwners at h
      dsimp only at h
      split at h
      next hij =>
        obtain rfl := Except.ok.inj h
        subst hij
        exact ⟨fun _ hm => hm, fun _ hm => hm⟩
      next => cases h

/-- An owner that is found by going through a list retains what each step found. -/
theorem retains_of_foldlM {K α : Type} {f : Option ModelId → α → Except (ExprError K) (Option ModelId)}
    (owners : α → List (Option ModelId))
    (hf : ∀ o o' a, f o a = .ok o' → Retains o o' ∧ ∀ i ∈ owners a, Retains i o') : ∀ {l : List α} {o o' : Option ModelId},
      l.foldlM f o = .ok o' → Retains o o' ∧ ∀ a ∈ l, ∀ i ∈ owners a, Retains i o'
  | [], o, o', h => by
    cases h
    exact ⟨fun _ hm => hm, List.forall_mem_nil _⟩
  | a :: l, o, o', h => by
    obtain ⟨o₁, hfirst, hrest⟩ := bind_eq_ok.mp h
    obtain ⟨hkeeps, hall⟩ := retains_of_foldlM owners hf hrest
    obtain ⟨hstart, hsymbol⟩ := hf o o₁ a hfirst
    refine ⟨fun m hm => hkeeps m (hstart m hm), List.forall_mem_cons.mpr ⟨fun i hi m hm => ?_, hall⟩⟩
    exact hkeeps m (hsymbol i hi m hm)

section

variable {S K B : Type} [Symbol S]

/-! ## Affine forms -/

namespace Affine

/-- All symbols belong to the model `o`. -/
def Of (o : Option ModelId) (e : Affine S K) : Prop := ∀ t ∈ e.terms, o = some (Symbol.model t.1)

variable {o o' : Option ModelId} {e n a b : Affine S K}

theorem Of.mono (h : e.Of o) (ho : Retains o o') : e.Of o' := fun t ht => ho _ (h t ht)

/-- Other coefficients do not change the symbols. -/
theorem Of.of_terms {L : Type} {f : Affine S L} (h : e.Of o) (hf : ∀ t ∈ f.terms, ∃ c, (t.1, c) ∈ e.terms) : f.Of o := by
  intro t ht
  obtain ⟨c, hc⟩ := hf t ht
  exact h _ hc

theorem of_nil {c : K} {parts : Option (List K)} {owner : Option ModelId} :
    ({ terms := [], constant := c, parts, owner } : Affine S K).Of o := List.forall_mem_nil _

variable [Scalar K B]

omit [Symbol S] in
theorem terms_addConstant (e : Affine S K) (c : K) : (e.addConstant c).terms = e.terms := by
  unfold addConstant
  split <;> rfl

omit [Symbol S] in
theorem owner_addConstant (e : Affine S K) (c : K) : (e.addConstant c).owner = e.owner := by
  unfold addConstant
  split <;> rfl

theorem Of.addConstant (h : e.Of o) (c : K) : (e.addConstant c).Of o := by
  unfold Of
  rw [terms_addConstant]
  exact h

theorem Of.scale (h : e.Of o) (c : K) : (e.scale c).Of o := h.of_terms fun t ht => by
  obtain ⟨s, hs, rfl⟩ := List.mem_map.mp ht
  exact ⟨s.2, hs⟩

theorem Of.concat (ha : a.Of o) (hb : b.Of o) (owner : Option ModelId) : (a.concat b owner).Of o :=
  List.forall_mem_append.mpr ⟨ha, hb⟩

/-- Terms that are brought together have the symbols they had before. -/
theorem exists_mem_of_mem_collapse {terms sums : List (S × K)} (h : collapse terms = .ok sums) {t : S × K} (ht : t ∈ sums) :
    ∃ c, (t.1, c) ∈ terms := by
  obtain ⟨all, hall, hsums⟩ := bind_eq_ok.mp h
  cases hsums
  obtain ⟨p, hp, hpt⟩ := exists_left_of_forall₂ (mapM_eq_ok_iff.mp hall) (List.mem_filter.mp ht).1
  obtain ⟨c, -, hpt⟩ := bind_eq_ok.mp hpt
  cases hpt
  exact exists_mem_of_mem_gather Symbol.index hp

theorem exists_mem_of_mem_normalized (h : e.normalized = .ok n) {t : S × K} (ht : t ∈ n.terms) : ∃ c, (t.1, c) ∈ e.terms := by
  obtain ⟨terms, hterms, h⟩ := bind_eq_ok.mp h
  obtain ⟨c, -, h⟩ := bind_eq_ok.mp h
  cases h
  exact exists_mem_of_mem_collapse hterms ht

theorem Of.normalized (he : e.Of o) (h : e.normalized = .ok n) : n.Of o :=
  he.of_terms fun _ ht => exists_mem_of_mem_normalized h ht

theorem owner_normalized (h : e.normalized = .ok n) : n.owner = e.owner := by
  obtain ⟨terms, -, h⟩ := bind_eq_ok.mp h
  obtain ⟨c, -, h⟩ := bind_eq_ok.mp h
  cases h
  rfl

omit [Symbol S] in
theorem splitConstant_eq {c : K} (h : e.splitConstant = .ok (b, c)) :
    b = { terms := e.terms, constant := Scalar.zero, owner := e.owner } := by
  obtain ⟨d, -, h⟩ := bind_eq_ok.mp h
  cases h
  rfl

/-- Every symbol belongs to the model that is noted. -/
def Attributed (e : Affine S K) : Prop := e.Of e.owner

theorem Attributed.addConstant (h : e.Attributed) (c : K) : (e.addConstant c).Attributed := by
  unfold Attributed
  rw [owner_addConstant]
  exact Of.addConstant h c

theorem Attributed.scale (h : e.Attributed) (c : K) : (e.scale c).Attributed := Of.scale h c

theorem Attributed.concat {owner : Option ModelId} (ha : a.Attributed) (hb : b.Attributed)
    (h : joinOwners (K := K) a.owner b.owner = .ok owner) : (a.concat b owner).Attributed :=
  Of.concat (ha.mono (retains_of_join h).1) (hb.mono (retains_of_join h).2) owner

theorem Attributed.normalized (he : e.Attributed) (h : e.normalized = .ok n) : n.Attributed := by
  unfold Attributed
  rw [owner_normalized h]
  exact Of.normalized he h

/-- The symbols that a form is made of have one owner. -/
theorem attributed_ofTerms {c : K} {terms : List (S × K)} (h : ofTerms c terms = .ok e) : e.Attributed := by
  obtain ⟨owner, howner, h⟩ := bind_eq_ok.mp h
  cases h
  obtain ⟨-, hall⟩ := retains_of_foldlM (fun t : S × K => [some (Symbol.model t.1)])
    (fun o o' t h => (retains_of_join h).imp_right List.forall_mem_singleton.mpr) howner
  exact fun t ht => hall t ht _ (List.mem_singleton_self _) _ rfl

/-- A form that stands in a full form of the owner `o`. -/
structure PartOf (o : Option ModelId) (e : Affine S K) : Prop where
  attributed : e.Attributed
  whole : e.Of o

theorem PartOf.mono (h : e.PartOf o) (ho : Retains o o') : e.PartOf o' := ⟨h.attributed, h.whole.mono ho⟩

theorem PartOf.addConstant (h : e.PartOf o) (c : K) : (e.addConstant c).PartOf o :=
  ⟨h.attributed.addConstant c, h.whole.addConstant c⟩

theorem PartOf.scale (h : e.PartOf o) (c : K) : (e.scale c).PartOf o := ⟨h.attributed.scale c, h.whole.scale c⟩

theorem PartOf.normalized (he : e.PartOf o) (h : e.normalized = .ok n) : n.PartOf o :=
  ⟨he.attributed.normalized h, he.whole.normalized h⟩

end Affine

end

variable {K B : Type} [Scalar K B]

/-! ## Full forms -/

namespace Full

/-- Every symbol belongs to the model that is noted, and so do the symbols of each part for its own note. -/
structure Attributed (e : Full K) : Prop where
  decisions : ∀ t ∈ e.terms, e.owner = some t.1.model
  coefficients : ∀ t ∈ e.terms, t.2.PartOf e.owner
  constant : e.constant.PartOf e.owner

variable {e n a b s : Full K}

theorem Attributed.addConstant (h : e.Attributed) (c : K) : (e.addConstant c).Attributed :=
  ⟨h.decisions, h.coefficients, h.constant.addConstant c⟩

theorem Attributed.scale (h : e.Attributed) (c : K) : (e.scale c).Attributed where
  decisions := List.forall_mem_map.mpr h.decisions
  coefficients := List.forall_mem_map.mpr fun t ht => (h.coefficients t ht).scale c
  constant := h.constant.scale c

theorem Attributed.concat {owner : Option ModelId} (ha : a.Attributed) (hb : b.Attributed)
    (howner : joinOwners (K := K) a.owner b.owner = .ok owner) (h : a.concat b owner = .ok s) : s.Attributed := by
  obtain ⟨inner, hinner, h⟩ := bind_eq_ok.mp h
  cases h
  -- the owner of the sum is that of both forms; the constant notes the common owner of the two constants
  obtain ⟨hleft, hright⟩ := retains_of_join howner
  exact {
    decisions := List.forall_mem_append.mpr
      ⟨fun t ht => hleft _ (ha.decisions t ht), fun t ht => hright _ (hb.decisions t ht)⟩
    coefficients := List.forall_mem_append.mpr
      ⟨fun t ht => (ha.coefficients t ht).mono hleft, fun t ht => (hb.coefficients t ht).mono hright⟩
    constant := ⟨ha.constant.attributed.concat hb.constant.attributed hinner,
      (ha.constant.whole.mono hleft).concat (hb.constant.whole.mono hright) inner⟩ }

/-- Coefficient forms that are summed stand in the form whose owner the sum notes. -/
theorem partOf_sumForms {o : Option ModelId} {forms : List (Affine Parameter K)} {f : Affine Parameter K}
    (h : sumForms o forms = .ok f) (hforms : ∀ g ∈ forms, g.PartOf o) : f.PartOf o := by
  have hterms : ∀ t ∈ forms.flatMap (·.terms), o = some t.1.model := by
    intro t ht
    obtain ⟨g, hg, ht⟩ := List.mem_flatMap.mp ht
    exact (hforms g hg).whole t ht
  refine Affine.PartOf.normalized ⟨?_, ?_⟩ h
  · exact hterms
  · exact hterms

theorem Attributed.normalized (he : e.Attributed) (h : e.normalized = .ok n) : n.Attributed := by
  obtain ⟨sums, hsums, h⟩ := bind_eq_ok.mp h
  obtain ⟨constant, hconstant, h⟩ := bind_eq_ok.mp h
  cases h
  have hterm : ∀ t ∈ sums, e.owner = some t.1.model ∧ t.2.PartOf e.owner := by
    intro t ht
    -- each sum goes back to the forms that stood with its variable
    obtain ⟨p, hp, hpt⟩ := exists_left_of_forall₂ (mapM_eq_ok_iff.mp hsums) ht
    obtain ⟨f, hf, hpt⟩ := bind_eq_ok.mp hpt
    cases hpt
    obtain ⟨g, hg⟩ := exists_mem_of_mem_gather Variable.index hp
    refine ⟨he.decisions (p.1, g) hg, partOf_sumForms hf fun g' hg' => ?_⟩
    obtain ⟨v, hv⟩ := exists_mem_of_mem_gathered Variable.index hg' hp
    exact he.coefficients (v, g') hv
  exact {
    decisions := fun t ht => (hterm t (List.mem_filter.mp ht).1).1
    coefficients := fun t ht => (hterm t (List.mem_filter.mp ht).1).2
    constant := he.constant.normalized hconstant }

theorem owner_normalized (h : e.normalized = .ok n) : n.owner = e.owner := by
  obtain ⟨sums, -, h⟩ := bind_eq_ok.mp h
  obtain ⟨constant, -, h⟩ := bind_eq_ok.mp h
  cases h
  rfl

theorem exists_mem_of_mem_normalized (h : e.normalized = .ok n) {t : Variable × Affine Parameter K} (ht : t ∈ n.terms) :
    ∃ f, (t.1, f) ∈ e.terms := by
  obtain ⟨sums, hsums, h⟩ := bind_eq_ok.mp h
  obtain ⟨constant, -, h⟩ := bind_eq_ok.mp h
  cases h
  obtain ⟨p, hp, hpt⟩ := exists_left_of_forall₂ (mapM_eq_ok_iff.mp hsums) (List.mem_filter.mp ht).1
  obtain ⟨f, -, hpt⟩ := bind_eq_ok.mp hpt
  cases hpt
  exact exists_mem_of_mem_gather Variable.index hp

theorem splitConstant_eq {c : K} (h : e.splitConstant = .ok (b, c)) :
    b = { e with constant := { terms := e.constant.terms, constant := Scalar.zero, owner := e.constant.owner } } := by
  obtain ⟨d, -, h⟩ := bind_eq_ok.mp h
  cases h
  rfl

theorem Attributed.specialize (he : e.Attributed) {value : Parameter → Except Fault K} {l : Affine Variable K}
    (h : e.specialize value = .ok l) : l.Attributed := by
  obtain ⟨terms, hterms, h⟩ := bind_eq_ok.mp h
  obtain ⟨constant, -, h⟩ := bind_eq_ok.mp h
  cases h
  intro t ht
  obtain ⟨s, hs, hst⟩ := exists_left_of_forall₂ (mapM_eq_ok_iff.mp hterms) ht
  obtain ⟨c, -, hst⟩ := bind_eq_ok.mp hst
  cases hst
  exact he.decisions s hs

/-- A full form is made of variables, coefficients and a constant of one owner. -/
theorem attributed_ofTerms {terms : List (Variable × Affine Parameter K)} {constant : Affine Parameter K}
    (h : ofTerms terms constant = .ok e) (hterms : ∀ t ∈ terms, t.2.Attributed) (hconstant : constant.Attributed) :
    e.Attributed := by
  obtain ⟨owner, howner, h⟩ := bind_eq_ok.mp h
  cases h
  have hstep : ∀ (o o' : Option ModelId) (t : Variable × Affine Parameter K),
      (do joinOwners (K := K) (← joinOwners o (some t.1.model)) t.2.owner) = .ok o' →
        Retains o o' ∧ ∀ i ∈ [some t.1.model, t.2.owner], Retains i o' := by
    intro o o' t h
    obtain ⟨o₁, hvariable, hcoefficient⟩ := bind_eq_ok.mp h
    obtain ⟨hstart, hmodel⟩ := retains_of_join hvariable
    obtain ⟨hrest, howner⟩ := retains_of_join hcoefficient
    exact ⟨fun m hm => hrest m (hstart m hm),
      List.forall_mem_cons.mpr ⟨fun m hm => hrest m (hmodel m hm), List.forall_mem_singleton.mpr howner⟩⟩
  obtain ⟨hstart, hall⟩ := retains_of_foldlM (fun t => [some t.1.model, t.2.owner]) hstep howner
  exact {
    decisions := fun t ht => hall t ht _ List.mem_cons_self _ rfl
    coefficients := fun t ht => ⟨hterms t ht, (hterms t ht).mono (hall t ht _ (List.mem_cons_of_mem _ List.mem_cons_self))⟩
    constant := ⟨hconstant, hconstant.mono hstart⟩ }

end Full

/-! ## Expressions -/

namespace Expr

/-- The variables that occur. -/
def allVariables : Expr K → List Variable
  | linear e => e.terms.map (·.1)
  | uncertain _ => []
  | full e => e.terms.map (·.1)

/-- The parameters that occur. -/
def allParameters : Expr K → List Parameter
  | linear _ => []
  | uncertain e => e.terms.map (·.1)
  | full e => (e.constant :: e.terms.map (·.2)).flatMap fun f => f.terms.map (·.1)

/-- Every symbol belongs to the model that is noted. -/
def Attributed : Expr K → Prop
  | linear e => e.Attributed
  | uncertain e => e.Attributed
  | full e => e.Attributed

variable {a b e n s : Expr K}

theorem Attributed.owner_of_variable (h : e.Attributed) {v : Variable} (hv : v ∈ e.allVariables) : e.owner = some v.model := by
  cases e with
  | linear e =>
    obtain ⟨t, ht, rfl⟩ := List.mem_map.mp hv
    exact h t ht
  | uncertain e => cases hv
  | full e =>
    obtain ⟨t, ht, rfl⟩ := List.mem_map.mp hv
    exact Full.Attributed.decisions h t ht

theorem Attributed.owner_of_parameter (h : e.Attributed) {u : Parameter} (hu : u ∈ e.allParameters) : e.owner = some u.model := by
  cases e with
  | linear e => cases hu
  | uncertain e =>
    obtain ⟨t, ht, rfl⟩ := List.mem_map.mp hu
    exact h t ht
  | full e =>
    have h : e.Attributed := h
    obtain ⟨f, hf, hu⟩ := List.mem_flatMap.mp hu
    obtain ⟨t, ht, rfl⟩ := List.mem_map.mp hu
    rcases List.mem_cons.mp hf with rfl | hf
    · exact h.constant.whole t ht
    · obtain ⟨s, hs, rfl⟩ := List.mem_map.mp hf
      exact (h.coefficients s hs).whole t ht

theorem Attributed.toFull (h : e.Attributed) : e.toFull.Attributed := by
  cases e with
  | linear e => exact {
      decisions := List.forall_mem_map.mpr h
      coefficients := List.forall_mem_map.mpr fun t _ => ⟨Affine.of_nil, Affine.of_nil⟩
      constant := ⟨Affine.of_nil, Affine.of_nil⟩ }
  | uncertain e => exact ⟨List.forall_mem_nil _, List.forall_mem_nil _, h, h⟩
  | full e => exact h

theorem owner_toFull (e : Expr K) : e.toFull.owner = e.owner := by
  cases e <;> rfl

theorem Attributed.addConstant (h : e.Attributed) (c : K) : (e.addConstant c).Attributed := by
  cases e with
  | linear e => exact Affine.Attributed.addConstant h c
  | uncertain e => exact Affine.Attributed.addConstant h c
  | full e => exact Full.Attributed.addConstant h c

theorem Attributed.scale (h : e.Attributed) (c : K) : (e.scale c).Attributed := by
  cases e with
  | linear e => exact Affine.Attributed.scale h c
  | uncertain e => exact Affine.Attributed.scale h c
  | full e => exact Full.Attributed.scale h c

theorem Attributed.add (ha : a.Attributed) (hb : b.Attributed) (h : a.add b = .ok s) : s.Attributed := by
  obtain ⟨owner, howner, ⟨a, b, rfl, rfl, rfl⟩ | ⟨a, b, rfl, rfl, rfl⟩ | ⟨-, f, hf, rfl⟩⟩ := add_cases h
  · exact Affine.Attributed.concat ha hb howner
  · exact Affine.Attributed.concat ha hb howner
  · -- operands of different kinds are added as full forms, which note the same owners
    rw [← owner_toFull a, ← owner_toFull b] at howner
    exact ha.toFull.concat hb.toFull howner hf

theorem Attributed.normalized (he : e.Attributed) (h : e.normalized = .ok n) : n.Attributed := by
  obtain ⟨f, g, rfl, rfl, hg⟩ | ⟨f, g, rfl, rfl, hg⟩ | ⟨f, g, rfl, rfl, hg⟩ := normalized_cases h
  · exact Affine.Attributed.normalized he hg
  · exact Affine.Attributed.normalized he hg
  · exact Full.Attributed.normalized he hg

theorem Attributed.splitConstant {c : K} (he : e.Attributed) (h : e.splitConstant = .ok (b, c)) : b.Attributed := by
  cases e with
  | linear e =>
    obtain ⟨⟨f, d⟩, hf, h⟩ := bind_eq_ok.mp h
    cases h
    rw [Affine.splitConstant_eq hf]
    exact he
  | uncertain e =>
    obtain ⟨⟨f, d⟩, hf, h⟩ := bind_eq_ok.mp h
    cases h
    rw [Affine.splitConstant_eq hf]
    exact he
  | full e =>
    have he : e.Attributed := he
    obtain ⟨⟨f, d⟩, hf, h⟩ := bind_eq_ok.mp h
    cases h
    rw [Full.splitConstant_eq hf]
    exact ⟨he.decisions, he.coefficients, he.constant.attributed, he.constant.whole⟩

end Expr

/-! ## Quantities -/

namespace Quantity

/-- Every symbol belongs to the model that is noted. -/
def Attributed : Quantity K → Prop
  | number _ => True
  | expr e => e.Attributed

variable {a b q s : Quantity K}

theorem Attributed.scale (h : q.Attributed) (c : K) : (q.scale c).Attributed := by
  cases q with
  | number d => trivial
  | expr e => exact Expr.Attributed.scale h c

theorem Attributed.add (ha : a.Attributed) (hb : b.Attributed) (h : a.add b = .ok s) : s.Attributed := by
  cases a with
  | number c =>
    cases b with
    | number d =>
      cases h
      trivial
    | expr f =>
      cases h
      exact Expr.Attributed.addConstant hb c
  | expr e =>
    cases b with
    | number d =>
      cases h
      exact Expr.Attributed.addConstant ha d
    | expr f =>
      obtain ⟨g, hg, h⟩ := bind_eq_ok.mp h
      cases h
      exact Expr.Attributed.add ha hb hg

/-- A quantity that an expression of the owner `o` is reduced to. -/
def PartOf (o : Option ModelId) : Quantity K → Prop
  | number _ => True
  | expr (.linear e) => e.PartOf o
  | expr (.uncertain e) => e.PartOf o
  | expr (.full e) => e.Attributed

theorem PartOf.attributed {o : Option ModelId} (h : q.PartOf o) : q.Attributed := by
  rcases q with - | (e | e | e)
  · trivial
  · exact Affine.PartOf.attributed h
  · exact Affine.PartOf.attributed h
  · exact h

/-- The simplest kind of a normal form has no other symbols. -/
theorem partOf_simplest {n : Full K} (h : n.Attributed) : n.simplest.PartOf n.owner := by
  rcases n.simplest_cases with heq | ⟨-, heq⟩ | ⟨-, -, heq⟩ | heq <;> rw [heq]
  · trivial
  · exact h.constant
  · have hall : ∀ t ∈ n.terms.map fun t => (t.1, t.2.constant), n.owner = some (Symbol.model t.1) :=
      List.forall_mem_map.mpr h.decisions
    refine Affine.PartOf.mk ?_ ?_
    · exact hall
    · exact hall
  · exact h

theorem partOf_reduce {e : Expr K} (he : e.Attributed) (h : e.reduce = .ok q) : q.PartOf e.owner := by
  obtain ⟨e, n, rfl, hn, rfl⟩ | ⟨e, n, rfl, hn, rfl⟩ | ⟨e, n, rfl, hn, rfl⟩ := Expr.reduce_cases h
  · split
    next => trivial
    next => exact Affine.PartOf.normalized ⟨he, he⟩ hn
  · split
    next => trivial
    next => exact Affine.PartOf.normalized ⟨he, he⟩ hn
  · have howner : (Expr.full e).owner = n.owner := (Full.owner_normalized hn).symm
    rw [howner]
    exact partOf_simplest (Full.Attributed.normalized he hn)

theorem attributed_cross {u : Affine Parameter K} {l : Affine Variable K} {o : Option ModelId} (hu : u.PartOf o)
    (hl : l.Of o) : (cross u l o).Attributed where
  decisions := List.forall_mem_map.mpr hl
  coefficients := List.forall_mem_map.mpr fun t _ => hu.scale t.2
  constant := hu.scale l.constant

theorem liftFault_eq_ok {α : Type} {r : Except Fault α} {x : α} : (liftFault r : Except (ExprError K) α) = .ok x ↔ r = .ok x := by
  cases r with
  | ok y => exact ⟨fun h => congrArg Except.ok (Except.ok.inj h), fun h => congrArg Except.ok (Except.ok.inj h)⟩
  | error f => exact ⟨fun h => (nomatch h), fun h => (nomatch h)⟩

theorem attributed_mulExpr {a b : Expr K} (ha : a.Attributed) (hb : b.Attributed) (h : mulExpr a b = .ok s) :
    s.Attributed := by
  obtain ⟨ra, hra, h⟩ := bind_eq_ok.mp h
  have hra : ra.PartOf a.owner := partOf_reduce ha (liftFault_eq_ok.mp hra)
  rcases ra with x | ra
  · cases h
    exact hb.scale x
  · obtain ⟨rb, hrb, h⟩ := bind_eq_ok.mp h
    have hrb : rb.PartOf b.owner := partOf_reduce hb (liftFault_eq_ok.mp hrb)
    rcases rb with y | rb
    · cases h
      exact ha.scale y
    · obtain ⟨owner, howner, h⟩ := bind_eq_ok.mp h
      obtain ⟨hleft, hright⟩ := retains_of_join howner
      split at h
      next u l =>
        cases h
        exact attributed_cross (hra.mono hleft) (hrb.whole.mono hright)
      next l u =>
        cases h
        exact attributed_cross (hrb.mono hright) (hra.whole.mono hleft)
      next => cases h

theorem Attributed.mul (ha : a.Attributed) (hb : b.Attributed) (h : a.mul b = .ok s) : s.Attributed := by
  cases a with
  | number c =>
    cases b with
    | number d =>
      cases h
      trivial
    | expr f =>
      cases h
      exact Expr.Attributed.scale hb c
  | expr e =>
    cases b with
    | number d =>
      cases h
      exact Expr.Attributed.scale ha d
    | expr f => exact attributed_mulExpr ha hb h

theorem Attributed.div (ha : a.Attributed) (h : a.div b = .ok s) : s.Attributed := by
  obtain ⟨r, -, h⟩ := bind_eq_ok.mp h
  cases r with
  | expr e => cases h
  | number y =>
    dsimp only at h
    split at h
    next => cases h
    next =>
      cases a with
      | number x =>
        cases h
        trivial
      | expr e =>
        cases h
        exact Expr.Attributed.scale ha _

/-! ## What the operations form -/

/-- **The quantities that the operations of the library form** from symbols and numbers. -/
inductive Formed : Quantity K → Prop
  | number (c : K) : Formed (.number c)
  | ofVariable (v : Variable) : Formed (.expr (.ofVariable v))
  | ofParameter (u : Parameter) : Formed (.expr (.ofParameter u))
  | linear {c : K} {terms : List (Variable × K)} {e : Affine Variable K} : Affine.ofTerms c terms = .ok e →
    Formed (.expr (.linear e))
  | uncertain {c : K} {terms : List (Parameter × K)} {e : Affine Parameter K} : Affine.ofTerms c terms = .ok e →
    Formed (.expr (.uncertain e))
  | full {terms : List (Variable × Affine Parameter K)} {constant : Affine Parameter K} {e : Full K} :
    (∀ t ∈ terms, Formed (.expr (.uncertain t.2))) → Formed (.expr (.uncertain constant)) →
      Full.ofTerms terms constant = .ok e → Formed (.expr (.full e))
  | add {a b s : Quantity K} : Formed a → Formed b → a.add b = .ok s → Formed s
  | scale {a : Quantity K} (c : K) : Formed a → Formed (a.scale c)
  | mul {a b s : Quantity K} : Formed a → Formed b → a.mul b = .ok s → Formed s
  | div {a b s : Quantity K} : Formed a → Formed b → a.div b = .ok s → Formed s
  | normalized {e n : Expr K} : Formed (.expr e) → e.normalized = .ok n → Formed (.expr n)
  | splitConstant {e b : Expr K} {c : K} : Formed (.expr e) → e.splitConstant = .ok (b, c) → Formed (.expr b)
  | specialize {e : Full K} {value : Parameter → Except Fault K} {l : Affine Variable K} : Formed (.expr (.full e)) →
    e.specialize value = .ok l → Formed (.expr (.linear l))
  | coefficient {e : Full K} {t : Variable × Affine Parameter K} : Formed (.expr (.full e)) → t ∈ e.terms →
    Formed (.expr (.uncertain t.2))
  | constant {e : Full K} : Formed (.expr (.full e)) → Formed (.expr (.uncertain e.constant))

/-- **The note of an owner can be trusted:** every symbol of what the operations have formed belongs to the model that is noted. -/
theorem Formed.attributed (h : q.Formed) : q.Attributed := by
  induction h with
  | number c => trivial
  | ofVariable v => exact List.forall_mem_singleton.mpr rfl
  | ofParameter u => exact List.forall_mem_singleton.mpr rfl
  | linear h => exact Affine.attributed_ofTerms h
  | uncertain h => exact Affine.attributed_ofTerms h
  | full _ _ h ihterms ihconstant => exact Full.attributed_ofTerms h ihterms ihconstant
  | add _ _ h iha ihb => exact iha.add ihb h
  | scale c _ ih => exact ih.scale c
  | mul _ _ h iha ihb => exact iha.mul ihb h
  | div _ _ h iha _ => exact iha.div h
  | normalized _ h ih => exact Expr.Attributed.normalized ih h
  | splitConstant _ h ih => exact Expr.Attributed.splitConstant ih h
  | specialize _ h ih => exact Full.Attributed.specialize ih h
  | coefficient _ ht ih => exact (Full.Attributed.coefficients ih _ ht).attributed
  | constant _ ih => exact (Full.Attributed.constant ih).attributed

/-- The body of a constraint that bounds what was formed. -/
theorem Formed.of_between [Bound B] {lower upper : Option B} {e : Expr K} {c : Constraint K B} (he : (expr e).Formed)
    (h : Constraint.between lower e upper = .ok c) : (expr c.body).Formed := by
  obtain ⟨⟨body, d⟩, hsplit, h⟩ := bind_eq_ok.mp h
  cases h
  exact .splitConstant he hsplit

theorem Formed.of_compareExpr [Bound B] {r : Relation} {e : Expr K} {c : Constraint K B} (he : (expr e).Formed) (hb : b.Formed)
    (h : e.compare r b = .ok c) : (expr c.body).Formed := by
  obtain ⟨d, hd, h⟩ := bind_eq_ok.mp h
  have hd : d.Formed := .add he (.scale _ hb) hd
  cases d with
  | number x => cases h
  | expr d => exact of_between hd (liftFault_eq_ok.mp h)

/-- **The body of a constraint that compares what was formed** is formed, too. -/
theorem Formed.of_compare [Bound B] {r : Relation} {c : Constraint K B} (ha : a.Formed) (hb : b.Formed)
    (h : compare r a b = .ok (some c)) : (expr c.body).Formed := by
  cases a with
  | expr e =>
    obtain ⟨c', hc, h⟩ := bind_eq_ok.mp h
    cases h
    exact of_compareExpr ha hb hc
  | number x =>
    cases b with
    | expr f =>
      obtain ⟨c', hc, h⟩ := bind_eq_ok.mp h
      cases h
      exact of_compareExpr hb (.number x) hc
    | number y => cases h

end Quantity

end RobustLP
