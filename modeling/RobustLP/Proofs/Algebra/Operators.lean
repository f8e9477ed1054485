import RobustLP.Expr.Algebra
import RobustLP.Proofs.Expressions

/-!
# What the operators compute

The value of a quantity for given numbers of the variables and parameters (`Quantity.value`) is what evaluating it answers.
In exact arithmetic sums, opposites and multiples have the values that their names promise, and so has the product of a form
in the parameters and a form in the variables (`Full.value_cross`).

Operators bring in no numbers but those of the operands (`Expr.All`), and they refuse symbols of two models. `Quantity.Over m` says that a quantity has symbols of the model `m` at most: quantities
over one model are never refused for their owners, and operators stay over that model.
-/

namespace RobustLP

/-- **A sum** is formed of two affine forms of one kind, otherwise of the full forms. -/
theorem Expr.add_cases {K B : Type} [Scalar K B] {a b s : Expr K} (h : a.add b = .ok s) :
    ∃ owner, joinOwners (K := K) a.owner b.owner = .ok owner
      ∧ ((∃ a' b', a = linear a' ∧ b = linear b' ∧ s = linear (a'.concat b' owner))
        ∨ (∃ a' b', a = uncertain a' ∧ b = uncertain b' ∧ s = uncertain (a'.concat b' owner))
        ∨ (a.kind = b.kind → a.kind = .full) ∧ ∃ f, a.toFull.concat b.toFull owner = .ok f ∧ s = full f) := by
  obtain ⟨owner, howner, h⟩ := bind_eq_ok.mp h
  refine ⟨owner, howner, ?_⟩
  split at h
  next a b _ =>
    cases h
    exact .inl ⟨a, b, rfl, rfl, rfl⟩
  next a b _ =>
    cases h
    exact .inr (.inl ⟨a, b, rfl, rfl, rfl⟩)
  next hlinear huncertain =>
    obtain ⟨f, hf, hs⟩ := bind_eq_ok.mp h
    cases hs
    refine .inr (.inr ⟨fun hkind => ?_, f, hf, rfl⟩)
    cases a with
    | linear a =>
      cases b with
      | linear b => exact (hlinear a b rfl rfl).elim
      | uncertain b => cases hkind
      | full b => cases hkind
    | uncertain a =>
      cases b with
      | linear b => cases hkind
      | uncertain b => exact (huncertain a b rfl rfl).elim
      | full b => cases hkind
    | full a => rfl

/-! ## Values -/

namespace Affine

variable {S : Type} [Symbol S] (v : Nat → Rat)

theorem value_eq_of_parts_none {e : Affine S Rat} (h : e.parts = none) :
    e.value v = (e.terms.map fun t => t.2 * v (Symbol.index t.1)).sum + e.constant := by
  rw [value, constantParts, h, List.sum_singleton]

@[simp] theorem value_ofConstant (c : Rat) : (ofConstant c : Affine S Rat).value v = c := by
  rw [value_eq_of_parts_none v rfl, ofConstant, List.map_nil, List.sum_nil, zero_add]

@[simp] theorem value_ofSymbol (s : S) : (ofSymbol s : Affine S Rat).value v = v (Symbol.index s) := by
  rw [value_eq_of_parts_none v rfl, ofSymbol, List.map_singleton, List.sum_singleton, exact_one, exact_zero, one_mul,
    add_zero]

@[simp] theorem value_concat (a b : Affine S Rat) (owner : Option ModelId) :
    (a.concat b owner).value v = a.value v + b.value v := by
  have hparts : (a.concat b owner).constantParts = a.constantParts ++ b.constantParts := rfl
  rw [value, hparts, concat, List.map_append, List.sum_append, List.sum_append, value, value]
  ring

@[simp] theorem value_addConstant (e : Affine S Rat) (c : Rat) : (e.addConstant c).value v = e.value v + c := by
  unfold addConstant
  split
  next hzero => rw [isZero_iff.mp hzero, add_zero]
  next =>
    have hparts (d : Rat) : ({ e with constant := d, parts := some (e.constantParts ++ [c]) } : Affine S Rat).constantParts
        = e.constantParts ++ [c] := rfl
    rw [value, hparts, List.sum_append, List.sum_singleton, ← add_assoc, value]

omit [Symbol S] in
theorem constantParts_scale {K B : Type} [Scalar K B] (e : Affine S K) (c : K) :
    (e.scale c).constantParts = e.constantParts.map (· * c) := by
  unfold scale constantParts
  cases e.parts with
  | none => rfl
  | some parts => rfl

@[simp] theorem value_scale (e : Affine S Rat) (c : Rat) : (e.scale c).value v = e.value v * c := by
  have hparts : (e.constantParts.map (· * c)).sum = e.constantParts.sum * c := by
    rw [List.sum_map_mul_right, List.map_id']
  rw [value, constantParts_scale, hparts, scale, List.map_map, value, add_mul, ← List.sum_map_mul_right]
  simp only [Function.comp_def, mul_right_comm]

end Affine

namespace Full

variable (x u : Nat → Rat)

@[simp] theorem value_addConstant (e : Full Rat) (c : Rat) : (e.addConstant c).value x u = e.value x u + c := by
  rw [value, addConstant, Affine.value_addConstant, ← add_assoc, value]

@[simp] theorem value_scale (e : Full Rat) (c : Rat) : (e.scale c).value x u = e.value x u * c := by
  rw [value, scale, List.map_map, Affine.value_scale, value, add_mul, ← List.sum_map_mul_right]
  simp only [Function.comp_def, Affine.value_scale, mul_right_comm]

theorem value_of_concat {a b s : Full Rat} {owner : Option ModelId} (h : a.concat b owner = .ok s) :
    s.value x u = a.value x u + b.value x u := by
  obtain ⟨o, -, hs⟩ := bind_eq_ok.mp h
  cases hs
  rw [value, List.map_append, List.sum_append, Affine.value_concat, value, value]
  ring

/-- A form in the parameters times a normal form in the variables. -/
theorem value_cross (f : Affine Parameter Rat) {l : Affine Variable Rat} (hl : l.parts = none) (owner : Option ModelId) :
    (Quantity.cross f l owner).value x u = f.value u * l.value x := by
  rw [value, Quantity.cross, List.map_map, Affine.value_scale, Affine.value_eq_of_parts_none x hl, mul_add,
    ← List.sum_map_mul_left]
  simp only [Function.comp_def, Affine.value_scale, mul_assoc]
  rfl

end Full

namespace Expr

variable (x u : Nat → Rat)

@[simp] theorem value_ofVariable (v : Variable) : (ofVariable v).value x u = x v.index := Affine.value_ofSymbol x v

@[simp] theorem value_ofParameter (k : Parameter) : (ofParameter k).value x u = u k.index := Affine.value_ofSymbol u k

theorem value_toFull (e : Expr Rat) : e.toFull.value x u = e.value x u := by
  cases e with
  | linear e =>
    rw [toFull, Full.value, List.map_map, value, Affine.value]
    simp only [Function.comp_def, Affine.value_ofConstant]
    congr 1
    exact zero_add _
  | uncertain e => exact zero_add _
  | full e => rfl

@[simp] theorem value_addConstant (c : Rat) (e : Expr Rat) : (e.addConstant c).value x u = e.value x u + c := by
  cases e with
  | linear e => exact e.value_addConstant x c
  | uncertain e => exact e.value_addConstant u c
  | full e => exact e.value_addConstant x u c

@[simp] theorem value_scale (c : Rat) (e : Expr Rat) : (e.scale c).value x u = e.value x u * c := by
  cases e with
  | linear e => exact e.value_scale x c
  | uncertain e => exact e.value_scale u c
  | full e => exact e.value_scale x u c

theorem value_of_add {a b s : Expr Rat} (h : a.add b = .ok s) : s.value x u = a.value x u + b.value x u := by
  obtain ⟨owner, -, ⟨a, b, rfl, rfl, rfl⟩ | ⟨a, b, rfl, rfl, rfl⟩ | ⟨-, f, hf, rfl⟩⟩ := add_cases h
  · exact a.value_concat x b owner
  · exact a.value_concat u b owner
  · rw [value, Full.value_of_concat x u hf, value_toFull, value_toFull]

end Expr

namespace Quantity

variable (x u : Nat → Rat)

/-- The value for given numbers of the variables and parameters. -/
def value : Quantity Rat → Rat
  | number c => c
  | expr e => e.value x u

/-- **Evaluating answers the value.** -/
theorem evaluate_eq (q : Quantity Rat) : q.evaluate (fun k => .ok (u k.index)) (fun v => .ok (x v.index))
    = .ok (q.value x u) := by
  cases q with
  | number c => rfl
  | expr e =>
    have hall : ∀ (w : Nat → Rat) (ks : List Nat), ∀ k ∈ ks, ∃ a, Lookup.total w k = .ok a := fun w ks k _ => ⟨_, rfl⟩
    exact (Expr.evaluate_eq_ok_iff (U := .total u) (X := .total x)).mpr ⟨⟨hall x _, hall u _⟩, rfl⟩

@[simp] theorem value_scale (c : Rat) (q : Quantity Rat) : (q.scale c).value x u = q.value x u * c := by
  cases q with
  | number d => rfl
  | expr e => exact e.value_scale x u c

@[simp] theorem value_neg (q : Quantity Rat) : q.neg.value x u = -q.value x u := by
  rw [neg, value_scale, exact_minusOne, mul_neg_one]

theorem value_of_add {a b s : Quantity Rat} (h : a.add b = .ok s) : s.value x u = a.value x u + b.value x u := by
  cases a with
  | number c =>
    cases b with
    | number d =>
      cases h
      rfl
    | expr e =>
      cases h
      exact (e.value_addConstant x u c).trans (add_comm _ _)
  | expr e =>
    cases b with
    | number d =>
      cases h
      exact e.value_addConstant x u d
    | expr f =>
      obtain ⟨s, hs, h⟩ := bind_eq_ok.mp h
      cases h
      exact Expr.value_of_add x u hs

end Quantity

/-! ## Numbers -/

section

variable {S K B : Type} {p : K → Prop}

/-- All numbers of a form, those that its constant is the sum of included. -/
structure Affine.All (p : K → Prop) (e : Affine S K) : Prop where
  terms : ∀ t ∈ e.terms, p t.2
  parts : ∀ c ∈ e.constantParts, p c

/-- All numbers of a full form. -/
structure Full.All (p : K → Prop) (e : Full K) : Prop where
  terms : ∀ t ∈ e.terms, t.2.All p
  constant : e.constant.All p

/-- All numbers of an expression. -/
def Expr.All (p : K → Prop) : Expr K → Prop
  | linear e => e.All p
  | uncertain e => e.All p
  | full e => e.All p

/-- All numbers of a quantity. -/
def Quantity.All (p : K → Prop) : Quantity K → Prop
  | number c => p c
  | expr e => e.All p

namespace Affine

theorem all_ofConstant {c : K} (h : p c) : (ofConstant c : Affine S K).All p where
  terms _ ht := (List.not_mem_nil ht).elim
  parts _ hd := (List.mem_singleton.mp hd).symm ▸ h

variable [Scalar K B]

theorem all_concat {a b : Affine S K} (ha : a.All p) (hb : b.All p) (owner : Option ModelId) : (a.concat b owner).All p where
  terms := List.forall_mem_append.mpr ⟨ha.terms, hb.terms⟩
  parts := List.forall_mem_append.mpr ⟨ha.parts, hb.parts⟩

theorem all_addConstant {e : Affine S K} (he : e.All p) {c : K} (hc : p c) : (e.addConstant c).All p := by
  unfold addConstant
  split
  · exact he
  · exact ⟨he.terms, List.forall_mem_append.mpr ⟨he.parts, List.forall_mem_singleton.mpr hc⟩⟩

theorem all_scale {e : Affine S K} (he : e.All p) {c : K} (hc : ∀ x, p x → p (x * c)) : (e.scale c).All p where
  terms := List.forall_mem_map.mpr fun t ht => hc _ (he.terms t ht)
  parts := by
    rw [constantParts_scale]
    exact List.forall_mem_map.mpr fun x hx => hc x (he.parts x hx)

end Affine

namespace Expr

theorem All.toFull {e : Expr K} (h : e.All p) : e.toFull.All p := by
  cases e with
  | linear e =>
    have he : e.All p := h
    exact ⟨List.forall_mem_map.mpr fun t ht => Affine.all_ofConstant (he.terms t ht),
      fun t ht => (List.not_mem_nil ht).elim, he.parts⟩
  | uncertain e => exact ⟨fun t ht => (List.not_mem_nil ht).elim, h⟩
  | full e => exact h

variable [Scalar K B]

/-- A sum has no other numbers than its operands. -/
theorem All.add {a b s : Expr K} (ha : a.All p) (hb : b.All p) (h : a.add b = .ok s) : s.All p := by
  obtain ⟨owner, -, ⟨a, b, rfl, rfl, rfl⟩ | ⟨a, b, rfl, rfl, rfl⟩ | ⟨-, f, hf, rfl⟩⟩ := add_cases h
  · exact Affine.all_concat ha hb owner
  · exact Affine.all_concat ha hb owner
  · obtain ⟨inner, -, hf⟩ := bind_eq_ok.mp hf
    cases hf
    exact ⟨List.forall_mem_append.mpr ⟨ha.toFull.terms, hb.toFull.terms⟩,
      Affine.all_concat ha.toFull.constant hb.toFull.constant inner⟩

theorem All.addConstant {e : Expr K} (he : e.All p) {c : K} (hc : p c) : (e.addConstant c).All p := by
  cases e with
  | linear e => exact Affine.all_addConstant he hc
  | uncertain e => exact Affine.all_addConstant he hc
  | full e => exact ⟨he.terms, Affine.all_addConstant he.constant hc⟩

theorem All.scale {e : Expr K} (he : e.All p) {c : K} (hc : ∀ x, p x → p (x * c)) : (e.scale c).All p := by
  cases e with
  | linear e => exact Affine.all_scale he hc
  | uncertain e => exact Affine.all_scale he hc
  | full e => exact ⟨List.forall_mem_map.mpr fun t ht => Affine.all_scale (he.terms t ht) hc, Affine.all_scale he.constant hc⟩

end Expr

end

/-! ## Owners -/

/-- No model but `m`. -/
def OwnedBy (m : ModelId) (owner : Option ModelId) : Prop := ∀ n ∈ owner, n = m

theorem joinOwners_of_ownedBy {K : Type} {m : ModelId} {a b : Option ModelId} (ha : OwnedBy m a) (hb : OwnedBy m b) :
    ∃ owner, joinOwners (K := K) a b = .ok owner ∧ OwnedBy m owner := by
  cases a with
  | none => exact ⟨b, by unfold joinOwners; rfl, hb⟩
  | some n =>
    cases b with
    | none => exact ⟨some n, rfl, ha⟩
    | some k =>
      obtain rfl := ha n rfl
      obtain rfl := hb k rfl
      exact ⟨some k, if_pos rfl, hb⟩

/-- The symbols belong to the model `m`. -/
def Expr.Over {K : Type} (m : ModelId) : Expr K → Prop
  | linear e => OwnedBy m e.owner
  | uncertain e => OwnedBy m e.owner
  | full e => OwnedBy m e.owner ∧ OwnedBy m e.constant.owner

/-- The symbols, if there are any, belong to the model `m`. -/
def Quantity.Over {K : Type} (m : ModelId) : Quantity K → Prop
  | number _ => True
  | expr e => e.Over m

section

variable {K B : Type} [Scalar K B] {m : ModelId}

namespace Affine

variable {S : Type}

theorem ownedBy_addConstant {e : Affine S K} (h : OwnedBy m e.owner) (c : K) : OwnedBy m (e.addConstant c).owner := by
  unfold addConstant
  split <;> exact h

end Affine

namespace Expr

theorem Over.owner {e : Expr K} (h : e.Over m) : OwnedBy m e.owner := by
  cases e with
  | linear e => exact h
  | uncertain e => exact h
  | full e => exact h.1

theorem Over.scale {e : Expr K} (h : e.Over m) (c : K) : (e.scale c).Over m := by
  cases e with
  | linear e => exact h
  | uncertain e => exact h
  | full e => exact h

theorem Over.addConstant {e : Expr K} (h : e.Over m) (c : K) : (e.addConstant c).Over m := by
  cases e with
  | linear e => exact Affine.ownedBy_addConstant h c
  | uncertain e => exact Affine.ownedBy_addConstant h c
  | full e => exact ⟨h.1, Affine.ownedBy_addConstant h.2 c⟩

theorem Over.toFull {e : Expr K} (h : e.Over m) : OwnedBy m e.toFull.constant.owner := by
  cases e with
  | linear e => exact fun n hn => nomatch hn
  | uncertain e => exact h
  | full e => exact h.2

/-- Expressions over one model have a sum over that model. -/
theorem Over.add {a b : Expr K} (ha : a.Over m) (hb : b.Over m) : ∃ s, a.add b = .ok s ∧ s.Over m := by
  obtain ⟨owner, hjoin, howner⟩ := joinOwners_of_ownedBy (K := K) ha.owner hb.owner
  obtain ⟨inner, hinner, hconstant⟩ := joinOwners_of_ownedBy (K := K) ha.toFull hb.toFull
  have hfull : (do return full (← a.toFull.concat b.toFull owner) : Except (ExprError K) _)
      = .ok (full { terms := a.toFull.terms ++ b.toFull.terms
                    constant := a.toFull.constant.concat b.toFull.constant inner, owner }) := by
    rw [Full.concat, hinner]
    rfl
  unfold Expr.add
  rw [hjoin]
  cases a with
  | linear a =>
    cases b with
    | linear b => exact ⟨_, rfl, howner⟩
    | uncertain b => exact ⟨_, hfull, howner, hconstant⟩
    | full b => exact ⟨_, hfull, howner, hconstant⟩
  | uncertain a =>
    cases b with
    | linear b => exact ⟨_, hfull, howner, hconstant⟩
    | uncertain b => exact ⟨_, rfl, howner⟩
    | full b => exact ⟨_, hfull, howner, hconstant⟩
  | full a => exact ⟨_, hfull, howner, hconstant⟩

end Expr

namespace Quantity

theorem Over.scale {q : Quantity K} (h : q.Over m) (c : K) : (q.scale c).Over m := by
  cases q with
  | number d => trivial
  | expr e => exact Expr.Over.scale h c

theorem add_expr {a b s : Expr K} (h : a.add b = .ok s) : (expr a).add (expr b) = .ok (expr s) := by
  rw [add, h]
  rfl

/-- **Quantities over one model have a sum** over that model. -/
theorem Over.add {a b : Quantity K} (ha : a.Over m) (hb : b.Over m) : ∃ s, a.add b = .ok s ∧ s.Over m := by
  cases a with
  | number c =>
    cases b with
    | number d => exact ⟨_, rfl, trivial⟩
    | expr f => exact ⟨_, rfl, Expr.Over.addConstant hb c⟩
  | expr e =>
    cases b with
    | number d => exact ⟨_, rfl, Expr.Over.addConstant ha d⟩
    | expr f =>
      obtain ⟨s, hs, hover⟩ := Expr.Over.add ha hb
      exact ⟨.expr s, add_expr hs, hover⟩

end Quantity

end

end RobustLP
