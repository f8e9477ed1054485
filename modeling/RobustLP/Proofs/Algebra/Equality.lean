import RobustLP.Expr.Equal
import RobustLP.Proofs.Algebra.Canonical

/-!
# The two structural equalities

Quantities over one model are structurally equal exactly when their descriptions are (`Canonical.equal_eq_agrees`): both compare
what the quantities reduce to, one by the symbols themselves, the other by their sort, position and name.

Structural equality is symmetric and transitive if the comparison of numbers is (`Quantity.equal_symm`, `Quantity.equal_trans`).
In exact arithmetic equal quantities have equal values (`Quantity.sameValues_of_equal`).
-/

namespace RobustLP

/-! ## Lists that agree -/

section

variable {α β γ δ : Type}

theorem allAgree_iff {agree : α → β → Bool} : ∀ {as : List α} {bs : List β},
    allAgree agree as bs = true ↔ List.Forall₂ (fun a b => agree a b = true) as bs
  | [], [] => iff_of_true rfl .nil
  | [], _ :: _ => iff_of_false Bool.false_ne_true fun h => nomatch h
  | _ :: _, [] => iff_of_false Bool.false_ne_true fun h => nomatch h
  | a :: as, b :: bs => by rw [allAgree, Bool.and_eq_true, allAgree_iff, List.forall₂_cons]

theorem allAgree_map {agree : α → β → Bool} {agree' : γ → δ → Bool} {f : α → γ} {g : β → δ} : ∀ {as : List α} {bs : List β},
    (∀ a ∈ as, ∀ b ∈ bs, agree' (f a) (g b) = agree a b) → allAgree agree' (as.map f) (bs.map g) = allAgree agree as bs
  | [], [], _ => rfl
  | [], _ :: _, _ => rfl
  | _ :: _, [], _ => rfl
  | a :: as, b :: bs, h => by
    have hrest := allAgree_map fun a' ha b' hb => h a' (List.mem_cons_of_mem a ha) b' (List.mem_cons_of_mem b hb)
    rw [List.map_cons, List.map_cons, allAgree, allAgree, h a List.mem_cons_self b List.mem_cons_self, hrest]

theorem length_eq_of_allAgree {agree : α → β → Bool} {as : List α} {bs : List β} (h : allAgree agree as bs = true) :
    as.length = bs.length := (allAgree_iff.mp h).length_eq

end

/-! ## What is compared -/

variable {S K B : Type} [Symbol S] [Scalar K B] {m : ModelId}

namespace Quantity

/-- The symbols, if there are any, belong to the model `m`. -/
def Within (m : ModelId) : Quantity K → Prop
  | number _ => True
  | expr e => e.Within m

/-- Two reduced quantities agree. -/
def agrees : Quantity K → Quantity K → Bool
  | number x, number y => Scalar.beq x y
  | expr (.linear a), expr (.linear b) => a.agrees b
  | expr (.uncertain a), expr (.uncertain b) => a.agrees b
  | expr (.full a), expr (.full b) =>
    Full.coefAgrees a.constant b.constant && allAgree (fun s t => s.1 == t.1 && Full.coefAgrees s.2 t.2) a.terms b.terms
  | _, _ => false

/-- **Structural equality compares what quantities reduce to.** -/
theorem equal_eq (a b : Quantity K) : a.equal b = do return (← a.reduce).agrees (← b.reduce) := by
  unfold equal
  refine congrArg _ (funext fun p => congrArg _ (funext fun q => ?_))
  rcases p with x | (e | e | e) <;> rcases q with y | (f | f | f) <;> try rfl
  -- the lengths are compared again with the terms
  show Except.ok _ = Except.ok _
  refine congrArg Except.ok ?_
  rw [agrees, Bool.and_assoc]
  cases hagree : allAgree (fun s t => s.1 == t.1 && Full.coefAgrees s.2 t.2) e.terms f.terms with
  | true => rw [length_eq_of_allAgree hagree, beq_self_eq_true, Bool.true_and]
  | false => rw [Bool.and_false, Bool.and_false]

theorem equal_eq_ok_iff {a b : Quantity K} {r : Bool} :
    a.equal b = .ok r ↔ ∃ p q, a.reduce = .ok p ∧ b.reduce = .ok q ∧ p.agrees q = r := by
  rw [equal_eq, bind_eq_ok]
  refine exists_congr fun p => ?_
  rw [bind_eq_ok]
  constructor
  · rintro ⟨hp, q, hq, h⟩
    exact ⟨q, hp, hq, Except.ok.inj h⟩
  · rintro ⟨q, hp, hq, rfl⟩
    exact ⟨hp, q, hq, rfl⟩

end Quantity

namespace Canonical

/-- The description of a reduced quantity. -/
def describe (naming : Naming) : Quantity K → Canonical K
  | .number x => .form (.constant x)
  | .expr (.linear e) => .form (ofAffine "linear" (ofVariable naming) e)
  | .expr (.uncertain e) => .form (ofCoefficient naming e)
  | .expr (.full e) =>
    .full (e.terms.map fun t => (ofVariable naming t.1, ofCoefficient naming t.2)) (ofCoefficient naming e.constant)

theorem ofQuantity_eq (naming : Naming) (q : Quantity K) : ofQuantity naming q = do return describe naming (← q.reduce) := by
  unfold ofQuantity
  refine congrArg _ (funext fun p => ?_)
  rcases p with x | (e | e | e) <;> rfl

end Canonical

/-! ## What quantities reduce to -/

/-- A form with symbols of the model `m`, and a single number as constant. -/
structure Affine.Reduced (m : ModelId) (e : Affine S K) : Prop where
  nonempty : e.terms.isEmpty = false
  parts : e.parts = none
  symbols : e.Within m

namespace Quantity

/-- What reducing answers. -/
def Reduced (m : ModelId) : Quantity K → Prop
  | number _ => True
  | expr (.linear e) => e.Reduced m
  | expr (.uncertain e) => e.Reduced m
  | expr (.full e) => e.IsNormal ∧ e.Within m

theorem reduced_simplest {n : Full K} (hn : n.IsNormal) (h : n.Within m) : n.simplest.Reduced m := by
  rcases n.simplest_cases with heq | ⟨hne, heq⟩ | ⟨hne, -, heq⟩ | heq <;> rw [heq]
  · trivial
  · exact ⟨hne, hn.constant.parts, h.constant⟩
  · exact ⟨List.isEmpty_map.trans hne, rfl, List.forall_mem_map.mpr h.decisions⟩
  · exact ⟨hn, h⟩

/-- Reducing brings in no symbols. -/
theorem reduced_of_reduce {q p : Quantity K} (hq : q.Within m) (h : q.reduce = .ok p) : p.Reduced m := by
  cases q with
  | number x =>
    cases h
    trivial
  | expr e =>
    obtain ⟨e, n, rfl, hn, rfl⟩ | ⟨e, n, rfl, hn, rfl⟩ | ⟨e, n, rfl, hn, rfl⟩ := Expr.reduce_cases h
    · split
      next => trivial
      next hne => exact ⟨Bool.eq_false_iff.mpr hne, (Affine.isNormal_of_normalized hn).parts, Affine.Within.normalized hq hn⟩
    · split
      next => trivial
      next hne => exact ⟨Bool.eq_false_iff.mpr hne, (Affine.isNormal_of_normalized hn).parts, Affine.Within.normalized hq hn⟩
    · exact reduced_simplest (Full.isNormal_of_normalized hn) (Full.Within.normalized hq hn)

end Quantity

/-! ## Descriptions -/

namespace Canonical

variable {naming : Naming}

/-- The keys of two variables of one model differ if the variables do. -/
theorem ofVariable_beq {v w : Variable} (h : v.model = w.model) : (ofVariable naming v == ofVariable naming w) = (v == w) := by
  rw [Bool.eq_iff_iff, beq_iff_eq, beq_iff_eq]
  exact ⟨fun heq => LawfulSymbol.eq_of_index h (congrArg SymbolKey.index heq), congrArg _⟩

theorem ofParameter_beq {u w : Parameter} (h : u.model = w.model) : (ofParameter naming u == ofParameter naming w) = (u == w) := by
  rw [Bool.eq_iff_iff, beq_iff_eq, beq_iff_eq]
  exact ⟨fun heq => LawfulSymbol.eq_of_index h (congrArg SymbolKey.index heq), congrArg _⟩

omit [Symbol S] in
/-- **Descriptions of forms agree** when the forms do, if the keys tell the symbols apart. -/
theorem formAgrees_ofAffine [BEq S] {kind : String} {key : S → SymbolKey} {a b : Affine S K}
    (hkey : ∀ s ∈ a.terms, ∀ t ∈ b.terms, (key s.1 == key t.1) = (s.1 == t.1)) :
    formAgrees (ofAffine kind key a) (ofAffine kind key b) = a.agrees b := by
  have hterms : allAgree (fun s t : SymbolKey × K => s.1 == t.1 && Scalar.beq s.2 t.2) (a.terms.map fun t => (key t.1, t.2))
      (b.terms.map fun t => (key t.1, t.2)) = allAgree (fun s t => s.1 == t.1 && Scalar.beq s.2 t.2) a.terms b.terms :=
    allAgree_map fun s hs t ht => congrArg (· && Scalar.beq s.2 t.2) (hkey s hs t ht)
  obtain ⟨as, x, _, _⟩ := a
  obtain ⟨bs, y, _, _⟩ := b
  unfold ofAffine Affine.agrees
  cases as with
  | nil =>
    cases bs with
    | nil => exact (Bool.and_true _).symm
    | cons t bs => exact (Bool.and_false _).symm
  | cons s as =>
    cases bs with
    | nil => exact (Bool.and_false _).symm
    | cons t bs =>
      dsimp only [List.isEmpty_cons] at hterms ⊢
      rw [if_neg Bool.false_ne_true, if_neg Bool.false_ne_true, formAgrees, hterms, beq_self_eq_true, Bool.true_and, Bool.and_comm]

theorem formAgrees_ofCoefficient {a b : Affine Parameter K} (ha : a.Within m) (hb : b.Within m) :
    formAgrees (ofCoefficient naming a) (ofCoefficient naming b) = a.agrees b :=
  formAgrees_ofAffine fun s hs t ht => ofParameter_beq ((ha s hs).trans (hb t ht).symm)

omit [Symbol S] in
/-- A form with symbols is described by its kind. -/
theorem ofAffine_of_ne {kind : String} {key : S → SymbolKey} {e : Affine S K} (h : e.terms.isEmpty = false) :
    ofAffine kind key e = .affine kind (e.terms.map fun t => (key t.1, t.2)) e.constant := by
  rw [ofAffine, if_neg (Bool.eq_false_iff.mp h)]

/-- **Reduced quantities agree exactly when their descriptions do.** -/
theorem agrees_describe {p q : Quantity K} (hp : p.Reduced m) (hq : q.Reduced m) :
    (describe naming p).agrees (describe naming q) = p.agrees q := by
  rcases p with x | (a | a | a)
  · rcases q with y | (b | b | b)
    · rfl
    · rw [describe, describe, ofAffine_of_ne hq.nonempty]
      rfl
    · rw [describe, describe, ofCoefficient, ofAffine_of_ne hq.nonempty]
      rfl
    · rfl
  · rcases q with y | (b | b | b)
    · rw [describe, describe, ofAffine_of_ne hp.nonempty]
      rfl
    · exact formAgrees_ofAffine fun s hs t ht => ofVariable_beq ((hp.symbols s hs).trans (hq.symbols t ht).symm)
    · -- the kinds are told apart by their names
      rw [describe, describe, ofCoefficient, ofAffine_of_ne hp.nonempty, ofAffine_of_ne hq.nonempty]
      rfl
    · rfl
  · rcases q with y | (b | b | b)
    · rw [describe, describe, ofCoefficient, ofAffine_of_ne hp.nonempty]
      rfl
    · rw [describe, describe, ofCoefficient, ofAffine_of_ne hp.nonempty, ofAffine_of_ne hq.nonempty]
      rfl
    · exact formAgrees_ofCoefficient hp.symbols hq.symbols
    · rfl
  · rcases q with y | (b | b | b)
    · rfl
    · rfl
    · rfl
    · obtain ⟨-, hp⟩ := hp
      obtain ⟨-, hq⟩ := hq
      have hterms : allAgree (fun s t : SymbolKey × CanonicalForm K => s.1 == t.1 && formAgrees s.2 t.2)
          (a.terms.map fun t => (ofVariable naming t.1, ofCoefficient naming t.2))
          (b.terms.map fun t => (ofVariable naming t.1, ofCoefficient naming t.2))
          = allAgree (fun s t => s.1 == t.1 && Full.coefAgrees s.2 t.2) a.terms b.terms := by
        refine allAgree_map fun s hs t ht => ?_
        rw [ofVariable_beq ((hp.decisions s hs).trans (hq.decisions t ht).symm),
          formAgrees_ofCoefficient (hp.parameters s hs) (hq.parameters t ht)]
        rfl
      rw [describe, describe, agrees, hterms, formAgrees_ofCoefficient hp.constant hq.constant, Bool.and_comm]
      rfl

/-- **The two equalities agree,** also where they fail. -/
theorem equal_eq_agrees {a b : Quantity K} (ha : a.Within m) (hb : b.Within m) :
    a.equal b = do return (← ofQuantity naming a).agrees (← ofQuantity naming b) := by
  rw [Quantity.equal_eq, ofQuantity_eq, ofQuantity_eq]
  cases hp : a.reduce with
  | error f => rfl
  | ok p =>
    cases hq : b.reduce with
    | error f => rfl
    | ok q =>
      exact congrArg Except.ok (agrees_describe (Quantity.reduced_of_reduce ha hp) (Quantity.reduced_of_reduce hb hq)).symm

end Canonical

/-! ## Symmetry and transitivity -/

/-- Equality of numbers is symmetric and transitive. -/
class Scalar.PartialEquiv (K : Type) {B : Type} [Scalar K B] : Prop where
  symm : ∀ {x y : K}, Scalar.beq x y = true → Scalar.beq y x = true
  trans : ∀ {x y z : K}, Scalar.beq x y = true → Scalar.beq y z = true → Scalar.beq x z = true

/-- Terms that agree pair by pair, seen from the other side. -/
theorem allAgree_symm {S α : Type} [BEq S] [LawfulBEq S] (agree : α → α → Bool)
    (h : ∀ a b, agree a b = true → agree b a = true) {as bs : List (S × α)}
    (hab : allAgree (fun s t => s.1 == t.1 && agree s.2 t.2) as bs = true) :
    allAgree (fun s t => s.1 == t.1 && agree s.2 t.2) bs as = true := by
  refine allAgree_iff.mpr ((allAgree_iff.mp hab).flip.imp fun t s hst => ?_)
  obtain ⟨hsymbol, hcoef⟩ := Bool.and_eq_true_iff.mp hst
  exact Bool.and_eq_true_iff.mpr ⟨beq_iff_eq.mpr (beq_iff_eq.mp hsymbol).symm, h _ _ hcoef⟩

theorem allAgree_trans {S α : Type} [BEq S] [LawfulBEq S] (agree : α → α → Bool)
    (h : ∀ a b c, agree a b = true → agree b c = true → agree a c = true) {as bs cs : List (S × α)}
    (hab : allAgree (fun s t => s.1 == t.1 && agree s.2 t.2) as bs = true)
    (hbc : allAgree (fun s t => s.1 == t.1 && agree s.2 t.2) bs cs = true) :
    allAgree (fun s t => s.1 == t.1 && agree s.2 t.2) as cs = true := by
  refine allAgree_iff.mpr (forall₂_comp (allAgree_iff.mp hab) (allAgree_iff.mp hbc) fun s t r hst htr => ?_)
  obtain ⟨hsymbol, hcoef⟩ := Bool.and_eq_true_iff.mp hst
  obtain ⟨hsymbol', hcoef'⟩ := Bool.and_eq_true_iff.mp htr
  exact Bool.and_eq_true_iff.mpr ⟨beq_iff_eq.mpr ((beq_iff_eq.mp hsymbol).trans (beq_iff_eq.mp hsymbol')), h _ _ _ hcoef hcoef'⟩

section

variable [Scalar.PartialEquiv K]

omit [Symbol S] in
theorem Affine.agrees_symm [BEq S] [LawfulBEq S] {a b : Affine S K} (h : a.agrees b = true) : b.agrees a = true := by
  obtain ⟨hconstant, hterms⟩ := Bool.and_eq_true_iff.mp h
  exact Bool.and_eq_true_iff.mpr
    ⟨Scalar.PartialEquiv.symm hconstant, allAgree_symm Scalar.beq (fun _ _ => Scalar.PartialEquiv.symm) hterms⟩

omit [Symbol S] in
theorem Affine.agrees_trans [BEq S] [LawfulBEq S] {a b c : Affine S K} (hab : a.agrees b = true) (hbc : b.agrees c = true) :
    a.agrees c = true := by
  obtain ⟨hconstant, hterms⟩ := Bool.and_eq_true_iff.mp hab
  obtain ⟨hconstant', hterms'⟩ := Bool.and_eq_true_iff.mp hbc
  exact Bool.and_eq_true_iff.mpr ⟨Scalar.PartialEquiv.trans hconstant hconstant',
    allAgree_trans Scalar.beq (fun _ _ _ => Scalar.PartialEquiv.trans) hterms hterms'⟩

namespace Quantity

theorem agrees_symm {p q : Quantity K} (h : p.agrees q = true) : q.agrees p = true := by
  rcases p with x | (a | a | a) <;> rcases q with y | (b | b | b) <;> try cases h
  · exact Scalar.PartialEquiv.symm h
  · exact Affine.agrees_symm h
  · exact Affine.agrees_symm h
  · obtain ⟨hconstant, hterms⟩ := Bool.and_eq_true_iff.mp h
    exact Bool.and_eq_true_iff.mpr
      ⟨Affine.agrees_symm hconstant, allAgree_symm Full.coefAgrees (fun _ _ => Affine.agrees_symm) hterms⟩

theorem agrees_trans {p q r : Quantity K} (h : p.agrees q = true) (h' : q.agrees r = true) : p.agrees r = true := by
  rcases p with x | (a | a | a) <;> rcases q with y | (b | b | b) <;> (try cases h) <;> rcases r with z | (c | c | c) <;>
    try cases h'
  · exact Scalar.PartialEquiv.trans h h'
  · exact Affine.agrees_trans h h'
  · exact Affine.agrees_trans h h'
  · obtain ⟨hconstant, hterms⟩ := Bool.and_eq_true_iff.mp h
    obtain ⟨hconstant', hterms'⟩ := Bool.and_eq_true_iff.mp h'
    exact Bool.and_eq_true_iff.mpr ⟨Affine.agrees_trans hconstant hconstant',
      allAgree_trans Full.coefAgrees (fun _ _ _ => Affine.agrees_trans) hterms hterms'⟩

/-- **Structural equality is symmetric.** -/
theorem equal_symm {a b : Quantity K} (h : a.equal b = .ok true) : b.equal a = .ok true := by
  obtain ⟨p, q, hp, hq, hpq⟩ := equal_eq_ok_iff.mp h
  exact equal_eq_ok_iff.mpr ⟨q, p, hq, hp, agrees_symm hpq⟩

/-- **Structural equality is transitive.** -/
theorem equal_trans {a b c : Quantity K} (hab : a.equal b = .ok true) (hbc : b.equal c = .ok true) : a.equal c = .ok true := by
  obtain ⟨p, q, hp, hq, hpq⟩ := equal_eq_ok_iff.mp hab
  obtain ⟨q', r, hq', hr, hqr⟩ := equal_eq_ok_iff.mp hbc
  obtain rfl := Except.ok.inj (hq.symm.trans hq')
  exact equal_eq_ok_iff.mpr ⟨p, r, hp, hr, agrees_trans hpq hqr⟩

end Quantity

end

/-! ## Values -/

/-- Forms that agree, with single numbers as constants, are the same but for the note of an owner. -/
theorem Affine.value_eq_of_agrees [BEq S] [LawfulBEq S] {a b : Affine S Rat} (ha : a.parts = none) (hb : b.parts = none)
    (h : a.agrees b = true) (v : Nat → Rat) : a.value v = b.value v := by
  obtain ⟨hconstant, hterms⟩ := Bool.and_eq_true_iff.mp h
  have hsame : a.terms = b.terms := by
    refine List.forall₂_eq_eq_eq ▸ (allAgree_iff.mp hterms).imp fun s t hst => ?_
    obtain ⟨hsymbol, hcoef⟩ := Bool.and_eq_true_iff.mp hst
    exact Prod.ext (beq_iff_eq.mp hsymbol) (beq_iff_eq.mp hcoef)
  have hconstant : a.constant = b.constant := beq_iff_eq.mp hconstant
  rw [value_eq_of_parts_none v ha, value_eq_of_parts_none v hb, hsame, hconstant]

namespace Quantity

theorem value_eq_of_agrees {p q : Quantity Rat} (hp : p.Reduced m) (hq : q.Reduced m) (h : p.agrees q = true) (x u : Nat → Rat) :
    p.value x u = q.value x u := by
  rcases p with y | (a | a | a) <;> rcases q with z | (b | b | b) <;> try cases h
  · exact beq_iff_eq.mp h
  · exact Affine.value_eq_of_agrees hp.parts hq.parts h x
  · exact Affine.value_eq_of_agrees hp.parts hq.parts h u
  · obtain ⟨hconstant, hterms⟩ := Bool.and_eq_true_iff.mp h
    have hvalues : a.terms.map (fun t => t.2.value u * x t.1.index) = b.terms.map fun t => t.2.value u * x t.1.index := by
      refine map_eq_map_of_forall₂ ((forall₂_and_mem (allAgree_iff.mp hterms)).imp ?_)
      rintro s t ⟨hst, hs, ht⟩
      obtain ⟨hsymbol, hcoef⟩ := Bool.and_eq_true_iff.mp hst
      rw [beq_iff_eq.mp hsymbol, Affine.value_eq_of_agrees (hp.1.terms s hs).parts (hq.1.terms t ht).parts hcoef u]
    have hconstant := Affine.value_eq_of_agrees hp.1.constant.parts hq.1.constant.parts hconstant u
    show Full.value x u a = Full.value x u b
    rw [Full.value, Full.value, hvalues, hconstant]

theorem value_of_reduce {q p : Quantity Rat} (h : q.reduce = .ok p) (x u : Nat → Rat) : p.value x u = q.value x u := by
  obtain ⟨r, hr, -, hvalue⟩ := q.exists_reduce
  obtain rfl := Except.ok.inj (hr.symm.trans h)
  exact hvalue x u

/-- **Quantities that are structurally equal have the same values.** -/
theorem sameValues_of_equal {a b : Quantity Rat} (ha : a.Within m) (hb : b.Within m) (h : a.equal b = .ok true) :
    a.SameValues b := by
  obtain ⟨p, q, hp, hq, hpq⟩ := equal_eq_ok_iff.mp h
  refine sameValues_iff.mpr fun x u => ?_
  rw [← value_of_reduce hp, ← value_of_reduce hq]
  exact value_eq_of_agrees (reduced_of_reduce ha hp) (reduced_of_reduce hb hq) hpq x u

end Quantity

end RobustLP
