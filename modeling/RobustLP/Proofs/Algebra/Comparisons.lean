import RobustLP.Constraint
import RobustLP.Expr.Operand
import RobustLP.Proofs.Algebra.Operators

/-!
# What comparisons build

A comparison of two quantities, and an expression between two bounds, become a constraint that says the same
(`Quantity.comparisons_correct`): it holds where the comparison of the values holds. On the way the constant of the difference
is split off and moved into the bounds, so the body has no constant of its own, and a number on the left changes sides.

What a constraint is for follows from its kind, and this is the kind of the difference. A number does not count; two
expressions of one kind have a difference of this kind, others a full one (`ExprKind.join`).
-/

namespace RobustLP

open ExtRat

/-! ## Values and truth at a point -/

/-- Evaluating answers `p` for given numbers of the variables and parameters. -/
def Quantity.Evaluates (x u : Nat → Rat) (q : Quantity Rat) (p : Rat) : Prop :=
  q.evaluate (fun k => .ok (u k.index)) (fun v => .ok (x v.index)) = .ok p

theorem Quantity.evaluates_iff {x u : Nat → Rat} {q : Quantity Rat} {p : Rat} : q.Evaluates x u p ↔ p = q.value x u := by
  rw [Evaluates, evaluate_eq, Except.ok.injEq, eq_comm]

/-- The body evaluates to a number between the bounds. -/
def Constraint.HoldsAt (x u : Nat → Rat) (c : Constraint Rat ExtRat) : Prop :=
  ∃ p, (Quantity.expr c.body).Evaluates x u p ∧ Between c.lower c.upper p

theorem Constraint.holdsAt_iff {x u : Nat → Rat} {c : Constraint Rat ExtRat} :
    c.HoldsAt x u ↔ Between c.lower c.upper (c.body.value x u) := by
  simp only [HoldsAt, Quantity.evaluates_iff, exists_eq_left]
  rfl

namespace Relation

/-- The comparison of two numbers. -/
def Holds : Relation → Rat → Rat → Prop
  | atMost, p, q => p ≤ q
  | atLeast, p, q => q ≤ p
  | equal, p, q => p = q

theorem holds_flip {r : Relation} {p q : Rat} : r.flip.Holds p q ↔ r.Holds q p := by
  cases r with
  | atMost => exact Iff.rfl
  | atLeast => exact Iff.rfl
  | equal => exact eq_comm

theorem holds_sub {r : Relation} {p q : Rat} : r.Holds (p - q) 0 ↔ r.Holds p q := by
  cases r with
  | atMost => exact sub_nonpos
  | atLeast => exact sub_nonneg
  | equal => exact sub_eq_zero

/-- The bounds of a comparison compare with zero. -/
theorem between_bounds {r : Relation} {q : Rat} :
    Between ((bounds (K := Rat) r).1.getD .negInf) ((bounds (K := Rat) r).2.getD .posInf) q ↔ r.Holds q 0 := by
  cases r with
  | atMost => exact (and_iff_right (negInf_le _)).trans finite_le_finite
  | atLeast => exact (and_iff_left (le_posInf _)).trans finite_le_finite
  | equal => exact between_finite

end Relation

/-! ## Kinds -/

/-- The simplest kind of expression that both of two kinds are cases of. -/
def ExprKind.join (k l : ExprKind) : ExprKind := if k = l then k else .full

section

variable {K B : Type} [Scalar K B]

theorem Expr.kind_addConstant (c : K) (e : Expr K) : (e.addConstant c).kind = e.kind := by
  cases e <;> rfl

theorem Expr.kind_scale (c : K) (e : Expr K) : (e.scale c).kind = e.kind := by
  cases e <;> rfl

theorem Expr.kind_of_add {a b s : Expr K} (h : a.add b = .ok s) : s.kind = a.kind.join b.kind := by
  obtain ⟨-, -, ⟨a, b, rfl, rfl, rfl⟩ | ⟨a, b, rfl, rfl, rfl⟩ | ⟨hkinds, f, -, rfl⟩⟩ := add_cases h
  · rfl
  · rfl
  · rw [ExprKind.join]
    split
    next hkind => exact (hkinds hkind).symm
    next => rfl

namespace Quantity

/-- The kind of an expression; a number has none. -/
def kind? : Quantity K → Option ExprKind
  | number _ => none
  | expr e => some e.kind

theorem kind?_neg (q : Quantity K) : q.neg.kind? = q.kind? := by
  cases q with
  | number c => rfl
  | expr e => exact congrArg some (e.kind_scale _)

/-- **The kind of a difference** covers the kinds of both sides. -/
theorem kind?_of_sub {a b s : Quantity K} (h : a.sub b = .ok s) : s.kind? = Option.merge ExprKind.join a.kind? b.kind? := by
  rw [← kind?_neg b]
  unfold sub at h
  cases a with
  | number c =>
    cases hb : b.neg with
    | number d =>
      rw [hb] at h
      cases h
      rfl
    | expr f =>
      rw [hb] at h
      cases h
      exact congrArg some (f.kind_addConstant c)
  | expr e =>
    cases hb : b.neg with
    | number d =>
      rw [hb] at h
      cases h
      exact congrArg some (e.kind_addConstant d)
    | expr f =>
      rw [hb] at h
      obtain ⟨s, hs, h⟩ := bind_eq_ok.mp h
      cases h
      exact congrArg some (Expr.kind_of_add hs)

end Quantity

end

/-! ## Expressions between bounds -/

/-- **Splitting off the constant** leaves an expression of the same kind without a constant, and loses nothing. -/
theorem Expr.exists_splitConstant (e : Expr Rat) : ∃ body k, e.splitConstant = .ok (body, k) ∧ body.kind = e.kind
    ∧ body.splitConstant = .ok (body, 0) ∧ ∀ x u, body.value x u + k = e.value x u := by
  have hsplit : ∀ {S : Type} (f : Affine S Rat), f.splitConstant
      = .ok ({ terms := f.terms, constant := 0, owner := f.owner }, f.constantParts.sum) := by
    intro S f
    rw [Affine.splitConstant, Affine.exactConstant_eq]
    rfl
  have hvalue : ∀ {S : Type} [Symbol S] (f : Affine S Rat) (v : Nat → Rat),
      Affine.value v { terms := f.terms, constant := 0, owner := f.owner } + f.constantParts.sum = f.value v := by
    intro S _ f v
    rw [Affine.value_eq_of_parts_none v rfl, add_zero, Affine.value]
  unfold splitConstant
  cases e with
  | linear e =>
    refine ⟨linear { terms := e.terms, constant := 0, owner := e.owner }, e.constantParts.sum, ?_, rfl, rfl, fun x u => ?_⟩
    · dsimp only
      rw [hsplit]
      rfl
    · exact hvalue e x
  | uncertain e =>
    refine ⟨uncertain { terms := e.terms, constant := 0, owner := e.owner }, e.constantParts.sum, ?_, rfl, rfl, fun x u => ?_⟩
    · dsimp only
      rw [hsplit]
      rfl
    · exact hvalue e u
  | full e =>
    refine ⟨full { e with constant := { terms := e.constant.terms, constant := 0, owner := e.constant.owner } },
      e.constant.constantParts.sum, ?_, rfl, rfl, fun x u => ?_⟩
    · dsimp only [Full.splitConstant]
      rw [Affine.exactConstant_eq]
      rfl
    · rw [value, Full.value, add_assoc, hvalue e.constant u]
      rfl

/-- A constraint of the kind `kind` without a constant in its body, which holds where its condition does. -/
structure Constraint.Says (c : Constraint Rat ExtRat) (kind : ExprKind) (S : (Nat → Rat) → (Nat → Rat) → Prop) : Prop where
  kind : c.kind = kind
  constant : c.body.splitConstant = .ok (c.body, 0)
  holds : ∀ x u, c.HoldsAt x u ↔ S x u

/-- **An expression between two bounds** becomes a constraint that says so. -/
theorem Constraint.exists_between (lower : Option ExtRat) (e : Expr Rat) (upper : Option ExtRat) :
    ∃ c, Constraint.between lower e upper = .ok c
      ∧ c.Says e.kind fun x u => Between (lower.getD negInf) (upper.getD posInf) (e.value x u) := by
  obtain ⟨body, k, hsplit, hkind, hconstant, hvalue⟩ := e.exists_splitConstant
  refine ⟨{ body, lower := (lower.getD negInf).shift k, upper := (upper.getD posInf).shift k }, ?_, hkind, hconstant,
    fun x u => ?_⟩
  · rw [between, hsplit]
    cases lower <;> cases upper <;> rfl
  · rw [holdsAt_iff, between_shift, hvalue]

/-- Bounds of doubles are moved in the same way. -/
theorem Operand.range_eq {lower body upper : Operand} {low high : Option Float} {e : Expr Float}
    (hlow : rangeBound lower = .ok (low.map .ok)) (hhigh : rangeBound upper = .ok (high.map .ok)) (he : body.toExpr? = some e) :
    range lower body upper = ((Constraint.between low e high).map constraint).mapError .fault := by
  unfold range Constraint.between
  rw [hlow, hhigh, he]
  dsimp only [bind, Except.bind]
  cases e.splitConstant with
  | error f => rfl
  | ok p => cases low <;> cases high <;> rfl

/-! ## Comparisons -/

namespace Quantity

/-- An expression compared with a quantity. -/
theorem exists_compareExpr {m : ModelId} (r : Relation) {a : Expr Rat} {b : Quantity Rat} (ha : a.Over m) (hb : b.Over m) :
    ∃ c d, a.compare r b = .ok c ∧ (expr a).sub b = .ok (expr d)
      ∧ c.Says d.kind fun x u => r.Holds (a.value x u) (b.value x u) := by
  obtain ⟨s, hs, -⟩ := Over.add (a := expr a) ha (hb.scale Scalar.minusOne)
  have hkind := kind?_of_sub (a := expr a) (b := b) hs
  cases s with
  | number c => cases h : b.kind? <;> rw [h] at hkind <;> cases hkind
  | expr d =>
    have hvalue : ∀ x u, d.value x u = a.value x u - b.value x u := by
      intro x u
      have h := value_of_add x u hs
      rw [← neg, value_neg, ← sub_eq_add_neg] at h
      exact h
    obtain ⟨c, hc, hmeans⟩ := Constraint.exists_between (r.bounds (K := Rat)).1 d (r.bounds (K := Rat)).2
    refine ⟨c, d, ?_, hs, hmeans.kind, hmeans.constant, fun x u => ?_⟩
    · rw [Expr.compare, sub, neg, hs]
      exact congrArg liftFault hc
    · rw [hmeans.holds, Relation.between_bounds, hvalue, Relation.holds_sub]

theorem kind_eq_of_sub_number {e d d' : Expr Rat} {x : Rat} (h : (expr e).sub (number x) = .ok (expr d))
    (h' : (number x).sub (expr e) = .ok (expr d')) : d.kind = d'.kind :=
  Option.some.inj ((kind?_of_sub h).trans (kind?_of_sub h').symm)

/-- Two quantities of which at least one is an expression. -/
theorem exists_compare {m : ModelId} (r : Relation) {a b : Quantity Rat} (ha : a.Over m) (hb : b.Over m)
    (hab : a.kind?.isSome ∨ b.kind?.isSome) : ∃ c d, compare r a b = .ok (some c) ∧ a.sub b = .ok (expr d)
      ∧ c.Says d.kind fun x u => r.Holds (a.value x u) (b.value x u) := by
  cases a with
  | expr e =>
    obtain ⟨c, d, hc, hd, hmeans⟩ := exists_compareExpr r ha hb
    refine ⟨c, d, ?_, hd, hmeans⟩
    rw [compare, hc]
    rfl
  | number k =>
    cases b with
    | number l => exact hab.elim (fun h => nomatch h) fun h => nomatch h
    | expr f =>
      -- the comparison is read from the other side, and its difference is the opposite one
      obtain ⟨c, d, hc, hd, hmeans⟩ := exists_compareExpr r.flip (b := number k) hb ha
      have hd' : (number k).sub (expr f) = .ok (expr ((f.scale Scalar.minusOne).addConstant k)) := rfl
      refine ⟨c, _, ?_, hd', hmeans.kind.trans (kind_eq_of_sub_number hd hd'), hmeans.constant, fun x u => ?_⟩
      · rw [compare, hc]
        rfl
      · exact (hmeans.holds x u).trans Relation.holds_flip

/-- **Comparisons build what they say.** Two quantities over one model, of which at least one is an expression, are compared by a
constraint that holds exactly where the comparison of their values does; an expression between two bounds becomes one that holds
exactly where its value lies between them. The body has no constant, and its kind is that of the difference, or of the
expression. -/
theorem comparisons_correct (m : ModelId) :
    (∀ (r : Relation) (a b : Quantity Rat), a.Over m → b.Over m → a.kind?.isSome ∨ b.kind?.isSome →
      ∃ c d, compare r a b = .ok (some c) ∧ a.sub b = .ok (expr d) ∧ c.kind = d.kind
        ∧ some c.kind = Option.merge ExprKind.join a.kind? b.kind? ∧ c.body.splitConstant = .ok (c.body, 0)
        ∧ ∀ x u, ∃ p q, a.Evaluates x u p ∧ b.Evaluates x u q ∧ (c.HoldsAt x u ↔ r.Holds p q)) ∧
    ∀ (lower : Option ExtRat) (e : Expr Rat) (upper : Option ExtRat),
      ∃ c, Constraint.between lower e upper = .ok c ∧ c.kind = e.kind ∧ c.body.splitConstant = .ok (c.body, 0)
        ∧ ∀ x u, ∃ p, (expr e).Evaluates x u p
          ∧ (c.HoldsAt x u ↔ Between (lower.getD negInf) (upper.getD posInf) p) := by
  constructor
  · intro r a b ha hb hab
    obtain ⟨c, d, hc, hd, hmeans⟩ := exists_compare r ha hb hab
    have hkind : some c.kind = Option.merge ExprKind.join a.kind? b.kind? :=
      (congrArg some hmeans.kind).trans (kind?_of_sub hd)
    exact ⟨c, d, hc, hd, hmeans.kind, hkind, hmeans.constant,
      fun x u => ⟨_, _, a.evaluate_eq x u, b.evaluate_eq x u, hmeans.holds x u⟩⟩
  · intro lower e upper
    obtain ⟨c, hc, hmeans⟩ := Constraint.exists_between lower e upper
    exact ⟨c, hc, hmeans.kind, hmeans.constant, fun x u => ⟨_, evaluate_eq x u (expr e), hmeans.holds x u⟩⟩

/-- A number on the left of a variable, and a variable that equals a parameter plus one. -/
theorem comparisons_correct_sample :
    (∃ c, compare .atLeast (number 2) (expr (.ofVariable ⟨0, 0⟩)) = .ok (some c) ∧ c.kind = .linear
      ∧ (c.lower, c.upper) = (negInf, finite 2) ∧ ∀ x u, c.HoldsAt x u ↔ x 0 ≤ 2) ∧
    ∃ c, compare .equal (expr (.ofVariable ⟨0, 0⟩)) (expr ((Expr.ofParameter ⟨0, 0⟩).addConstant 1)) = .ok (some c)
      ∧ c.kind = .full ∧ (c.lower, c.upper) = (finite 1, finite 1) ∧ ∀ x u, c.HoldsAt x u ↔ x 0 = u 0 + 1 := by
  have hvariable : (expr (.ofVariable ⟨0, 0⟩) : Quantity Rat).Over 0 := fun n hn => (Option.some.inj hn).symm
  have hparameter : (expr ((Expr.ofParameter ⟨0, 0⟩).addConstant 1) : Quantity Rat).Over 0 :=
    fun n hn => (Option.some.inj hn).symm
  constructor
  · obtain ⟨c, d, hc, hd, -, hkind, -, hholds⟩ := (comparisons_correct 0).1 .atLeast (number 2) _ trivial hvariable (.inr rfl)
    refine ⟨c, hc, Option.some.inj hkind, ?_, fun x u => ?_⟩
    · have hbuilt : (compare .atLeast (number (2 : Rat)) (expr (.ofVariable ⟨0, 0⟩))).toOption.map
          (Option.map fun c => (c.lower, c.upper)) = some (some (negInf, finite 2)) := by decide +kernel
      rw [hc] at hbuilt
      exact Option.some.inj (Option.some.inj hbuilt)
    · obtain ⟨p, q, hp, hq, hiff⟩ := hholds x u
      rw [evaluates_iff] at hp hq
      rw [hiff, hp, hq]
      exact Iff.of_eq (congrArg (· ≤ (2 : Rat)) (Expr.value_ofVariable x u _))
  · obtain ⟨c, d, hc, hd, -, hkind, -, hholds⟩ := (comparisons_correct 0).1 .equal _ _ hvariable hparameter (.inl rfl)
    refine ⟨c, hc, Option.some.inj hkind, ?_, fun x u => ?_⟩
    · cases hc
      decide +kernel
    · obtain ⟨p, q, hp, hq, hiff⟩ := hholds x u
      rw [evaluates_iff] at hp hq
      rw [hiff, hp, hq]
      simp [value, Relation.Holds]

end Quantity

end RobustLP
