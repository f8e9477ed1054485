import RobustLP.Proofs.Algebra.Kinds

/-!
# Written formulas

A `Formula` is what is written: symbols of one model and numbers, combined by the operators. `Formula.build` computes it with the
operators on quantities, `Formula.value` by the rules of arithmetic. Building answers a quantity of the same value
(`Formula.builds_of_build`), and fails exactly where the formula has no value of the kind that quantities can have: a product
that is not biaffine (`Quantity.mul_cases`), a divisor that is not constant or zero (`Quantity.div_cases`).
-/

namespace RobustLP

/-! ## Products and quotients -/

/-- **The value of an expression is biaffine.** -/
theorem Expr.biaffine_value (e : Expr Rat) : Biaffine fun x u => e.value x u := by
  obtain ⟨f, -, hf⟩ := e.exists_mixedForm
  have h := f.biaffine_value
  simp only [hf.value] at h
  exact h

namespace Quantity

variable {m : ModelId}

theorem exists_mixedForm (q : Quantity Rat) : ∃ f : MixedForm Rat, ∀ x u, f.value x u = q.value x u := by
  cases q with
  | number c => exact ⟨{ constant := .ofConstant c }, fun x u => (zero_add _).trans (Form.value_ofConstant u c)⟩
  | expr e =>
    obtain ⟨f, -, hf⟩ := e.exists_mixedForm
    exact ⟨f, hf.value⟩

/-- A quantity of the value `h` over the model `m`. -/
structure Represents (m : ModelId) (h : (Nat → Rat) → (Nat → Rat) → Rat) (q : Quantity Rat) : Prop where
  owned : q.Over m
  value : ∀ x u, q.value x u = h x u

/-- A quantity is a number once it is reduced, or its value is not constant. -/
theorem Simplest.constant_or {q : Quantity Rat} (h : q.Simplest) :
    (∃ c, q = .number c) ∨ (∃ e, q = .expr e) ∧ ¬∃ c, ∀ x u, q.value x u = c := by
  have hvariables : q.ReadsVariables → ¬∃ c, ∀ x u, q.value x u = c :=
    fun ⟨u, x, y, hne⟩ ⟨c, hc⟩ => hne ((hc x u).trans (hc y u).symm)
  have hparameters : q.ReadsParameters → ¬∃ c, ∀ x u, q.value x u = c :=
    fun ⟨x, u, v, hne⟩ ⟨c, hc⟩ => hne ((hc x u).trans (hc x v).symm)
  cases h with
  | number c => exact .inl ⟨c, rfl⟩
  | linear _ hreads => exact .inr ⟨⟨_, rfl⟩, hvariables hreads⟩
  | uncertain hreads => exact .inr ⟨⟨_, rfl⟩, hparameters hreads⟩
  | full hreads _ => exact .inr ⟨⟨_, rfl⟩, hvariables hreads⟩

/-- Two factors that both depend on the variables, or both on the parameters, have no biaffine product. -/
theorem not_biaffine {a b : Expr Rat} {p q : Quantity Rat} (ha : Reduces a p) (hb : Reduces b q)
    (h : p.ReadsVariables ∧ q.ReadsVariables ∨ p.ReadsParameters ∧ q.ReadsParameters) :
    ¬Biaffine fun x u => a.value x u * b.value x u := by
  intro hmul
  simp only [ReadsVariables, ReadsParameters, ha.value, hb.value] at h
  rcases h with ⟨⟨u, x, y, hp⟩, v, z, w, hq⟩ | ⟨⟨x, u, v, hp⟩, y, z, w, hq⟩
  · rcases a.biaffine_value.constant_of_mul b.biaffine_value hmul with hconst | hconst
    · exact hp (hconst u x y)
    · exact hq (hconst v z w)
  · rcases a.biaffine_value.swap.constant_of_mul b.biaffine_value.swap hmul.swap with hconst | hconst
    · exact hp (hconst x u v)
    · exact hq (hconst y z w)

/-- **A product of expressions** is formed, or it is not biaffine. The cases are the pairs of simplest kinds. -/
theorem mulExpr_cases {a b : Expr Rat} (ha : a.Over m) (hb : b.Over m) :
    (∃ q, mulExpr a b = .ok q ∧ q.Represents m fun x u => a.value x u * b.value x u)
      ∨ mulExpr a b = .error (.product a b) ∧ ¬Biaffine fun x u => a.value x u * b.value x u := by
  obtain ⟨p, hp, hpa⟩ := a.exists_reduce
  obtain ⟨q, hq, hqb⟩ := b.exists_reduce
  obtain ⟨owner, hjoin, howner⟩ := joinOwners_of_ownedBy (K := Rat) ha.owner hb.owner
  have hvalue := hpa.value
  have hvalue' := hqb.value
  have hover := hpa.owned m ha
  have hover' := hqb.owned m hb
  -- a factor that is a number scales the other one, whatever its kind
  have hnumber : ∀ d, (∀ x u, value x u (.number d) = b.value x u) →
      (Quantity.expr (a.scale d)).Represents m fun x u => a.value x u * b.value x u := by
    intro d hd
    refine ⟨ha.scale d, fun x u => ?_⟩
    rw [value, Expr.value_scale, ← hd, value]
  unfold mulExpr
  rw [hp, hq]
  dsimp only [liftFault, bind, Except.bind]
  cases hpa.simplest with
  | number c =>
    refine .inl ⟨_, rfl, hb.scale c, fun x u => ?_⟩
    rw [value, Expr.value_scale, ← hvalue, value, mul_comm]
  | linear hparts hreads =>
    cases hqb.simplest with
    | number d => exact .inl ⟨_, rfl, hnumber d hvalue'⟩
    | linear _ hreads' =>
      rw [hjoin]
      exact .inr ⟨rfl, not_biaffine hpa hqb (.inl ⟨hreads, hreads'⟩)⟩
    | uncertain hreads' =>
      rw [hjoin]
      refine .inl ⟨_, rfl, ⟨howner, hover'⟩, fun x u => ?_⟩
      rw [← hvalue, ← hvalue', value, Expr.value, Full.value_cross x u _ hparts]
      exact mul_comm _ _
    | full hreads' _ =>
      rw [hjoin]
      exact .inr ⟨rfl, not_biaffine hpa hqb (.inl ⟨hreads, hreads'⟩)⟩
  | uncertain hreads =>
    cases hqb.simplest with
    | number d => exact .inl ⟨_, rfl, hnumber d hvalue'⟩
    | linear hparts hreads' =>
      rw [hjoin]
      refine .inl ⟨_, rfl, ⟨howner, hover⟩, fun x u => ?_⟩
      rw [← hvalue, ← hvalue', value, Expr.value, Full.value_cross x u _ hparts]
      rfl
    | uncertain hreads' =>
      rw [hjoin]
      exact .inr ⟨rfl, not_biaffine hpa hqb (.inr ⟨hreads, hreads'⟩)⟩
    | full _ hreads' =>
      rw [hjoin]
      exact .inr ⟨rfl, not_biaffine hpa hqb (.inr ⟨hreads, hreads'⟩)⟩
  | full hvariables hparameters =>
    cases hqb.simplest with
    | number d => exact .inl ⟨_, rfl, hnumber d hvalue'⟩
    | linear _ hreads' =>
      rw [hjoin]
      exact .inr ⟨rfl, not_biaffine hpa hqb (.inl ⟨hvariables, hreads'⟩)⟩
    | uncertain hreads' =>
      rw [hjoin]
      exact .inr ⟨rfl, not_biaffine hpa hqb (.inr ⟨hparameters, hreads'⟩)⟩
    | full hreads' _ =>
      rw [hjoin]
      exact .inr ⟨rfl, not_biaffine hpa hqb (.inl ⟨hvariables, hreads'⟩)⟩

/-- **A product** is formed, or it is refused and not biaffine. -/
theorem mul_cases {a b : Quantity Rat} (ha : a.Over m) (hb : b.Over m) :
    (∃ q, a.mul b = .ok q ∧ q.Represents m fun x u => a.value x u * b.value x u)
      ∨ (∃ e f, a.mul b = .error (.product e f)) ∧ ¬Biaffine fun x u => a.value x u * b.value x u := by
  cases a with
  | number c =>
    cases b with
    | number d => exact .inl ⟨_, rfl, trivial, fun x u => rfl⟩
    | expr f => exact .inl ⟨_, rfl, Expr.Over.scale hb c, fun x u => (f.value_scale x u c).trans (mul_comm _ _)⟩
  | expr e =>
    cases b with
    | number d => exact .inl ⟨_, rfl, Expr.Over.scale ha d, fun x u => e.value_scale x u d⟩
    | expr f => exact (mulExpr_cases ha hb).imp_right fun h => ⟨⟨e, f, h.1⟩, h.2⟩

/-- **A quotient** is formed for a constant divisor other than zero. -/
theorem div_cases {a : Quantity Rat} (ha : a.Over m) (b : Quantity Rat) :
    (∃ c ≠ 0, (∀ x u, b.value x u = c) ∧ ∃ q, a.div b = .ok q ∧ q.Represents m fun x u => a.value x u / c)
      ∨ (∀ x u, b.value x u = 0) ∧ a.div b = .error (.zeroDivisor a)
      ∨ (¬∃ c, ∀ x u, b.value x u = c) ∧ a.div b = .error (.divisor a b) := by
  obtain ⟨r, hr, hsimplest, hvalue⟩ := b.exists_reduce
  unfold div
  rw [hr]
  rcases hsimplest.constant_or with ⟨c, rfl⟩ | ⟨⟨e, rfl⟩, hnone⟩
  · dsimp only [liftFault, bind, Except.bind]
    by_cases hc : c = 0
    · exact .inr (.inl ⟨fun x u => (hvalue x u).symm.trans hc, if_pos (isZero_iff.mpr hc)⟩)
    · rw [if_neg (Bool.eq_false_iff.mp (isZero_eq_false_iff.mpr hc))]
      refine .inl ⟨c, hc, fun x u => (hvalue x u).symm, ?_⟩
      cases a with
      | number d => exact ⟨_, rfl, trivial, fun x u => rfl⟩
      | expr f =>
        refine ⟨_, rfl, Expr.Over.scale ha _, fun x u => ?_⟩
        rw [value, Expr.value_scale, exact_one, mul_one_div, value]
  · simp only [hvalue] at hnone
    exact .inr (.inr ⟨hnone, rfl⟩)

end Quantity

/-! ## Formulas -/

/-- A formula as it is written. -/
inductive Formula where
  | decision (j : Nat)
  | parameter (k : Nat)
  | number (c : Rat)
  | add (f g : Formula)
  | sub (f g : Formula)
  | mul (f g : Formula)
  | div (f g : Formula)
  | neg (f : Formula)

namespace Formula

/-- The quantity that the operators compute, with the symbols of the model `m`. -/
def build (m : ModelId) : Formula → Except (ExprError Rat) (Quantity Rat)
  | decision j => .ok (.expr (.ofVariable ⟨m, j⟩))
  | parameter k => .ok (.expr (.ofParameter ⟨m, k⟩))
  | number c => .ok (.number c)
  | add f g => do (← f.build m).add (← g.build m)
  | sub f g => do (← f.build m).sub (← g.build m)
  | mul f g => do (← f.build m).mul (← g.build m)
  | div f g => do (← f.build m).div (← g.build m)
  | neg f => do return (← f.build m).neg

/-- The value for given numbers of the variables and parameters; there is none if a divisor is zero. -/
def value (x u : Nat → Rat) : Formula → Option Rat
  | decision j => some (x j)
  | parameter k => some (u k)
  | number c => some c
  | add f g => do return (← f.value x u) + (← g.value x u)
  | sub f g => do return (← f.value x u) - (← g.value x u)
  | mul f g => do return (← f.value x u) * (← g.value x u)
  | div f g => do
    let p ← f.value x u
    let q ← g.value x u
    if q = 0 then none else some (p / q)
  | neg f => do return -(← f.value x u)

/-- Affine in the variables, with coefficients affine in the parameters. -/
def IsMixed (f : Formula) : Prop := ∃ F : MixedForm Rat, ∀ x u, f.value x u = some (F.value x u)

/-- The same value everywhere. -/
def IsConstant (f : Formula) : Prop := ∃ c, ∀ x u, f.value x u = some c

/-- Building answers a quantity of the value of the formula. -/
structure Builds (m : ModelId) (f : Formula) (q : Quantity Rat) : Prop where
  owned : q.Over m
  value : ∀ x u, f.value x u = some (q.value x u)

/-- **A formula that is built has the value of what is built.** The induction is on the formula; only products and quotients can
fail, and a quotient that is built has a divisor that is never zero. -/
theorem builds_of_build {m : ModelId} {f : Formula} {q : Quantity Rat} (h : f.build m = .ok q) : f.Builds m q := by
  induction f generalizing q with
  | decision j =>
    cases h
    exact ⟨fun n hn => (Option.mem_some.mp hn).symm, fun x u => congrArg some (Expr.value_ofVariable x u ⟨m, j⟩).symm⟩
  | parameter k =>
    cases h
    exact ⟨fun n hn => (Option.mem_some.mp hn).symm, fun x u => congrArg some (Expr.value_ofParameter x u ⟨m, k⟩).symm⟩
  | number c =>
    cases h
    exact ⟨trivial, fun x u => rfl⟩
  | add f g ihf ihg =>
    obtain ⟨a, ha, h⟩ := bind_eq_ok.mp h
    obtain ⟨b, hb, h⟩ := bind_eq_ok.mp h
    obtain ⟨s, hs, hover⟩ := (ihf ha).owned.add (ihg hb).owned
    obtain rfl := Except.ok.inj (hs.symm.trans h)
    refine ⟨hover, fun x u => ?_⟩
    rw [value, (ihf ha).value, (ihg hb).value, Quantity.value_of_add x u h]
    rfl
  | sub f g ihf ihg =>
    obtain ⟨a, ha, h⟩ := bind_eq_ok.mp h
    obtain ⟨b, hb, h⟩ := bind_eq_ok.mp h
    obtain ⟨s, hs, hover⟩ := (ihf ha).owned.add ((ihg hb).owned.scale Scalar.minusOne)
    obtain rfl := Except.ok.inj (hs.symm.trans h)
    refine ⟨hover, fun x u => ?_⟩
    rw [value, (ihf ha).value, (ihg hb).value, Quantity.value_of_add x u h, Quantity.value_neg, ← sub_eq_add_neg]
    rfl
  | mul f g ihf ihg =>
    obtain ⟨a, ha, h⟩ := bind_eq_ok.mp h
    obtain ⟨b, hb, h⟩ := bind_eq_ok.mp h
    rcases Quantity.mul_cases (ihf ha).owned (ihg hb).owned with ⟨s, hs, hrep⟩ | ⟨⟨e, e', herror⟩, -⟩
    · obtain rfl := Except.ok.inj (hs.symm.trans h)
      refine ⟨hrep.owned, fun x u => ?_⟩
      rw [value, (ihf ha).value, (ihg hb).value, hrep.value]
      rfl
    · cases herror.symm.trans h
  | div f g ihf ihg =>
    obtain ⟨a, ha, h⟩ := bind_eq_ok.mp h
    obtain ⟨b, hb, h⟩ := bind_eq_ok.mp h
    rcases Quantity.div_cases (ihf ha).owned b with ⟨c, hc, hconst, s, hs, hrep⟩ | ⟨-, herror⟩ | ⟨-, herror⟩
    · obtain rfl := Except.ok.inj (hs.symm.trans h)
      refine ⟨hrep.owned, fun x u => ?_⟩
      -- the divisor is the same number everywhere, and not zero
      rw [value, (ihf ha).value, (ihg hb).value, hconst, hrep.value]
      exact if_neg hc
    · cases herror.symm.trans h
    · cases herror.symm.trans h
  | neg f ihf =>
    obtain ⟨a, ha, h⟩ := bind_eq_ok.mp h
    cases h
    refine ⟨(ihf ha).owned.scale Scalar.minusOne, fun x u => ?_⟩
    rw [value, (ihf ha).value, Quantity.value_neg]
    rfl

end Formula

/-! ## Refusals -/

theorem Print.exists_expr (naming : Naming) (showConstant : Bool) (e : Expr Rat) :
    ∃ t, Print.expr naming showConstant e = .ok t := by
  unfold Print.expr
  cases e with
  | linear e =>
    dsimp only
    rw [Affine.normalized_eq]
    exact ⟨_, rfl⟩
  | uncertain e =>
    dsimp only
    rw [Affine.normalized_eq]
    exact ⟨_, rfl⟩
  | full e =>
    dsimp only
    rw [Full.normalized_eq]
    exact ⟨_, rfl⟩

theorem Print.exists_quantity (naming : Naming) (q : Quantity Rat) : ∃ t, Print.quantity naming q = .ok t := by
  cases q with
  | number c => exact ⟨_, rfl⟩
  | expr e => exact Print.exists_expr naming true e

namespace ExprError

variable (naming : Naming)

theorem kind_product (a b : Expr Rat) : ((product a b).report naming).kind = .nonlinear := by
  obtain ⟨s, hs⟩ := Print.exists_expr naming true a
  obtain ⟨t, ht⟩ := Print.exists_expr naming true b
  rw [report, hs, ht]
  rfl

theorem kind_divisor (a b : Quantity Rat) : ((divisor a b).report naming).kind = .nonlinear := by
  obtain ⟨s, hs⟩ := Print.exists_quantity naming a
  obtain ⟨t, ht⟩ := Print.exists_quantity naming b
  rw [report, hs, ht]
  rfl

theorem kind_zeroDivisor (a : Quantity Rat) : ((zeroDivisor a).report naming).kind = .zeroDivision := by
  obtain ⟨s, hs⟩ := Print.exists_quantity naming a
  rw [report, hs]
  rfl

end ExprError

/-- An operation fails with an error of a kind. -/
def Raises {α : Type} (naming : Naming) (k : ErrorKind) (r : Except (ExprError Rat) α) : Prop :=
  ∃ e, r = .error e ∧ (e.report naming).kind = k

section

variable {α : Type} {naming : Naming} {k : ErrorKind}

theorem not_raises_ok (a : α) : ¬Raises naming k (.ok a) := fun ⟨_, h, _⟩ => nomatch h

theorem raises_error {e : ExprError Rat} : Raises naming k (.error e : Except _ α) ↔ (e.report naming).kind = k :=
  ⟨fun ⟨_, h, hk⟩ => Except.error.inj h ▸ hk, fun hk => ⟨e, rfl, hk⟩⟩

end

namespace Formula

variable {m : ModelId} {naming : Naming} {f g : Formula} {a b : Quantity Rat}

theorem Builds.value_mul (hf : f.Builds m a) (hg : g.Builds m b) (x u : Nat → Rat) :
    (f.mul g).value x u = some (a.value x u * b.value x u) := by
  rw [Formula.value, hf.value, hg.value]
  rfl

/-- A product is refused exactly when it is not biaffine. -/
theorem Builds.raises_mul_iff (hf : f.Builds m a) (hg : g.Builds m b) :
    Raises naming .nonlinear (a.mul b) ↔ ¬(f.mul g).IsMixed := by
  rcases Quantity.mul_cases hf.owned hg.owned with ⟨q, hq, hrep⟩ | ⟨⟨e, e', herror⟩, hnot⟩
  · rw [hq]
    refine iff_of_false (not_raises_ok q) (not_not_intro ?_)
    obtain ⟨F, hF⟩ := q.exists_mixedForm
    exact ⟨F, fun x u => by rw [hf.value_mul hg, hF, hrep.value]⟩
  · rw [herror, raises_error]
    refine iff_of_true (ExprError.kind_product naming e e') fun ⟨F, hF⟩ => hnot ?_
    have hvalue : ∀ x u, F.value x u = a.value x u * b.value x u :=
      fun x u => Option.some.inj ((hF x u).symm.trans (hf.value_mul hg x u))
    have hbiaffine := F.biaffine_value
    simp only [hvalue] at hbiaffine
    exact hbiaffine

theorem Builds.value_eq_iff (hg : g.Builds m b) {c : Rat} : (∀ x u, g.value x u = some c) ↔ ∀ x u, b.value x u = c := by
  simp only [hg.value, Option.some.injEq]

/-- A quotient is refused exactly when the divisor is not constant, and reported as a division by zero exactly when it is
zero. -/
theorem Builds.raises_div_iff (hf : f.Builds m a) (hg : g.Builds m b) :
    (Raises naming .nonlinear (a.div b) ↔ ¬g.IsConstant) ∧
      (Raises naming .zeroDivision (a.div b) ↔ ∀ x u, g.value x u = some 0) := by
  simp only [IsConstant, hg.value_eq_iff]
  rcases Quantity.div_cases hf.owned b with ⟨c, hc, hconst, q, hq, -⟩ | ⟨hzero, herror⟩ | ⟨hnot, herror⟩
  · rw [hq]
    exact ⟨iff_of_false (not_raises_ok q) (not_not_intro ⟨c, hconst⟩),
      iff_of_false (not_raises_ok q) fun h => hc ((hconst 0 0).symm.trans (h 0 0))⟩
  · rw [herror, raises_error, raises_error, ExprError.kind_zeroDivisor]
    exact ⟨iff_of_false ErrorKind.noConfusion (not_not_intro ⟨0, hzero⟩), iff_of_true rfl hzero⟩
  · rw [herror, raises_error, raises_error, ExprError.kind_divisor]
    exact ⟨iff_of_true rfl hnot, iff_of_false ErrorKind.noConfusion fun h => hnot ⟨0, h⟩⟩

/-- **The operators compute what is written.** A formula that is built has a value everywhere, and evaluating what is built
answers it. A product of two formulas is refused exactly when it is not affine in the variables with coefficients affine in the
parameters; a quotient is refused exactly when the divisor is not constant, and is a division by zero exactly when the divisor is
zero. -/
theorem build_correct (m : ModelId) (naming : Naming) :
    (∀ f q, build m f = .ok q → ∀ x u, ∃ r, f.value x u = some r ∧
      q.evaluate (fun k => .ok (u k.index)) (fun v => .ok (x v.index)) = .ok r) ∧
    ∀ f g a b, build m f = .ok a → build m g = .ok b →
      (Raises naming .nonlinear (build m (f.mul g)) ↔ ¬(f.mul g).IsMixed) ∧
      (Raises naming .nonlinear (build m (f.div g)) ↔ ¬g.IsConstant) ∧
      (Raises naming .zeroDivision (build m (f.div g)) ↔ ∀ x u, g.value x u = some 0) := by
  constructor
  · intro f q hq x u
    exact ⟨q.value x u, (builds_of_build hq).value x u, q.evaluate_eq x u⟩
  · intro f g a b ha hb
    have hmul : build m (f.mul g) = a.mul b := by
      rw [build, ha, hb]
      rfl
    have hdiv : build m (f.div g) = a.div b := by
      rw [build, ha, hb]
      rfl
    rw [hmul, hdiv]
    exact ⟨(builds_of_build ha).raises_mul_iff (builds_of_build hb), (builds_of_build ha).raises_div_iff (builds_of_build hb)⟩

/-- One name for each sort of symbol. -/
def sampleNaming : Naming := { ofVariable := fun _ => "x", ofParameter := fun _ => "u", ofModel := fun _ => "m" }

/-- A variable that is doubled, plus a quarter of a parameter; then a product and two quotients. -/
theorem build_correct_sample :
    (∃ q, build 0 (((decision 0).mul (number 2)).add ((parameter 0).div (number 4))) = .ok q ∧
      q.evaluate (fun _ => .ok 6) (fun _ => .ok 5) = .ok (23 / 2)) ∧
    ¬Raises sampleNaming .nonlinear (build 0 (((decision 0).mul (number 2)).mul (parameter 0))) ∧
    Raises sampleNaming .nonlinear (build 0 ((number 1).div (decision 0))) ∧
    Raises sampleNaming .zeroDivision (build 0 ((number 1).div ((decision 0).sub (decision 0)))) := by
  obtain ⟨hvalue, hrefused⟩ := build_correct 0 sampleNaming
  refine ⟨?_, ?_, ?_, ?_⟩
  · refine ⟨_, rfl, ?_⟩
    obtain ⟨r, hr, heval⟩ := hvalue (((decision 0).mul (number 2)).add ((parameter 0).div (number 4))) _ rfl (fun _ => 5)
      fun _ => 6
    obtain rfl : (23 / 2 : Rat) = r := by
      refine Option.some.inj (Eq.trans ?_ hr)
      norm_num [value]
    exact heval
  · refine not_not.mp fun h => (hrefused ((decision 0).mul (number 2)) (parameter 0) _ _ rfl rfl).1.mp (not_not.mp h) ?_
    refine ⟨{ linear := [(0, { linear := [(0, 2)], constant := 0 })], constant := .ofConstant 0 }, fun x u => ?_⟩
    simp [value, MixedForm.value, Form.value, Form.ofConstant]
    ring
  · refine (hrefused (number 1) (decision 0) _ _ rfl rfl).2.1.mpr fun hconst => ?_
    obtain ⟨c, hc⟩ := hconst
    have h := (hc 0 0).trans (hc 1 0).symm
    simp [value] at h
  · refine (hrefused (number 1) ((decision 0).sub (decision 0)) _ _ rfl rfl).2.2.mpr fun x u => ?_
    simp [value]

end Formula

end RobustLP
