import RobustLP.Proofs.Rounding.Reduction

/-!
# Laws of addition

The exact content of a sum is the content of its operands, one after the other (`Rounding.content_of_add`): no operator adds
numbers up before they are normalised. So a sum does not depend on how its operands are grouped (`Rounding.equal_add_assoc`),
and an operand that is added and taken away again leaves a content that cancels (`Rounding.equal_add_sub`).
-/

namespace RobustLP

namespace Rounding

/-! ## Contents one after the other -/

section Contents

variable {S : Type}

/-- Two exact contents one after the other. -/
def appendForm (x y : Affine S Rat) : Affine S Rat :=
  { terms := x.terms ++ y.terms, constant := 0, parts := some (x.constantParts ++ y.constantParts) }

/-- The opposite of an exact content. -/
def negForm (x : Affine S Rat) : Affine S Rat :=
  { terms := x.terms.map fun t => (t.1, -t.2), constant := 0, parts := some (x.constantParts.map (-·)) }

/-- Two exact contents of full kind one after the other. -/
def appendFull (x y : Full Rat) : Full Rat :=
  { terms := x.terms ++ y.terms, constant := appendForm x.constant y.constant }

/-- The opposite of an exact content of full kind. -/
def negFull (x : Full Rat) : Full Rat :=
  { terms := x.terms.map fun t => (t.1, negForm t.2), constant := negForm x.constant }

/-- The exact content of a number. -/
def numberContent (q : Rat) : Full Rat :=
  { terms := [], constant := { terms := [], constant := 0, parts := some [q] } }

theorem constantParts_appendForm (x y : Affine S Rat) :
    (appendForm x y).constantParts = x.constantParts ++ y.constantParts := rfl

theorem appendForm_assoc (x y z : Affine S Rat) : appendForm (appendForm x y) z = appendForm x (appendForm y z) := by
  simp only [appendForm, Affine.constantParts, List.append_assoc]

theorem appendFull_assoc (x y z : Full Rat) : appendFull (appendFull x y) z = appendFull x (appendFull y z) := by
  simp only [appendFull, List.append_assoc, appendForm_assoc]

theorem negFull_numberContent (q : Rat) : negFull (numberContent q) = numberContent (-q) := rfl

theorem joinForms_append (fs gs : List (Affine Parameter Rat)) :
    joinForms (fs ++ gs) = appendForm (joinForms fs) (joinForms gs) := by
  rw [joinForms, List.flatMap_append, List.flatMap_append]
  rfl

theorem joinForms_neg (fs : List (Affine Parameter Rat)) : joinForms (fs.map negForm) = negForm (joinForms fs) := by
  have hparts : (joinForms fs).constantParts = fs.flatMap (·.constantParts) := rfl
  rw [negForm, hparts, joinForms, joinForms, List.map_flatMap, List.map_flatMap, List.flatMap_map, List.flatMap_map]
  rfl

/-! ## Contents that cancel -/

theorem sum_append_neg (qs : List Rat) : (qs ++ qs.map (-·)).sum = 0 := by
  rw [List.sum_append]
  induction qs with
  | nil => rw [List.map_nil, List.sum_nil, add_zero]
  | cons q qs ih =>
    rw [List.map_cons, List.sum_cons, List.sum_cons]
    linarith

section

variable [Symbol S]

/-- All totals of an exact content are zero. -/
structure CancelsForm (y : Affine S Rat) : Prop where
  terms : ∀ s, (valuesOf Symbol.index s y.terms).sum = 0
  parts : y.constantParts.sum = 0

/-- A content and its opposite cancel. -/
theorem cancels_append_negForm (x : Affine S Rat) : CancelsForm (appendForm x (negForm x)) where
  terms s := by
    rw [appendForm, valuesOf_append, negForm, valuesOf_map Symbol.index (-·)]
    exact sum_append_neg _
  parts := sum_append_neg _

end

/-- All totals of an exact content of full kind are zero. -/
structure CancelsFull (y : Full Rat) : Prop where
  terms : ∀ v, CancelsForm (joinForms (valuesOf Variable.index v y.terms))
  constant : CancelsForm y.constant

theorem cancels_append_negFull (x : Full Rat) : CancelsFull (appendFull x (negFull x)) where
  terms v := by
    rw [appendFull, valuesOf_append, negFull, valuesOf_map Variable.index negForm, joinForms_append, joinForms_neg]
    exact cancels_append_negForm _
  constant := cancels_append_negForm _

variable {K B : Type} [Scalar K B] (R : Rounding K)

theorem roundForm_append [Symbol S] (x : Affine S Rat) {y : Affine S Rat} (hy : CancelsForm y) :
    R.roundForm (appendForm x y) = R.roundForm x := by
  have hterms : summary Symbol.index (fun cs => R.near cs.sum) (fun c => !Scalar.isZero c) (x.terms ++ y.terms)
      = summary Symbol.index (fun cs => R.near cs.sum) (fun c => !Scalar.isZero c) x.terms := by
    refine summary_append Symbol.index (fun s cs => ?_) ?_
    · rw [List.sum_append, hy.terms, add_zero]
    · rw [List.sum_nil, near_zero]
      rfl
  rw [roundForm, constantParts_appendForm, List.sum_append, hy.parts, add_zero, appendForm, hterms]
  rfl

/-- **A content that cancels leaves no trace.** -/
theorem roundFull_append (x : Full Rat) {y : Full Rat} (hy : CancelsFull y) : R.roundFull (appendFull x y) = R.roundFull x := by
  have hterms : summary Variable.index (fun fs => R.roundForm (joinForms fs)) (fun f => !Full.isZeroForm f) (x.terms ++ y.terms)
      = summary Variable.index (fun fs => R.roundForm (joinForms fs)) (fun f => !Full.isZeroForm f) x.terms := by
    refine summary_append Variable.index (fun v fs => ?_) ?_
    · rw [joinForms_append, R.roundForm_append _ (hy.terms v)]
    · have hzero : R.roundForm (joinForms []) = Affine.ofConstant (R.near 0) := roundForm_of_parts []
      rw [hzero, near_zero]
      rfl
  rw [roundFull, appendFull, hterms, R.roundForm_append _ hy.constant]
  rfl

end Contents

/-! ## The operators -/

section Operators

variable {K B : Type} [Scalar K B] {R : Rounding K}

theorem exactForm_concat {S : Type} (a b : Affine S K) (owner : Option ModelId) :
    R.exactForm (a.concat b owner) = appendForm (R.exactForm a) (R.exactForm b) := by
  simp only [exactForm, appendForm, Affine.concat, Affine.constantParts, List.map_append]

theorem exactFull_of_concat {a b s : Full K} {owner : Option ModelId} (h : a.concat b owner = .ok s) :
    R.exactFull s = appendFull (R.exactFull a) (R.exactFull b) := by
  obtain ⟨o, -, hs⟩ := bind_eq_ok.mp h
  cases hs
  simp only [exactFull, appendFull, List.map_append, exactForm_concat]

/-- **The content of a sum** is that of its operands, one after the other. -/
theorem content_of_add {a b s : Expr K} (h : a.add b = .ok s) : R.content s = appendFull (R.content a) (R.content b) := by
  obtain ⟨owner, -, ⟨a, b, rfl, rfl, rfl⟩ | ⟨a, b, rfl, rfl, rfl⟩ | ⟨-, f, hf, rfl⟩⟩ := Expr.add_cases h
  · rw [content_linear, content_linear, content_linear, appendFull]
    simp only [Affine.concat, appendForm, Affine.constantParts, List.map_append, List.append_nil]
  · exact congrArg (fun f => { terms := [], constant := f : Full Rat }) (exactForm_concat a b owner)
  · exact exactFull_of_concat hf

theorem exactForm_addConstant {S : Type} (e : Affine S K) {c : K} (hc : Scalar.isZero c = false) :
    R.exactForm (e.addConstant c)
      = appendForm (R.exactForm e) { terms := [], constant := 0, parts := some [R.value c] } := by
  rw [Affine.addConstant, hc]
  simp only [exactForm, appendForm, Affine.constantParts, List.map_append, List.append_nil, Bool.false_eq_true, if_false,
    List.map_singleton]

theorem toFull_addConstant (e : Expr K) (c : K) : (e.addConstant c).toFull = e.toFull.addConstant c := by
  cases e with
  | linear e =>
    rw [Expr.addConstant, Full.addConstant, Affine.addConstant, Affine.addConstant]
    split <;> rfl
  | uncertain e =>
    have howner : (e.addConstant c).owner = e.owner := by
      unfold Affine.addConstant
      split <;> rfl
    rw [Expr.addConstant, Expr.toFull, howner]
    rfl
  | full e => rfl

/-- The content of an expression plus a number other than zero. -/
theorem content_addConstant (e : Expr K) {c : K} (hc : Scalar.isZero c = false) :
    R.content (e.addConstant c) = appendFull (R.content e) (numberContent (R.value c)) := by
  rw [content, toFull_addConstant, exactFull, Full.addConstant, exactForm_addConstant _ hc, appendFull, numberContent,
    List.append_nil]
  rfl

theorem addConstant_of_isZero (e : Expr K) {c : K} (hc : Scalar.isZero c = true) : e.addConstant c = e := by
  cases e with
  | linear e => exact congrArg Expr.linear (if_pos hc)
  | uncertain e => exact congrArg Expr.uncertain (if_pos hc)
  | full e => exact congrArg (fun f => Expr.full { e with constant := f }) (if_pos hc)

theorem exactForm_scale {S : Type} {e : Affine S K} (he : e.All R.Finite) :
    R.exactForm (e.scale Scalar.minusOne) = negForm (R.exactForm e) := by
  have hterms : (e.terms.map fun t => (t.1, R.value (t.2 * Scalar.minusOne))) = e.terms.map fun t => (t.1, -R.value t.2) :=
    List.map_congr_left fun t ht => by rw [R.value_opposite (he.terms t ht)]
  have hparts : (e.constantParts.map fun c => R.value (c * Scalar.minusOne)) = e.constantParts.map fun c => -R.value c :=
    List.map_congr_left fun c hc => R.value_opposite (he.parts c hc)
  have hparts' : (R.exactForm e).constantParts = e.constantParts.map R.value := rfl
  rw [exactForm, Affine.constantParts_scale, Affine.scale, negForm, hparts', exactForm]
  simp only [List.map_map, Function.comp_def]
  rw [hterms, hparts]

theorem toFull_scale (e : Expr K) (c : K) : (e.scale c).toFull = e.toFull.scale c := by
  cases e with
  | linear e =>
    rw [Expr.scale, Expr.toFull, Expr.toFull, Full.scale, Affine.scale, List.map_map, List.map_map]
    rfl
  | uncertain e => rfl
  | full e => rfl

/-- **The content of the opposite** is the opposite. -/
theorem content_scale {e : Expr K} (he : e.All R.Finite) : R.content (e.scale Scalar.minusOne) = negFull (R.content e) := by
  have hfull := he.toFull
  have hterms : (e.toFull.terms.map fun t => (t.1, R.exactForm (t.2.scale Scalar.minusOne)))
      = e.toFull.terms.map fun t => (t.1, negForm (R.exactForm t.2)) :=
    List.map_congr_left fun t ht => by rw [exactForm_scale (hfull.terms t ht)]
  rw [content, toFull_scale, exactFull, content, exactFull, negFull, Full.scale, exactForm_scale hfull.constant]
  simp only [List.map_map, Function.comp_def]
  rw [hterms]

/-! ## The laws -/

theorem isZero_opposite {c : K} (hc : R.Finite c) : Scalar.isZero (c * Scalar.minusOne) = Scalar.isZero c := by
  have h : Scalar.isZero (c * Scalar.minusOne) = true ↔ Scalar.isZero c = true := by
    rw [isZero_iff (R.finite_opposite hc), isZero_iff hc, R.value_opposite hc, neg_eq_zero]
  exact Bool.eq_iff_iff.mpr h

/-- A quantity that is added and taken away again leaves the content as it is once rounded. -/
theorem round_add_sub {a : Expr K} {b s d : Quantity K} (ha : a.All R.Finite) (hb : b.All R.Finite)
    (hs : (Quantity.expr a).add b = .ok s) (hd : s.sub b = .ok d) :
    ∃ e, d = .expr e ∧ e.All R.Finite ∧ R.roundFull (R.content e) = R.roundFull (R.content a) := by
  cases b with
  | number c =>
    cases hs
    cases hd
    -- zero changes nothing, and so does its opposite
    refine ⟨_, rfl, (ha.addConstant hb).addConstant (R.finite_opposite hb), ?_⟩
    cases hzero : Scalar.isZero c with
    | true =>
      rw [addConstant_of_isZero _ ((isZero_opposite hb).trans hzero), addConstant_of_isZero a hzero]
    | false =>
      rw [content_addConstant _ ((isZero_opposite hb).trans hzero), content_addConstant a hzero, R.value_opposite hb,
        appendFull_assoc, ← negFull_numberContent, R.roundFull_append _ (cancels_append_negFull _)]
  | expr b =>
    obtain ⟨t, ht, h⟩ := bind_eq_ok.mp hs
    cases h
    obtain ⟨e, he, h⟩ := bind_eq_ok.mp hd
    cases h
    refine ⟨e, rfl, (ha.add hb ht).add (Expr.All.scale hb fun _ => R.finite_opposite) he, ?_⟩
    rw [content_of_add he, content_of_add ht, content_scale hb, appendFull_assoc,
      R.roundFull_append _ (cancels_append_negFull _)]

variable {m : ModelId}

/-- **What is added and taken away again leaves no trace,** unless a sum overflows. -/
theorem equal_add_sub {a : Expr K} {b : Quantity K} (ham : a.Over m) (hbm : b.Over m) (ha : a.All R.Finite)
    (hb : b.All R.Finite) : ∃ s d, (Quantity.expr a).add b = .ok s ∧ s.sub b = .ok d
      ∧ (d.equal (.expr a) ≠ .error .overflow → d.equal (.expr a) = .ok true) := by
  obtain ⟨s, hs, hsm⟩ := Quantity.Over.add (a := .expr a) ham hbm
  obtain ⟨d, hd, -⟩ := hsm.add (hbm.scale Scalar.minusOne)
  obtain ⟨e, rfl, he, hround⟩ := round_add_sub ha hb hs hd
  exact ⟨s, .expr e, hs, hd, equal_of_round_eq he ha hround⟩

/-- **Sums do not depend on how their operands are grouped,** unless a sum overflows. -/
theorem equal_add_assoc {a b c : Expr K} (ham : a.Over m) (hbm : b.Over m) (hcm : c.Over m) (ha : a.All R.Finite)
    (hb : b.All R.Finite) (hc : c.All R.Finite) :
    ∃ s t l r, (Quantity.expr a).add (.expr b) = .ok s ∧ s.add (.expr c) = .ok l ∧ (Quantity.expr b).add (.expr c) = .ok t
      ∧ (Quantity.expr a).add t = .ok r ∧ (l.equal r ≠ .error .overflow → l.equal r = .ok true) := by
  obtain ⟨s, hs, hsm⟩ := ham.add hbm
  obtain ⟨l, hl, -⟩ := hsm.add hcm
  obtain ⟨t, ht, htm⟩ := hbm.add hcm
  obtain ⟨r, hr, -⟩ := ham.add htm
  refine ⟨.expr s, .expr t, .expr l, .expr r, Quantity.add_expr hs, Quantity.add_expr hl, Quantity.add_expr ht,
    Quantity.add_expr hr, equal_of_round_eq ((ha.add hb hs).add hc hl) (ha.add (hb.add hc ht) hr) ?_⟩
  rw [content_of_add hl, content_of_add hs, content_of_add hr, content_of_add ht, appendFull_assoc]

end Operators

end Rounding

end RobustLP
