import RobustLP.Expr.Equal
import RobustLP.Proofs.Rounding.Readings

/-!
# Structural equality and exact contents

The exact content of an expression is that of its full form. What an expression reduces to only depends on its exact content
(`Rounding.reduces_of_reduce`), and so does structural equality: expressions of the same content, rounded once, are equal
(`Rounding.equal_of_round_eq`).
-/

namespace RobustLP

/-- A linear normal form, as full form, has the kind of the linear form. -/
theorem Full.simplest_toFull_linear {K B : Type} [Scalar K B] {n : Affine Variable K} (h : n.parts = none) :
    (Expr.linear n).toFull.simplest = if n.terms.isEmpty then .number n.constant else .expr (.linear n) := by
  have hnumeric : numericTerms (n.terms.map fun t => (t.1, Affine.ofConstant t.2)) = some n.terms := by
    rw [numericTerms_eq_some (List.forall_mem_map.mpr fun t _ => rfl), List.map_map]
    exact congrArg some (List.map_id _)
  obtain ⟨terms, constant, parts, owner⟩ := n
  cases h
  unfold Full.simplest Expr.toFull
  dsimp only at hnumeric ⊢
  rw [hnumeric, List.isEmpty_map]
  rfl

namespace Rounding

variable {K B : Type} [Scalar K B] {R : Rounding K}

/-! ## Exact contents -/

variable (R) in
/-- **The exact content of an expression.** -/
def content (e : Expr K) : Full Rat := R.exactFull e.toFull

theorem roundForm_of_parts {S : Type} [Symbol S] (ps : List Rat) :
    R.roundForm ({ terms := [], constant := 0, parts := some ps } : Affine S Rat) = Affine.ofConstant (R.near ps.sum) := by
  rw [roundForm, summary_nil]
  rfl

/-- Coefficients that are numbers are summed as numbers. -/
theorem joinForms_ofConstant (cs : List K) : joinForms (cs.map fun c => R.exactForm (Affine.ofConstant c))
    = { terms := [], constant := 0, parts := some (cs.map R.value) } := by
  have hterms : (cs.map fun c => R.exactForm (Affine.ofConstant c : Affine Parameter K)).flatMap (·.terms) = [] :=
    List.flatMap_eq_nil_iff.mpr (List.forall_mem_map.mpr fun c _ => rfl)
  have hparts : (cs.map fun c => R.exactForm (Affine.ofConstant c : Affine Parameter K)).flatMap (·.constantParts)
      = cs.map R.value := by
    rw [List.flatMap_map, ← List.flatMap_singleton' (cs.map R.value), List.flatMap_map]
    rfl
  rw [joinForms, hterms, hparts]

theorem content_linear (e : Affine Variable K) : R.content (.linear e)
    = { terms := e.terms.map fun t => (t.1, R.exactForm (Affine.ofConstant t.2))
        constant := { terms := [], constant := 0, parts := some (e.constantParts.map R.value) } } := by
  rw [content, Expr.toFull, exactFull, List.map_map]
  rfl

/-- **A linear expression has the same totals as its full form.** -/
theorem roundFull_linear (e : Affine Variable K) :
    R.roundFull (R.content (.linear e)) = (Expr.linear (R.roundForm (R.exactForm e))).toFull := by
  have hterms : summary Variable.index (fun fs => R.roundForm (joinForms fs)) (fun f => !Full.isZeroForm f)
        (e.terms.map fun t => (t.1, R.exactForm (Affine.ofConstant t.2)))
      = (summary Variable.index (fun cs => R.near cs.sum) (fun c => !Scalar.isZero c)
          (e.terms.map fun t => (t.1, R.value t.2))).map fun t => (t.1, Affine.ofConstant t.2) := by
    refine summary_map Variable.index (fun c => R.exactForm (Affine.ofConstant c)) R.value Affine.ofConstant ?_ ?_ e.terms
    · exact fun cs => by rw [joinForms_ofConstant, roundForm_of_parts]
    · exact fun q => rfl
  rw [content_linear, roundFull, hterms, roundForm_of_parts]
  rfl

/-! ## Reductions -/

variable (R) in
/-- What a reduced quantity reads. -/
def read : Quantity K → Quantity Rat
  | .number c => .number (R.value c)
  | .expr (.linear n) => .expr (.linear (R.readForm n))
  | .expr (.uncertain n) => .expr (.uncertain (R.readForm n))
  | .expr (.full n) => .expr (.full (R.readFull n))

variable (R) in
/-- All numbers that a reduced quantity shows are finite. -/
def FiniteReduced : Quantity K → Prop
  | .number c => R.Finite c
  | .expr (.linear n) => R.FiniteNormal n
  | .expr (.uncertain n) => R.FiniteNormal n
  | .expr (.full n) => (∀ t ∈ n.terms, R.FiniteNormal t.2) ∧ R.FiniteNormal n.constant

/-- The outcome of reducing an expression: its numbers are finite, and it reads the exact content, rounded once. -/
structure Reduces (e : Expr K) (q : Quantity K) : Prop where
  finite : R.FiniteReduced q
  read : R.read q = (R.roundFull (R.content e)).simplest

/-- Reading keeps the kind of a full normal form. -/
theorem read_simplest (n : Full K) : R.read n.simplest = (R.readFull n).simplest := by
  have hterms : (R.readFull n).terms.isEmpty = n.terms.isEmpty := List.isEmpty_map
  have hconstant : (R.readFull n).constant.terms.isEmpty = n.constant.terms.isEmpty := List.isEmpty_map
  -- the kind depends on which lists are empty, and reading keeps their lengths
  unfold Full.simplest
  rw [hterms, hconstant]
  cases n.terms.isEmpty with
  | true => cases n.constant.terms.isEmpty <;> rfl
  | false =>
    cases n.constant.terms.isEmpty with
    | false => rfl
    | true =>
      by_cases hnumeric : ∀ t ∈ n.terms, t.2.terms.isEmpty = true
      · have hread : ∀ t ∈ (R.readFull n).terms, t.2.terms.isEmpty = true :=
          List.forall_mem_map.mpr fun t ht => List.isEmpty_map.trans (hnumeric t ht)
        have hmap : (R.readFull n).terms.map (fun t => (t.1, t.2.constant))
            = (n.terms.map fun t => (t.1, t.2.constant)).map fun t => (t.1, R.value t.2) := by
          rw [readFull, List.map_map, List.map_map]
          rfl
        rw [numericTerms_eq_some hnumeric, numericTerms_eq_some hread, hmap]
        rfl
      · push Not at hnumeric
        obtain ⟨t, ht, hne⟩ := hnumeric
        have hne := Bool.eq_false_iff.mpr hne
        have hread : (t.1, R.readForm t.2) ∈ (R.readFull n).terms := List.mem_map_of_mem ht
        rw [numericTerms_eq_none ht hne, numericTerms_eq_none hread (List.isEmpty_map.trans hne)]
        rfl

theorem finiteReduced_simplest {n : Full K} (hterms : ∀ t ∈ n.terms, R.FiniteNormal t.2) (hconstant : R.FiniteNormal n.constant) :
    R.FiniteReduced n.simplest := by
  rcases n.simplest_cases with heq | ⟨-, heq⟩ | ⟨-, -, heq⟩ | heq <;> rw [heq]
  · exact hconstant.constant
  · exact hconstant
  · exact ⟨List.forall_mem_map.mpr fun t ht => (hterms t ht).constant, hconstant.constant⟩
  · exact ⟨hterms, hconstant⟩

/-- **What an expression reduces to** reads its exact content, rounded once. -/
theorem reduces_of_reduce {e : Expr K} (he : e.All R.Finite) {q : Quantity K} (h : e.reduce = .ok q) : R.Reduces e q := by
  obtain ⟨e, n, rfl, hn, rfl⟩ | ⟨e, n, rfl, hn, rfl⟩ | ⟨e, n, rfl, hn, rfl⟩ := Expr.reduce_cases h
  · have hnormal := normalizes_of_normalized he hn
    refine ⟨?_, ?_⟩
    · split
      · exact hnormal.finite.constant
      · exact hnormal.finite
    · rw [roundFull_linear, Full.simplest_toFull_linear rfl, ← hnormal.read, readForm, List.isEmpty_map]
      split <;> rfl
  · have hnormal := normalizes_of_normalized he hn
    refine ⟨?_, ?_⟩
    · split
      · exact hnormal.finite.constant
      · exact hnormal.finite
    · have hround : R.roundFull (R.content (.uncertain e)) = { terms := [], constant := R.readForm n } := by
        rw [hnormal.read, content, exactFull, roundFull, Expr.toFull, List.map_nil, summary_nil]
      rw [hround, Full.simplest, if_pos List.isEmpty_nil, readForm, List.isEmpty_map]
      split <;> rfl
  · have hnormal := fullNormalizes_of_normalized he hn
    refine ⟨finiteReduced_simplest hnormal.terms hnormal.constant, ?_⟩
    rw [read_simplest, hnormal.read]
    rfl

theorem onlyOverflows_reduce {e : Expr K} (he : e.All R.Finite) : OnlyOverflows e.reduce := by
  cases e with
  | linear e => exact (onlyOverflows_normalized he).bind fun n _ => .ok _
  | uncertain e => exact (onlyOverflows_normalized he).bind fun n _ => .ok _
  | full e =>
    intro f hf
    cases hn : e.normalized with
    | error g =>
      unfold Expr.reduce at hf
      dsimp only at hf
      rw [hn] at hf
      exact onlyOverflows_normalized_full he f (hn.trans (congrArg Except.error (Except.error.inj hf)))
    | ok n => cases (Expr.reduce_full hn).symm.trans hf

theorem onlyOverflows_normalized_expr {e : Expr K} (he : e.All R.Finite) : OnlyOverflows e.normalized := by
  cases e with
  | linear e => exact (onlyOverflows_normalized he).bind fun n _ => .ok _
  | uncertain e => exact (onlyOverflows_normalized he).bind fun n _ => .ok _
  | full e => exact (onlyOverflows_normalized_full he).bind fun n _ => .ok _

/-! ## Structural equality -/

theorem allAgree_of_map_eq {α β γ : Type} {f : α → γ} {g : β → γ} {agree : α → β → Bool} : ∀ {as : List α} {bs : List β},
    as.map f = bs.map g → (∀ a ∈ as, ∀ b ∈ bs, f a = g b → agree a b = true) → allAgree agree as bs = true
  | [], [], _, _ => rfl
  | [], _ :: _, h, _ => nomatch h
  | _ :: _, [], h, _ => nomatch h
  | a :: as, b :: bs, h, hall => by
    obtain ⟨hab, hrest⟩ := List.cons.inj h
    have ih := allAgree_of_map_eq hrest fun a' ha' b' hb' =>
      hall a' (List.mem_cons_of_mem a ha') b' (List.mem_cons_of_mem b hb')
    rw [allAgree, hall a List.mem_cons_self b List.mem_cons_self hab, ih]
    rfl

/-- Normal forms that read the same agree. -/
theorem agrees_of_readForm {S : Type} [BEq S] [LawfulBEq S] {a b : Affine S K} (ha : R.FiniteNormal a) (hb : R.FiniteNormal b)
    (h : R.readForm a = R.readForm b) : a.agrees b = true := by
  obtain ⟨hterms, hconstant, -, -⟩ := Affine.mk.inj h
  refine Bool.and_eq_true_iff.mpr ⟨(R.beq_iff ha.constant hb.constant).mpr hconstant, allAgree_of_map_eq hterms ?_⟩
  intro s hs t ht hst
  obtain ⟨hsymbol, hcoef⟩ := Prod.mk.inj hst
  exact Bool.and_eq_true_iff.mpr ⟨beq_iff_eq.mpr hsymbol, (R.beq_iff (ha.terms s hs) (hb.terms t ht)).mpr hcoef⟩

/-- **Quantities that reduce to the same readings are structurally equal.** -/
theorem equal_of_read {a b p q : Quantity K} (ha : a.reduce = .ok p) (hb : b.reduce = .ok q) (hp : R.FiniteReduced p)
    (hq : R.FiniteReduced q) (h : R.read p = R.read q) : a.equal b = .ok true := by
  unfold Quantity.equal
  rw [ha, hb]
  dsimp only [bind, Except.bind]
  cases p with
  | number x =>
    cases q with
    | number y => exact congrArg Except.ok ((R.beq_iff hp hq).mpr (Quantity.number.inj h))
    | expr f => cases f <;> cases h
  | expr e =>
    cases q with
    | number y => cases e <;> cases h
    | expr f =>
      cases e with
      | linear e =>
        cases f with
        | linear f => exact congrArg Except.ok (agrees_of_readForm hp hq (Expr.linear.inj (Quantity.expr.inj h)))
        | uncertain f => cases h
        | full f => cases h
      | uncertain e =>
        cases f with
        | linear f => cases h
        | uncertain f => exact congrArg Except.ok (agrees_of_readForm hp hq (Expr.uncertain.inj (Quantity.expr.inj h)))
        | full f => cases h
      | full e =>
        cases f with
        | linear f => cases h
        | uncertain f => cases h
        | full f =>
          obtain ⟨hterms, hconstant, -⟩ := Full.mk.inj (Expr.full.inj (Quantity.expr.inj h))
          have hlength : (e.terms.length == f.terms.length) = true := by
            have hlength := congrArg List.length hterms
            rw [List.length_map, List.length_map] at hlength
            exact beq_iff_eq.mpr hlength
          have hagree : allAgree (fun s t => s.1 == t.1 && Full.coefAgrees s.2 t.2) e.terms f.terms = true := by
            refine allAgree_of_map_eq hterms fun s hs t ht hst => ?_
            obtain ⟨hsymbol, hcoef⟩ := Prod.mk.inj hst
            exact Bool.and_eq_true_iff.mpr ⟨beq_iff_eq.mpr hsymbol, agrees_of_readForm (hp.1 s hs) (hq.1 t ht) hcoef⟩
          have hcoef : Full.coefAgrees e.constant f.constant = true := agrees_of_readForm hp.2 hq.2 hconstant
          dsimp only
          rw [hlength, hcoef, hagree]
          rfl

theorem onlyOverflows_equal {a b : Expr K} (ha : a.All R.Finite) (hb : b.All R.Finite) :
    OnlyOverflows ((Quantity.expr a).equal (.expr b)) := by
  refine (onlyOverflows_reduce ha).bind fun p _ => (onlyOverflows_reduce hb).bind fun q _ => ?_
  split <;> exact .ok _

/-- **Expressions whose exact contents are the same once rounded are structurally equal,** unless a sum overflows. -/
theorem equal_of_round_eq {a b : Expr K} (ha : a.All R.Finite) (hb : b.All R.Finite)
    (h : R.roundFull (R.content a) = R.roundFull (R.content b)) (hne : (Quantity.expr a).equal (.expr b) ≠ .error .overflow) :
    (Quantity.expr a).equal (.expr b) = .ok true := by
  obtain ⟨r, hr⟩ := (onlyOverflows_equal ha hb).exists_ok hne
  obtain ⟨p, hp, hrest⟩ := bind_eq_ok.mp hr
  obtain ⟨q, hq, -⟩ := bind_eq_ok.mp hrest
  have hread := reduces_of_reduce ha hp
  have hread' := reduces_of_reduce hb hq
  refine equal_of_read hp hq hread.finite hread'.finite ?_
  rw [hread.read, hread'.read, h]

end Rounding

end RobustLP
