import RobustLP.Proofs.Algebra.Normal
import RobustLP.Proofs.Algebra.Operators

/-!
# Normal forms that are rounded once

A `Rounding` lists what normal forms of rounded numbers rest on: the values of finite numbers, the number nearest to a value,
and sums that answer the number nearest to the sum of the values unless they overflow.

The *exact content* of a form (`exactForm`, `exactFull`) are the values of its numbers, with the parts of its constant. The normal
form is found from it: each total is rounded once (`roundForm`, `roundFull`). What a normal form reads (`readForm`, `readFull`) is
just that (`Rounding.normalizes_of_normalized`, `Rounding.fullNormalizes_of_normalized`), so that forms with the same totals have
the same normal form, however they were built. Nothing but an overflow keeps a form from being normalised
(`Rounding.onlyOverflows_normalized`).
-/

namespace RobustLP

/-! ## Overflows -/

/-- If a computation fails, a number is too large to be represented. -/
def OnlyOverflows {α : Type} (r : Except Fault α) : Prop := ∀ f, r = .error f → f = .overflow

namespace OnlyOverflows

variable {α β : Type}

theorem ok (a : α) : OnlyOverflows (.ok a) := fun _ h => nomatch h

theorem bind {r : Except Fault α} {g : α → Except Fault β} (h : OnlyOverflows r) (hg : ∀ a, r = .ok a → OnlyOverflows (g a)) :
    OnlyOverflows (r >>= g) := by
  cases r with
  | error f => exact fun f' hf => h f' (congrArg Except.error (Except.error.inj hf))
  | ok a => exact hg a rfl

theorem mapM {g : α → Except Fault β} : ∀ {l : List α}, (∀ a ∈ l, OnlyOverflows (g a)) → OnlyOverflows (l.mapM g)
  | [], _ => ok []
  | a :: l, h => by
    rw [List.mapM_cons]
    exact (h a List.mem_cons_self).bind fun b _ =>
      (mapM fun c hc => h c (List.mem_cons_of_mem a hc)).bind fun bs _ => ok (b :: bs)

/-- There is a result unless there is an overflow. -/
theorem exists_ok {r : Except Fault α} (h : OnlyOverflows r) (hne : r ≠ .error .overflow) : ∃ a, r = .ok a := by
  cases r with
  | error f => exact absurd (congrArg Except.error (h f rfl)) hne
  | ok a => exact ⟨a, rfl⟩

end OnlyOverflows

/-- **What sums with one rounding rest on.** -/
structure Rounding (K : Type) {B : Type} [Scalar K B] where
  Finite : K → Prop
  value : K → Rat
  /-- the number nearest to a value; none beyond the range of numbers -/
  nearest : Rat → Option K
  finite_zero : Finite Scalar.zero
  value_zero : value Scalar.zero = 0
  beq_iff : ∀ {x y}, Finite x → Finite y → (Scalar.beq x y = true ↔ value x = value y)
  finite_opposite : ∀ {x}, Finite x → Finite (x * Scalar.minusOne)
  value_opposite : ∀ {x}, Finite x → value (x * Scalar.minusOne) = -value x
  finite_nearest : ∀ {q y}, nearest q = some y → Finite y
  /-- a value of a number is not rounded -/
  nearest_value : ∀ {x}, Finite x → ∃ y, nearest (value x) = some y ∧ value y = value x
  sum_correct : ∀ {xs}, (∀ x ∈ xs, Finite x) →
    Scalar.sum xs = .error .overflow ∨ ∃ y, Scalar.sum xs = .ok y ∧ nearest (xs.map value).sum = some y

namespace Rounding

variable {K B : Type} [Scalar K B] (R : Rounding K)

/-! ## Rounded values -/

/-- The value of the nearest number. -/
def near (q : Rat) : Rat := ((R.nearest q).map R.value).getD 0

variable {R}

theorem near_of_nearest {q : Rat} {y : K} (h : R.nearest q = some y) : R.near q = R.value y := by
  rw [near, h]
  rfl

theorem near_value {x : K} (hx : R.Finite x) : R.near (R.value x) = R.value x := by
  obtain ⟨y, hy, hvalue⟩ := R.nearest_value hx
  rw [near_of_nearest hy, hvalue]

theorem near_zero : R.near 0 = 0 := by
  have h := near_value R.finite_zero
  rwa [R.value_zero] at h

theorem isZero_iff {x : K} (hx : R.Finite x) : Scalar.isZero x = true ↔ R.value x = 0 := by
  rw [Scalar.isZero, R.beq_iff hx R.finite_zero, R.value_zero]

theorem isZero_value {x : K} (hx : R.Finite x) : Scalar.isZero (R.value x) = Scalar.isZero x :=
  Bool.eq_iff_iff.mpr (RobustLP.isZero_iff.trans (isZero_iff hx).symm)

/-! ## Sums -/

theorem nearest_of_sum {xs : List K} (hxs : ∀ x ∈ xs, R.Finite x) {y : K} (h : Scalar.sum xs = .ok y) :
    R.nearest (xs.map R.value).sum = some y := by
  rcases R.sum_correct hxs with hover | ⟨z, hz, hnearest⟩
  · cases hover.symm.trans h
  · cases hz.symm.trans h
    exact hnearest

theorem onlyOverflows_sum {xs : List K} (hxs : ∀ x ∈ xs, R.Finite x) : OnlyOverflows (Scalar.sum xs) := by
  intro f hf
  rcases R.sum_correct hxs with hover | ⟨z, hz, -⟩
  · exact (Except.error.inj (hover.symm.trans hf)).symm
  · cases hz.symm.trans hf

theorem sum_spec {xs : List K} (hxs : ∀ x ∈ xs, R.Finite x) {y : K} (h : Scalar.sum xs = .ok y) :
    R.Finite y ∧ R.value y = R.near (xs.map R.value).sum := by
  have hy := nearest_of_sum hxs h
  exact ⟨R.finite_nearest hy, (near_of_nearest hy).symm⟩

theorem value_spec {x : K} (hx : R.Finite x) : R.Finite x ∧ R.value x = R.near ([x].map R.value).sum := by
  rw [List.map_singleton, List.sum_singleton]
  exact ⟨hx, (near_value hx).symm⟩

/-- A single coefficient is not summed, which makes no difference to its value. -/
theorem sumCoefs_spec {cs : List K} (hcs : ∀ x ∈ cs, R.Finite x) {c : K} (h : sumCoefs cs = .ok c) :
    R.Finite c ∧ R.value c = R.near (cs.map R.value).sum := by
  unfold sumCoefs at h
  split at h
  next =>
    cases h
    exact value_spec (hcs _ List.mem_cons_self)
  next => exact sum_spec hcs h

theorem onlyOverflows_sumCoefs {cs : List K} (hcs : ∀ x ∈ cs, R.Finite x) : OnlyOverflows (sumCoefs cs) := by
  unfold sumCoefs
  split
  next => exact .ok _
  next => exact onlyOverflows_sum hcs

section

variable {S : Type} [Symbol S]

/-! ## Forms -/

variable (R) in
/-- The exact content of a form. -/
def exactForm (e : Affine S K) : Affine S Rat :=
  { terms := e.terms.map fun t => (t.1, R.value t.2), constant := 0, parts := some (e.constantParts.map R.value) }

variable (R) in
/-- What a normal form reads. -/
def readForm (n : Affine S K) : Affine S Rat :=
  { terms := n.terms.map fun t => (t.1, R.value t.2), constant := R.value n.constant }

variable (R) in
/-- The totals of an exact content, each rounded once. -/
def roundForm (e : Affine S Rat) : Affine S Rat :=
  { terms := summary Symbol.index (fun cs => R.near cs.sum) (fun c => !Scalar.isZero c) e.terms
    constant := R.near e.constantParts.sum }

omit [Symbol S] in
theorem exactConstant_spec {e : Affine S K} (he : ∀ c ∈ e.constantParts, R.Finite c) {c : K} (h : e.exactConstant = .ok c) :
    R.Finite c ∧ R.value c = R.near (e.constantParts.map R.value).sum := by
  unfold Affine.exactConstant at h
  unfold Affine.constantParts at he ⊢
  cases hparts : e.parts with
  | none =>
    rw [hparts] at h he
    cases h
    exact value_spec (he _ List.mem_cons_self)
  | some parts =>
    rw [hparts] at h he
    exact sum_spec he h

omit [Symbol S] in
theorem onlyOverflows_exactConstant {e : Affine S K} (he : ∀ c ∈ e.constantParts, R.Finite c) :
    OnlyOverflows e.exactConstant := by
  unfold Affine.exactConstant
  unfold Affine.constantParts at he
  cases hparts : e.parts with
  | none => exact .ok _
  | some parts =>
    rw [hparts] at he
    exact onlyOverflows_sum he

theorem finite_of_mem_valuesOf {ts : List (S × K)} (hts : ∀ t ∈ ts, R.Finite t.2) (s : S) :
    ∀ c ∈ valuesOf Symbol.index s ts, R.Finite c := by
  intro c hc
  obtain ⟨t, ht, rfl⟩ := mem_valuesOf Symbol.index hc
  exact hts t ht

/-- Collapsing answers the totals of the symbols, each rounded once. -/
theorem collapse_spec {ts L : List (S × K)} (hts : ∀ t ∈ ts, R.Finite t.2) (h : collapse ts = .ok L) :
    (∀ t ∈ L, R.Finite t.2) ∧ L.map (fun t => (t.1, R.value t.2))
      = summary Symbol.index (fun cs => R.near cs.sum) (fun c => !Scalar.isZero c) (ts.map fun t => (t.1, R.value t.2)) := by
  obtain ⟨sums, hsums, h⟩ := bind_eq_ok.mp h
  cases h
  rw [mapM_eq_ok_iff, gather_eq_map, List.forall₂_map_left_iff] at hsums
  -- each answer belongs to a symbol, in the order of first appearance
  have hspec : List.Forall₂ (fun s t => t.1 = s ∧ R.Finite t.2
      ∧ R.value t.2 = R.near ((valuesOf Symbol.index s ts).map R.value).sum) (firsts Symbol.index ts) sums := by
    refine hsums.imp fun s t ht => ?_
    obtain ⟨c, hc, ht⟩ := bind_eq_ok.mp ht
    cases ht
    exact ⟨rfl, sumCoefs_spec (finite_of_mem_valuesOf hts s) hc⟩
  have hfinite : ∀ t ∈ sums, R.Finite t.2 := by
    intro t ht
    obtain ⟨s, -, hs⟩ := exists_left_of_forall₂ hspec ht
    exact hs.2.1
  have hread : sums.map (fun t => (t.1, R.value t.2))
      = (firsts Symbol.index ts).map fun s => (s, R.near ((valuesOf Symbol.index s ts).map R.value).sum) :=
    (map_eq_map_of_forall₂ (hspec.imp fun s t ht => Prod.ext ht.1.symm ht.2.2.symm)).symm
  refine ⟨fun t ht => hfinite t (List.mem_filter.mp ht).1, ?_⟩
  rw [summary, gather_map, gather_eq_map, List.map_map, List.map_map]
  simp only [Function.comp_def]
  rw [← hread, List.filter_map]
  congr 1
  -- a total is dropped exactly when it reads zero
  refine List.filter_congr fun t ht => ?_
  rw [Function.comp_apply, isZero_value (hfinite t ht)]

theorem onlyOverflows_collapse {ts : List (S × K)} (hts : ∀ t ∈ ts, R.Finite t.2) : OnlyOverflows (collapse ts) := by
  refine (OnlyOverflows.mapM fun p hp => ?_).bind fun sums _ => .ok _
  rw [gather_eq_map] at hp
  obtain ⟨s, -, rfl⟩ := List.mem_map.mp hp
  exact (onlyOverflows_sumCoefs (finite_of_mem_valuesOf hts s)).bind fun c _ => .ok _

variable (R) in
/-- All numbers that a normal form shows are finite. -/
structure FiniteNormal (n : Affine S K) : Prop where
  terms : ∀ t ∈ n.terms, R.Finite t.2
  constant : R.Finite n.constant

/-- The outcome of normalising a form: its numbers are finite, and it reads the totals, each rounded once. -/
structure Normalizes (e n : Affine S K) : Prop where
  finite : R.FiniteNormal n
  read : R.readForm n = R.roundForm (R.exactForm e)

/-- **The normal form of a form with finite numbers** reads its exact totals, each rounded once. -/
theorem normalizes_of_normalized {e n : Affine S K} (he : e.All R.Finite) (h : e.normalized = .ok n) :
    R.Normalizes e n := by
  obtain ⟨terms, hterms, h⟩ := bind_eq_ok.mp h
  obtain ⟨c, hc, h⟩ := bind_eq_ok.mp h
  cases h
  obtain ⟨hfinite, hread⟩ := collapse_spec he.terms hterms
  obtain ⟨hfinite', hread'⟩ := exactConstant_spec he.parts hc
  refine ⟨⟨hfinite, hfinite'⟩, ?_⟩
  rw [readForm, hread, hread']
  rfl

theorem onlyOverflows_normalized {e : Affine S K} (he : e.All R.Finite) : OnlyOverflows e.normalized :=
  (onlyOverflows_collapse he.terms).bind fun _ _ => (onlyOverflows_exactConstant he.parts).bind fun _ _ => .ok _

end

/-! ## Full forms -/

variable (R) in
/-- The exact content of a full form. -/
def exactFull (e : Full K) : Full Rat :=
  { terms := e.terms.map fun t => (t.1, R.exactForm t.2), constant := R.exactForm e.constant }

variable (R) in
/-- What a full normal form reads. -/
def readFull (n : Full K) : Full Rat :=
  { terms := n.terms.map fun t => (t.1, R.readForm t.2), constant := R.readForm n.constant }

/-- Several exact contents as one. -/
def joinForms (forms : List (Affine Parameter Rat)) : Affine Parameter Rat :=
  { terms := forms.flatMap (·.terms), constant := 0, parts := some (forms.flatMap (·.constantParts)) }

variable (R) in
/-- The totals of an exact content of full kind, each rounded once. -/
def roundFull (e : Full Rat) : Full Rat :=
  { terms := summary Variable.index (fun fs => R.roundForm (joinForms fs)) (fun f => !Full.isZeroForm f) e.terms
    constant := R.roundForm e.constant }

/-- The form that the coefficients of a variable are summed to, before it is normalised. -/
def coefficients (owner : Option ModelId) (forms : List (Affine Parameter K)) : Affine Parameter K :=
  { terms := forms.flatMap (·.terms), constant := Scalar.zero, parts := some (forms.flatMap (·.constantParts)), owner }

theorem finiteForm_coefficients {owner : Option ModelId} {forms : List (Affine Parameter K)}
    (h : ∀ f ∈ forms, f.All R.Finite) : (coefficients owner forms).All R.Finite where
  terms t ht := by
    obtain ⟨f, hf, ht⟩ := List.mem_flatMap.mp ht
    exact (h f hf).terms t ht
  parts c hc := by
    obtain ⟨f, hf, hc⟩ := List.mem_flatMap.mp hc
    exact (h f hf).parts c hc

theorem exactForm_coefficients (owner : Option ModelId) (forms : List (Affine Parameter K)) :
    R.exactForm (coefficients owner forms) = joinForms (forms.map R.exactForm) := by
  have hparts : (coefficients owner forms).constantParts = forms.flatMap (·.constantParts) := rfl
  rw [exactForm, hparts, coefficients, joinForms, List.map_flatMap, List.map_flatMap, List.flatMap_map, List.flatMap_map]
  rfl

theorem finite_of_mem_coefficients {e : Full K} (he : e.All R.Finite) (v : Variable) :
    ∀ f ∈ valuesOf Variable.index v e.terms, f.All R.Finite := by
  intro f hf
  obtain ⟨t, ht, rfl⟩ := mem_valuesOf Variable.index hf
  exact he.terms t ht

/-- A form with one number as constant is zero exactly when it reads zero. -/
theorem isZeroForm_readForm {n : Affine Parameter K} (h : R.Finite n.constant) :
    Full.isZeroForm (R.readForm n) = Full.isZeroForm n := by
  rw [Full.isZeroForm, Full.isZeroForm, readForm, isZero_value h, List.isEmpty_map]

/-- The outcome of normalising a full form. -/
structure FullNormalizes (e n : Full K) : Prop where
  terms : ∀ t ∈ n.terms, R.FiniteNormal t.2
  constant : R.FiniteNormal n.constant
  read : R.readFull n = R.roundFull (R.exactFull e)

/-- **The normal form of a full form with finite numbers** reads its exact totals, each rounded once. -/
theorem fullNormalizes_of_normalized {e n : Full K} (he : e.All R.Finite) (h : e.normalized = .ok n) :
    R.FullNormalizes e n := by
  obtain ⟨sums, hsums, h⟩ := bind_eq_ok.mp h
  obtain ⟨c, hc, h⟩ := bind_eq_ok.mp h
  cases h
  have hconstant := normalizes_of_normalized he.constant hc
  rw [mapM_eq_ok_iff, gather_eq_map, List.forall₂_map_left_iff] at hsums
  have hspec : List.Forall₂ (fun v t => t.1 = v
      ∧ R.Normalizes (coefficients e.owner (valuesOf Variable.index v e.terms)) t.2) (firsts Variable.index e.terms) sums := by
    refine hsums.imp fun v t ht => ?_
    obtain ⟨f, hf, ht⟩ := bind_eq_ok.mp ht
    cases ht
    exact ⟨rfl, normalizes_of_normalized (finiteForm_coefficients (finite_of_mem_coefficients he v)) hf⟩
  have hfinite : ∀ t ∈ sums, R.FiniteNormal t.2 := by
    intro t ht
    obtain ⟨v, -, -, hv⟩ := exists_left_of_forall₂ hspec ht
    exact hv.finite
  have hread : sums.map (fun t => (t.1, R.readForm t.2)) = (firsts Variable.index e.terms).map fun v =>
      (v, R.roundForm (joinForms ((valuesOf Variable.index v e.terms).map R.exactForm))) := by
    refine (map_eq_map_of_forall₂ (hspec.imp fun v t ht => Prod.ext ht.1.symm ?_)).symm
    rw [← exactForm_coefficients e.owner]
    exact ht.2.read.symm
  refine ⟨fun t ht => hfinite t (List.mem_filter.mp ht).1, hconstant.finite, ?_⟩
  rw [readFull, roundFull, exactFull, hconstant.read, summary, gather_map, gather_eq_map, List.map_map, List.map_map]
  simp only [Function.comp_def]
  rw [← hread, List.filter_map]
  congr 2
  refine List.filter_congr fun t ht => ?_
  rw [Function.comp_apply, isZeroForm_readForm (hfinite t ht).constant]

theorem onlyOverflows_normalized_full {e : Full K} (he : e.All R.Finite) : OnlyOverflows e.normalized := by
  refine (OnlyOverflows.mapM fun p hp => ?_).bind fun sums _ =>
    (onlyOverflows_normalized he.constant).bind fun c _ => .ok _
  rw [gather_eq_map] at hp
  obtain ⟨v, -, rfl⟩ := List.mem_map.mp hp
  exact (onlyOverflows_normalized (finiteForm_coefficients (finite_of_mem_coefficients he v))).bind fun f _ => .ok _

end Rounding

end RobustLP
