import RobustLP.Proofs.Rounding.Laws

/-!
# The order of operands

The operands of a sum may be exchanged: the normal forms then differ in the order of their terms only (`Rounding.reorders_of_add`).
Both sums have the same numbers for each symbol, in another order, and a sum with one rounding does not depend on the order.
Symbols are gathered by their positions, which tell them apart (`LawfulSymbol`) as long as all of them belong to one model
(`Expr.Within`).
-/

namespace RobustLP

variable {S K B : Type} [Scalar K B]

/-! ## Forms that differ in order -/

/-- Two normal forms differ in the order of their terms only. -/
structure Affine.Reorders (n n' : Affine S K) : Prop where
  terms : n.terms.Perm n'.terms
  rest : { n with terms := n'.terms } = n'

/-- Two full normal forms differ in the order of their terms, and of those of their coefficients, only. -/
structure Full.Reorders (n n' : Full K) : Prop where
  terms : ∃ l, n.terms.Perm l ∧ List.Forall₂ (fun s t => s.1 = t.1 ∧ s.2.Reorders t.2) l n'.terms
  constant : n.constant.Reorders n'.constant
  owner : n.owner = n'.owner

/-- Two normal forms of one kind differ in the order of terms only. -/
inductive Expr.Reorders : Expr K → Expr K → Prop where
  | linear {n n' : Affine Variable K} (h : n.Reorders n') : Reorders (.linear n) (.linear n')
  | uncertain {n n' : Affine Parameter K} (h : n.Reorders n') : Reorders (.uncertain n) (.uncertain n')
  | full {n n' : Full K} (h : n.Reorders n') : Reorders (.full n) (.full n')

/-- Two forms with the same terms and the same parts of the constant, in any order. -/
structure Affine.Rearranged (e e' : Affine S K) : Prop where
  terms : e.terms.Perm e'.terms
  parts : ∃ ps ps', e.parts = some ps ∧ e'.parts = some ps' ∧ ps.Perm ps'
  owner : e.owner = e'.owner

theorem Affine.rearranged_concat (a b : Affine S K) (owner : Option ModelId) :
    (a.concat b owner).Rearranged (b.concat a owner) where
  terms := List.perm_append_comm
  parts := ⟨_, _, rfl, rfl, List.perm_append_comm⟩
  owner := rfl

theorem joinOwners_comm {a b owner owner' : Option ModelId} (h : joinOwners (K := K) a b = .ok owner)
    (h' : joinOwners (K := K) b a = .ok owner') : owner = owner' := by
  cases a with
  | none =>
    cases b with
    | none =>
      cases h
      cases h'
      rfl
    | some n =>
      cases h
      cases h'
      rfl
  | some m =>
    cases b with
    | none =>
      cases h
      cases h'
      rfl
    | some n =>
      unfold joinOwners at h h'
      dsimp only at h h'
      split at h
      next heq =>
        cases heq
        rw [if_pos rfl] at h'
        exact Except.ok.inj (h.symm.trans h')
      next => cases h

/-! ## Symbols of one model -/

/-- Symbols that are told apart by their model and position. -/
class LawfulSymbol (S : Type) [Symbol S] : Prop where
  eq_of_index : ∀ {s t : S}, Symbol.model s = Symbol.model t → Symbol.index s = Symbol.index t → s = t

instance : LawfulSymbol Variable where
  eq_of_index {s t} hmodel hindex := by
    cases s
    cases t
    exact congr (congrArg Variable.mk hmodel) hindex

instance : LawfulSymbol Parameter where
  eq_of_index {s t} hmodel hindex := by
    cases s
    cases t
    exact congr (congrArg Parameter.mk hmodel) hindex

/-- The symbols belong to the model `m`. -/
def Affine.Within [Symbol S] (m : ModelId) (e : Affine S K) : Prop := ∀ t ∈ e.terms, Symbol.model t.1 = m

/-- The variables and parameters belong to the model `m`. -/
structure Full.Within (m : ModelId) (e : Full K) : Prop where
  decisions : ∀ t ∈ e.terms, t.1.model = m
  parameters : ∀ t ∈ e.terms, t.2.Within m
  constant : e.constant.Within m

/-- The symbols belong to the model `m`. -/
def Expr.Within (m : ModelId) : Expr K → Prop
  | .linear e => e.Within m
  | .uncertain e => e.Within m
  | .full e => e.Within m

theorem Expr.Within.toFull {m : ModelId} {e : Expr K} (h : e.Within m) : e.toFull.Within m := by
  cases e with
  | linear e =>
    exact ⟨List.forall_mem_map.mpr h, List.forall_mem_map.mpr fun t _ u hu => (List.not_mem_nil hu).elim,
      fun u hu => (List.not_mem_nil hu).elim⟩
  | uncertain e => exact ⟨fun t ht => (List.not_mem_nil ht).elim, fun t ht => (List.not_mem_nil ht).elim, h⟩
  | full e => exact h

/-- Symbols of one model are told apart by their positions. -/
theorem distinguished_of_model [Symbol S] [LawfulSymbol S] {α : Type} {m : ModelId} {ts : List (S × α)} (h : ∀ t ∈ ts, Symbol.model t.1 = m) :
    Distinguished Symbol.index ts :=
  fun s hs t ht hindex => LawfulSymbol.eq_of_index ((h s hs).trans (h t ht).symm) hindex

namespace Rounding

variable {R : Rounding K}

/-! ## Sums in another order -/

/-- A sum with one rounding does not depend on the order of its numbers. -/
theorem sum_eq_of_perm {xs ys : List K} (h : xs.Perm ys) (hxs : ∀ x ∈ xs, R.Finite x) {x y : K} (hx : Scalar.sum xs = .ok x)
    (hy : Scalar.sum ys = .ok y) : x = y := by
  have hys : ∀ y ∈ ys, R.Finite y := fun y hy => hxs y (h.mem_iff.mpr hy)
  have hnearest := nearest_of_sum hxs hx
  rw [(h.map R.value).sum_eq, nearest_of_sum hys hy] at hnearest
  exact (Option.some.inj hnearest).symm

theorem sumCoefs_eq_of_perm {xs ys : List K} (h : xs.Perm ys) (hxs : ∀ x ∈ xs, R.Finite x) {x y : K}
    (hx : sumCoefs xs = .ok x) (hy : sumCoefs ys = .ok y) : x = y := by
  -- a single coefficient is not summed, and has no other order
  by_cases hone : ∃ c, xs = [c]
  · obtain ⟨c, rfl⟩ := hone
    obtain rfl := List.singleton_perm.mp h
    exact Except.ok.inj (hx.symm.trans hy)
  · have hne : ∀ c, xs = [c] → False := fun c hc => hone ⟨c, hc⟩
    have hne' : ∀ c, ys = [c] → False := by
      rintro c rfl
      exact hne c (List.perm_singleton.mp h)
    rw [sumCoefs.eq_2 _ hne] at hx
    rw [sumCoefs.eq_2 _ hne'] at hy
    exact sum_eq_of_perm h hxs hx hy

theorem collapse_perm [Symbol S] {ts ts' L L' : List (S × K)} (h : ts.Perm ts') (hts : ∀ t ∈ ts, R.Finite t.2)
    (hkeys : Distinguished Symbol.index ts) (hL : collapse ts = .ok L) (hL' : collapse ts' = .ok L') : L.Perm L' := by
  obtain ⟨sums, hsums, hL⟩ := bind_eq_ok.mp hL
  obtain ⟨sums', hsums', hL'⟩ := bind_eq_ok.mp hL'
  cases hL
  cases hL'
  have hstep : ∀ (s : S) (cs ds : List K) (c d : S × K), (∀ x ∈ cs, ∃ t ∈ ts, t.2 = x) → cs.Perm ds →
      (do return (s, ← sumCoefs cs) : Except Fault (S × K)) = .ok c →
      (do return (s, ← sumCoefs ds) : Except Fault (S × K)) = .ok d → c = d := by
    intro s cs ds c d hmem hperm hc hd
    obtain ⟨x, hx, hc⟩ := bind_eq_ok.mp hc
    obtain ⟨y, hy, hd⟩ := bind_eq_ok.mp hd
    cases hc
    cases hd
    have hcs : ∀ x ∈ cs, R.Finite x := by
      intro x hx
      obtain ⟨t, ht, rfl⟩ := hmem x hx
      exact hts t ht
    rw [sumCoefs_eq_of_perm hperm hcs hx hy]
  obtain ⟨l, hl, heq⟩ := exists_perm_of_mapM_gather Symbol.index h hkeys hstep hsums hsums'
  rw [List.forall₂_eq_eq_eq] at heq
  exact heq ▸ hl.filter _

/-- **The normal forms of rearranged forms** differ in the order of their terms. -/
theorem reorders_of_rearranged [Symbol S] {e e' n n' : Affine S K} (h : e.Rearranged e') (he : e.All R.Finite)
    (hkeys : Distinguished Symbol.index e.terms) (hn : e.normalized = .ok n) (hn' : e'.normalized = .ok n') :
    n.Reorders n' := by
  obtain ⟨terms, hterms, hn⟩ := bind_eq_ok.mp hn
  obtain ⟨c, hc, hn⟩ := bind_eq_ok.mp hn
  obtain ⟨terms', hterms', hn'⟩ := bind_eq_ok.mp hn'
  obtain ⟨c', hc', hn'⟩ := bind_eq_ok.mp hn'
  cases hn
  cases hn'
  obtain ⟨ps, ps', hps, hps', hparts⟩ := h.parts
  have hfinite := he.parts
  rw [Affine.constantParts, hps] at hfinite
  rw [Affine.exactConstant, hps] at hc
  rw [Affine.exactConstant, hps'] at hc'
  obtain rfl : c = c' := sum_eq_of_perm hparts hfinite hc hc'
  refine ⟨collapse_perm h.terms he.terms hkeys hterms hterms', ?_⟩
  rw [h.owner]

/-! ## Full forms in another order -/

theorem rearranged_coefficients (owner : Option ModelId) {fs gs : List (Affine Parameter K)} (h : fs.Perm gs) :
    (coefficients owner fs).Rearranged (coefficients owner gs) where
  terms := h.flatMap_right _
  parts := ⟨_, _, rfl, rfl, h.flatMap_right _⟩
  owner := rfl

/-- The coefficients of a variable may be summed in any order. -/
theorem reorders_of_sumForms {m : ModelId} {owner : Option ModelId} {fs gs : List (Affine Parameter K)} {f g : Affine Parameter K}
    (h : fs.Perm gs) (hfinite : ∀ f ∈ fs, f.All R.Finite) (hm : ∀ f ∈ fs, f.Within m) (hf : Full.sumForms owner fs = .ok f)
    (hg : Full.sumForms owner gs = .ok g) : f.Reorders g := by
  have hkeys : Distinguished Parameter.index (coefficients owner fs).terms := by
    refine distinguished_of_model (m := m) fun u hu => ?_
    obtain ⟨f, hf, hu⟩ := List.mem_flatMap.mp hu
    exact hm f hf u hu
  exact reorders_of_rearranged (rearranged_coefficients owner h) (finiteForm_coefficients hfinite) hkeys hf hg

/-- Forms that differ in order are zero together. -/
theorem isZeroForm_of_reorders {n n' : Affine Parameter K} (h : n.Reorders n') : Full.isZeroForm n = Full.isZeroForm n' := by
  have hconstant : n.constant = n'.constant := by rw [← h.rest]
  rw [Full.isZeroForm, Full.isZeroForm, hconstant, h.terms.isEmpty_eq]

/-- **The normal forms of full forms with the same terms in another order** differ in the order of terms. -/
theorem reorders_of_perm {m : ModelId} {e e' n n' : Full K} (hterms : e.terms.Perm e'.terms)
    (hconstant : e.constant.Rearranged e'.constant) (howner : e.owner = e'.owner) (he : e.All R.Finite) (hm : e.Within m)
    (hn : e.normalized = .ok n) (hn' : e'.normalized = .ok n') : n.Reorders n' := by
  obtain ⟨sums, hsums, hn⟩ := bind_eq_ok.mp hn
  obtain ⟨c, hc, hn⟩ := bind_eq_ok.mp hn
  obtain ⟨sums', hsums', hn'⟩ := bind_eq_ok.mp hn'
  obtain ⟨c', hc', hn'⟩ := bind_eq_ok.mp hn'
  cases hn
  cases hn'
  have hstep : ∀ (v : Variable) (fs gs : List (Affine Parameter K)) (c d : Variable × Affine Parameter K),
      (∀ f ∈ fs, ∃ t ∈ e.terms, t.2 = f) → fs.Perm gs →
      (do return (v, ← Full.sumForms e.owner fs) : Except Fault _) = .ok c →
      (do return (v, ← Full.sumForms e'.owner gs) : Except Fault _) = .ok d → c.1 = d.1 ∧ c.2.Reorders d.2 := by
    intro v fs gs c d hmem hperm hc hd
    obtain ⟨f, hf, hc⟩ := bind_eq_ok.mp hc
    obtain ⟨g, hg, hd⟩ := bind_eq_ok.mp hd
    cases hc
    cases hd
    rw [← howner] at hg
    refine ⟨rfl, reorders_of_sumForms (R := R) (m := m) hperm (fun f hf => ?_) (fun f hf => ?_) hf hg⟩
    · obtain ⟨t, ht, rfl⟩ := hmem f hf
      exact he.terms t ht
    · obtain ⟨t, ht, rfl⟩ := hmem f hf
      exact hm.parameters t ht
  obtain ⟨l, hl, hall⟩ := exists_perm_of_mapM_gather Variable.index hterms (distinguished_of_model hm.decisions) hstep
    hsums hsums'
  refine ⟨⟨_, hl.filter _, List.rel_filter (fun s t h => ?_) hall⟩, ?_, howner⟩
  · dsimp only
    rw [isZeroForm_of_reorders h.2]
  · exact reorders_of_rearranged hconstant he.constant (distinguished_of_model hm.constant) hc hc'

/-! ## Exchanged operands -/

theorem reorders_of_concat [Symbol S] {a b n n' : Affine S K} {owner : Option ModelId} (ha : a.All R.Finite)
    (hb : b.All R.Finite) (hkeys : Distinguished Symbol.index (a.terms ++ b.terms)) (hn : (a.concat b owner).normalized = .ok n)
    (hn' : (b.concat a owner).normalized = .ok n') : n.Reorders n' :=
  reorders_of_rearranged (a.rearranged_concat b owner) (Affine.all_concat ha hb owner) hkeys hn hn'

theorem reorders_of_concat_full {m : ModelId} {a b f g n n' : Full K} {owner : Option ModelId} (ha : a.All R.Finite)
    (hb : b.All R.Finite) (ham : a.Within m) (hbm : b.Within m) (hf : a.concat b owner = .ok f) (hg : b.concat a owner = .ok g)
    (hn : f.normalized = .ok n) (hn' : g.normalized = .ok n') : n.Reorders n' := by
  obtain ⟨inner, hinner, hf⟩ := bind_eq_ok.mp hf
  obtain ⟨inner', hinner', hg⟩ := bind_eq_ok.mp hg
  cases hf
  cases hg
  obtain rfl : inner = inner' := joinOwners_comm hinner hinner'
  have hfinite : ({ terms := a.terms ++ b.terms, constant := a.constant.concat b.constant inner, owner } : Full K).All R.Finite :=
    ⟨List.forall_mem_append.mpr ⟨ha.terms, hb.terms⟩, Affine.all_concat ha.constant hb.constant inner⟩
  refine reorders_of_perm (m := m) ?_ (a.constant.rearranged_concat b.constant inner) ?_ hfinite ?_ hn hn'
  · exact List.perm_append_comm
  · rfl
  · exact ⟨List.forall_mem_append.mpr ⟨ham.decisions, hbm.decisions⟩,
      List.forall_mem_append.mpr ⟨ham.parameters, hbm.parameters⟩, List.forall_mem_append.mpr ⟨ham.constant, hbm.constant⟩⟩

/-- **Sums of exchanged operands** have normal forms that differ in the order of terms only. -/
theorem reorders_of_add {m : ModelId} {a b s t n n' : Expr K} (ha : a.All R.Finite) (hb : b.All R.Finite) (ham : a.Within m)
    (hbm : b.Within m) (hs : a.add b = .ok s) (ht : b.add a = .ok t) (hn : s.normalized = .ok n)
    (hn' : t.normalized = .ok n') : n.Reorders n' := by
  obtain ⟨owner, howner, hs⟩ := Expr.add_cases hs
  obtain ⟨owner', howner', ht⟩ := Expr.add_cases ht
  obtain rfl : owner = owner' := joinOwners_comm howner howner'
  -- both sums are formed in the same way
  rcases hs with ⟨a, b, rfl, rfl, rfl⟩ | ⟨a, b, rfl, rfl, rfl⟩ | ⟨hkind, f, hf, rfl⟩
  · rcases ht with ⟨_, _, hb', ha', rfl⟩ | ⟨_, _, hb', -, -⟩ | ⟨hkind', -⟩
    · cases hb'
      cases ha'
      obtain ⟨p, hp, h⟩ := bind_eq_ok.mp hn
      cases h
      obtain ⟨p', hp', h⟩ := bind_eq_ok.mp hn'
      cases h
      exact .linear (reorders_of_concat ha hb (distinguished_of_model (List.forall_mem_append.mpr ⟨ham, hbm⟩)) hp hp')
    · cases hb'
    · cases hkind' rfl
  · rcases ht with ⟨_, _, hb', -, -⟩ | ⟨_, _, hb', ha', rfl⟩ | ⟨hkind', -⟩
    · cases hb'
    · cases hb'
      cases ha'
      obtain ⟨p, hp, h⟩ := bind_eq_ok.mp hn
      cases h
      obtain ⟨p', hp', h⟩ := bind_eq_ok.mp hn'
      cases h
      exact .uncertain (reorders_of_concat ha hb (distinguished_of_model (List.forall_mem_append.mpr ⟨ham, hbm⟩)) hp hp')
    · cases hkind' rfl
  · rcases ht with ⟨_, _, rfl, rfl, -⟩ | ⟨_, _, rfl, rfl, -⟩ | ⟨-, g, hg, rfl⟩
    · cases hkind rfl
    · cases hkind rfl
    · obtain ⟨p, hp, h⟩ := bind_eq_ok.mp hn
      cases h
      obtain ⟨p', hp', h⟩ := bind_eq_ok.mp hn'
      cases h
      exact .full (reorders_of_concat_full ha.toFull hb.toFull ham.toFull hbm.toFull hf hg hp hp')

/-- **Operands may be exchanged** but for the order of terms, unless a sum overflows. -/
theorem exists_reorders {m : ModelId} {a b : Expr K} (ham : a.Over m) (hbm : b.Over m) (haw : a.Within m) (hbw : b.Within m)
    (ha : a.All R.Finite) (hb : b.All R.Finite) : ∃ s t : Expr K, (Quantity.expr a).add (.expr b) = .ok (.expr s)
      ∧ (Quantity.expr b).add (.expr a) = .ok (.expr t)
      ∧ (s.normalized ≠ .error .overflow → t.normalized ≠ .error .overflow →
        ∃ n n', s.normalized = .ok n ∧ t.normalized = .ok n' ∧ n.Reorders n') := by
  obtain ⟨s, hs, -⟩ := ham.add hbm
  obtain ⟨t, ht, -⟩ := hbm.add ham
  refine ⟨s, t, Quantity.add_expr hs, Quantity.add_expr ht, fun hne hne' => ?_⟩
  obtain ⟨n, hn⟩ := (onlyOverflows_normalized_expr (ha.add hb hs)).exists_ok hne
  obtain ⟨n', hn'⟩ := (onlyOverflows_normalized_expr (hb.add ha ht)).exists_ok hne'
  exact ⟨n, n', hn, hn', reorders_of_add ha hb haw hbw hs ht hn hn'⟩

end Rounding

end RobustLP
