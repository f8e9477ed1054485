import RobustLP.Proofs.Value

/-!
# Gathered lists

`gather` lists the symbols of a list of pairs at their first appearance (`firsts`), each with all that is paired with its key
(`valuesOf`). A `summary` reduces these to one entry for each symbol and keeps some of them; collapsed terms, and the
coefficients of a full normal form, are summaries.

Entries that cancel may be appended without effect on a summary (`summary_append`), and the order of the entries only matters
for the order of the result (`exists_perm_of_mapM_gather`).
-/

namespace RobustLP

variable {S α β : Type} (key : S → Nat)

/-- What is paired with the key of `s`. -/
def valuesOf (s : S) (ts : List (S × α)) : List α := (pairsOf key s ts).map (·.2)

/-- The symbols of a list, each at its first appearance. -/
def firsts (ts : List (S × α)) : List S := (gather key ts).map (·.1)

theorem firsts_cons (s : S) (c : α) (ts : List (S × α)) :
    firsts key ((s, c) :: ts) = s :: firsts key (pairsBeside key s ts) := by
  rw [firsts, gather_cons]
  rfl

theorem valuesOf_cons_self (s : S) (c : α) (ts : List (S × α)) : valuesOf key s ((s, c) :: ts) = c :: valuesOf key s ts := by
  unfold valuesOf pairsOf
  rw [List.filter_cons, if_pos (beq_self_eq_true (key s))]
  rfl

theorem valuesOf_cons_of_ne {s s' : S} (h : key s' ≠ key s) (c : α) (ts : List (S × α)) :
    valuesOf key s' ((s, c) :: ts) = valuesOf key s' ts := by
  unfold valuesOf pairsOf
  rw [List.filter_cons, if_neg (Bool.eq_false_iff.mp (beq_eq_false_iff_ne.mpr h.symm))]

theorem valuesOf_append (s : S) (a b : List (S × α)) : valuesOf key s (a ++ b) = valuesOf key s a ++ valuesOf key s b := by
  rw [valuesOf, pairsOf, List.filter_append, List.map_append]
  rfl

theorem valuesOf_map (f : α → β) (s : S) (ts : List (S × α)) :
    valuesOf key s (ts.map fun t => (t.1, f t.2)) = (valuesOf key s ts).map f := by
  rw [valuesOf, pairsOf, List.filter_map, List.map_map, valuesOf, List.map_map]
  rfl

theorem mem_valuesOf {s : S} {a : α} {ts : List (S × α)} (h : a ∈ valuesOf key s ts) : ∃ t ∈ ts, t.2 = a := by
  obtain ⟨t, ht, hta⟩ := List.mem_map.mp h
  exact ⟨t, (List.mem_filter.mp ht).1, hta⟩

/-- Entries with another key change nothing. -/
theorem valuesOf_pairsBeside {s s' : S} (h : key s' ≠ key s) (ts : List (S × α)) :
    valuesOf key s' (pairsBeside key s ts) = valuesOf key s' ts := by
  have hpred : ∀ t ∈ ts, ((!(key t.1 == key s)) && (key t.1 == key s')) = (key t.1 == key s') := by
    intro t _
    by_cases ht : key t.1 = key s'
    · rw [ht, beq_eq_false_iff_ne.mpr h]
      rfl
    · rw [beq_eq_false_iff_ne.mpr ht, Bool.and_false]
  rw [valuesOf, pairsOf, pairsBeside, List.filter_filter, valuesOf, pairsOf]
  congr 1
  refine List.filter_congr fun t ht => ?_
  rw [Bool.and_comm, hpred t ht]

theorem key_ne_of_mem_firsts {s s' : S} {ts : List (S × α)} (h : s' ∈ firsts key (pairsBeside key s ts)) : key s' ≠ key s := by
  obtain ⟨p, hp, rfl⟩ := List.mem_map.mp h
  obtain ⟨c, hc⟩ := exists_mem_of_mem_gather key hp
  exact ne_of_beq_false (Bool.not_eq_true' _ |>.mp (List.mem_filter.mp hc).2)

/-- **All that is paired with a key is gathered.** -/
theorem gather_eq_map : ∀ ts : List (S × α), gather key ts = (firsts key ts).map fun s => (s, valuesOf key s ts)
  | [] => by rw [firsts, gather_nil]; rfl
  | (s, c) :: rest => by
    -- the other symbols lose nothing with the pairs of `s`
    have hothers : ∀ s' ∈ firsts key (pairsBeside key s rest),
        valuesOf key s' (pairsBeside key s rest) = valuesOf key s' ((s, c) :: rest) := by
      intro s' hs'
      have hne := key_ne_of_mem_firsts key hs'
      rw [valuesOf_pairsBeside key hne, valuesOf_cons_of_ne key hne]
    rw [gather_cons, firsts_cons, List.map_cons, valuesOf_cons_self, gather_eq_map (pairsBeside key s rest)]
    congr 1
    exact List.map_congr_left fun s' hs' => by rw [hothers s' hs']
termination_by ts => ts.length
decreasing_by exact Nat.lt_succ_of_le (length_pairsBeside_le _ _ _)

/-- The symbols of two lists are those of the first one, then some that the first one lacks. -/
theorem exists_firsts_append : ∀ a b : List (S × α),
    ∃ rest, firsts key (a ++ b) = firsts key a ++ rest ∧ ∀ s ∈ rest, valuesOf key s a = []
  | [], b => ⟨firsts key b, by rw [firsts, firsts, gather_nil]; rfl, fun _ _ => rfl⟩
  | (s, c) :: a, b => by
    obtain ⟨rest, hrest, hlack⟩ := exists_firsts_append (pairsBeside key s a) (pairsBeside key s b)
    have hsplit : pairsBeside key s (a ++ b) = pairsBeside key s a ++ pairsBeside key s b := List.filter_append ..
    -- the symbols that are left come behind those of `a` beside `s`, and none of them is `s` itself
    refine ⟨rest, ?_, fun s' hs' => ?_⟩
    · rw [List.cons_append, firsts_cons, hsplit, hrest, firsts_cons]
      rfl
    · have hmem : s' ∈ firsts key (pairsBeside key s (a ++ b)) := by
        rw [hsplit, hrest]
        exact List.mem_append_right _ hs'
      have hne := key_ne_of_mem_firsts key hmem
      have hnone := hlack s' hs'
      rw [valuesOf_pairsBeside key hne] at hnone
      rw [valuesOf_cons_of_ne key hne]
      exact hnone
termination_by a => a.length
decreasing_by exact Nat.lt_succ_of_le (length_pairsBeside_le _ _ _)

theorem firsts_map (f : α → β) : ∀ ts : List (S × α), firsts key (ts.map fun t => (t.1, f t.2)) = firsts key ts
  | [] => by rw [firsts, firsts, List.map_nil, gather_nil, gather_nil]; rfl
  | (s, c) :: rest => by
    have hbeside : pairsBeside key s (rest.map fun t => (t.1, f t.2)) = (pairsBeside key s rest).map fun t => (t.1, f t.2) := by
      rw [pairsBeside, List.filter_map]
      rfl
    rw [List.map_cons, firsts_cons, hbeside, firsts_map f (pairsBeside key s rest), firsts_cons]
termination_by ts => ts.length
decreasing_by exact Nat.lt_succ_of_le (length_pairsBeside_le _ _ _)

/-- Values may be read before they are gathered, or afterwards. -/
theorem gather_map (f : α → β) (ts : List (S × α)) :
    gather key (ts.map fun t => (t.1, f t.2)) = (gather key ts).map fun p => (p.1, p.2.map f) := by
  rw [gather_eq_map, gather_eq_map key ts, firsts_map, List.map_map]
  exact List.map_congr_left fun s _ => by rw [Function.comp_apply, valuesOf_map]

/-! ## Several values in place of one -/

/-- Puts several values in the place of each one. -/
def spread (f : α → List β) (ts : List (S × α)) : List (S × β) := ts.flatMap fun t => (f t.2).map fun b => (t.1, b)

theorem spread_cons (f : α → List β) (s : S) (a : α) (ts : List (S × α)) :
    spread f ((s, a) :: ts) = (f a).map (fun b => (s, b)) ++ spread f ts := rfl

theorem filter_spread (f : α → List β) (p : S → Bool) (ts : List (S × α)) :
    (spread f ts).filter (fun t => p t.1) = spread f (ts.filter fun t => p t.1) := by
  induction ts with
  | nil => rfl
  | cons t ts ih =>
    rw [spread_cons, List.filter_append, ih, List.filter_map, List.filter_cons]
    cases hp : p t.1 with
    | true =>
      have hall : (f t.2).filter ((fun u : S × β => p u.1) ∘ fun b => (t.1, b)) = f t.2 :=
        List.filter_eq_self.mpr fun _ _ => hp
      rw [hall, if_pos rfl]
      rfl
    | false =>
      have hnone : (f t.2).filter ((fun u : S × β => p u.1) ∘ fun b => (t.1, b)) = [] :=
        List.filter_eq_nil_iff.mpr fun _ _ => by simp [hp]
      rw [hnone, if_neg Bool.false_ne_true]
      rfl

theorem valuesOf_spread (f : α → List β) (s : S) (ts : List (S × α)) :
    valuesOf key s (spread f ts) = (valuesOf key s ts).flatMap f := by
  have hpairs : pairsOf key s (spread f ts) = spread f (pairsOf key s ts) := filter_spread f (fun s' => key s' == key s) ts
  rw [valuesOf, hpairs, valuesOf]
  induction pairsOf key s ts with
  | nil => rfl
  | cons t ts ih =>
    rw [spread_cons, List.map_append, ih, List.map_map, List.map_cons, List.flatMap_cons]
    congr 1
    exact List.map_id _

/-- No symbol is lost as long as some value takes the place of each one. -/
theorem firsts_spread {f : α → List β} : ∀ ts : List (S × α), (∀ t ∈ ts, f t.2 ≠ []) →
    firsts key (spread f ts) = firsts key ts
  | [], _ => by
    rw [spread, List.flatMap_nil, firsts, firsts, gather_nil, gather_nil]
    rfl
  | (s, a) :: rest, h => by
    obtain ⟨b, bs, hb⟩ := List.exists_cons_of_ne_nil (h _ List.mem_cons_self)
    have hbeside : pairsBeside key s (bs.map (fun b => (s, b)) ++ spread f rest) = spread f (pairsBeside key s rest) := by
      have hown : pairsBeside key s (bs.map fun b => (s, b)) = [] := by
        refine List.filter_eq_nil_iff.mpr fun t ht => ?_
        obtain ⟨b', -, rfl⟩ := List.mem_map.mp ht
        simp
      rw [pairsBeside, List.filter_append]
      exact congrArg₂ (· ++ ·) hown (filter_spread f (fun s' => !(key s' == key s)) rest)
    have hrest : ∀ t ∈ pairsBeside key s rest, f t.2 ≠ [] := fun t ht => h t (List.mem_cons_of_mem _ (List.mem_filter.mp ht).1)
    rw [spread_cons, hb, List.map_cons, List.cons_append, firsts_cons, hbeside, firsts_spread (pairsBeside key s rest) hrest,
      firsts_cons]
termination_by ts => ts.length
decreasing_by exact Nat.lt_succ_of_le (length_pairsBeside_le _ _ _)

/-- **Values may be spread before they are gathered,** or afterwards. -/
theorem gather_spread {f : α → List β} {ts : List (S × α)} (h : ∀ t ∈ ts, f t.2 ≠ []) :
    gather key (spread f ts) = (gather key ts).map fun p => (p.1, p.2.flatMap f) := by
  rw [gather_eq_map, gather_eq_map key ts, firsts_spread key ts h, List.map_map]
  exact List.map_congr_left fun s _ => by rw [Function.comp_apply, valuesOf_spread]

/-! ## Summaries -/

/-- One entry for each symbol, without those that are not kept. -/
def summary (total : List α → β) (keep : β → Bool) (ts : List (S × α)) : List (S × β) :=
  ((gather key ts).map fun p => (p.1, total p.2)).filter fun t => keep t.2

theorem summary_nil (total : List α → β) (keep : β → Bool) : summary key total keep [] = [] := by
  rw [summary, gather_nil]
  rfl

/-- A summary of other readings of the same values. -/
theorem summary_map {γ δ ε : Type} (f : α → γ) (g : α → β) (r : δ → ε) {total : List β → δ} {total' : List γ → ε}
    {keep : δ → Bool} {keep' : ε → Bool} (htotal : ∀ cs : List α, total' (cs.map f) = r (total (cs.map g)))
    (hkeep : ∀ d, keep' (r d) = keep d) (ts : List (S × α)) :
    summary key total' keep' (ts.map fun t => (t.1, f t.2))
      = (summary key total keep (ts.map fun t => (t.1, g t.2))).map fun t => (t.1, r t.2) := by
  have hread : (gather key ts).map (fun p => (p.1, r (total (p.2.map g))))
      = ((gather key ts).map fun p => (p.1, total (p.2.map g))).map fun t => (t.1, r t.2) := by
    rw [List.map_map]
    rfl
  rw [summary, summary, gather_map, gather_map, List.map_map, List.map_map]
  simp only [Function.comp_def, htotal]
  rw [hread, List.filter_map]
  simp only [Function.comp_def, hkeep]

/-- **Entries that cancel leave no trace:** neither in the totals of the symbols that occur before, nor as new symbols. -/
theorem summary_append {total : List α → β} {keep : β → Bool} {a b : List (S × α)}
    (hcancel : ∀ s cs, total (cs ++ valuesOf key s b) = total cs) (hnil : keep (total []) = false) :
    summary key total keep (a ++ b) = summary key total keep a := by
  obtain ⟨rest, hfirsts, hlack⟩ := exists_firsts_append key a b
  have htotal : ∀ s, (s, total (valuesOf key s (a ++ b))) = (s, total (valuesOf key s a)) := by
    intro s
    rw [valuesOf_append, hcancel]
  have hdropped : (rest.map fun s => (s, total (valuesOf key s a))).filter (fun t => keep t.2) = [] := by
    refine List.filter_eq_nil_iff.mpr fun t ht => ?_
    obtain ⟨s, hs, rfl⟩ := List.mem_map.mp ht
    rw [hlack s hs, hnil]
    exact Bool.false_ne_true
  rw [summary, summary, gather_eq_map, gather_eq_map key a, List.map_map, List.map_map]
  simp only [Function.comp_def, htotal]
  rw [hfirsts, List.map_append, List.filter_append, hdropped, List.append_nil]

/-! ## Order -/

theorem exists_mem_firsts {s : S} {c : α} : ∀ {ts : List (S × α)}, (s, c) ∈ ts → ∃ s' ∈ firsts key ts, key s' = key s
  | (s', c') :: rest, h => by
    rw [firsts_cons]
    rcases List.mem_cons.mp h with h | h
    · cases h
      exact ⟨s, List.mem_cons_self, rfl⟩
    · by_cases hkey : key s = key s'
      · exact ⟨s', List.mem_cons_self, hkey.symm⟩
      · have hmem : (s, c) ∈ pairsBeside key s' rest := List.mem_filter.mpr ⟨h, by simpa using hkey⟩
        obtain ⟨s'', hs'', heq⟩ := exists_mem_firsts hmem
        exact ⟨s'', List.mem_cons_of_mem _ hs'', heq⟩
termination_by ts => ts.length
decreasing_by exact Nat.lt_succ_of_le (length_pairsBeside_le _ _ _)

theorem nodup_firsts (ts : List (S × α)) : (firsts key ts).Nodup := by
  have h := (pairwise_gather key ts).map (S := fun s t => s ≠ t) (·.1) fun p q hne heq => hne (congrArg key heq)
  exact h

/-- Symbols that their keys tell apart. -/
def Distinguished (ts : List (S × α)) : Prop := ∀ s ∈ ts, ∀ t ∈ ts, key s.1 = key t.1 → s.1 = t.1

theorem mem_firsts_iff {ts : List (S × α)} (h : Distinguished key ts) {s : S} : s ∈ firsts key ts ↔ ∃ c, (s, c) ∈ ts := by
  constructor
  · intro hs
    obtain ⟨p, hp, rfl⟩ := List.mem_map.mp hs
    exact exists_mem_of_mem_gather key hp
  · rintro ⟨c, hc⟩
    obtain ⟨s', hs', hkey⟩ := exists_mem_firsts key hc
    obtain ⟨p, hp, rfl⟩ := List.mem_map.mp hs'
    obtain ⟨c', hc'⟩ := exists_mem_of_mem_gather key hp
    have hsame : p.1 = s := h _ hc' _ hc hkey
    exact hsame ▸ hs'

theorem firsts_perm {a b : List (S × α)} (h : a.Perm b) (ha : Distinguished key a) :
    (firsts key a).Perm (firsts key b) := by
  have hb : Distinguished key b := fun s hs t ht => ha s (h.mem_iff.mpr hs) t (h.mem_iff.mpr ht)
  refine (List.perm_ext_iff_of_nodup (nodup_firsts key a) (nodup_firsts key b)).mpr fun s => ?_
  rw [mem_firsts_iff key ha, mem_firsts_iff key hb]
  simp only [h.mem_iff]

theorem valuesOf_perm {a b : List (S × α)} (h : a.Perm b) (s : S) : (valuesOf key s a).Perm (valuesOf key s b) :=
  (h.filter _).map _

theorem map_eq_map_of_forall₂ {α β γ : Type} {f : α → γ} {g : β → γ} {l : List α} {m : List β}
    (h : List.Forall₂ (fun a b => f a = g b) l m) : l.map f = m.map g := by
  induction h with
  | nil => rfl
  | cons hab _ ih => rw [List.map_cons, List.map_cons, hab, ih]

/-- **The order of the entries only matters for the order of the result,** if it does not matter for each symbol. -/
theorem exists_perm_of_mapM_gather {ε γ : Type} {f f' : S × List α → Except ε γ} {R : γ → γ → Prop} {a b : List (S × α)}
    (h : a.Perm b) (ha : Distinguished key a)
    (hf : ∀ s cs ds c d, (∀ x ∈ cs, ∃ t ∈ a, t.2 = x) → cs.Perm ds → f (s, cs) = .ok c → f' (s, ds) = .ok d → R c d)
    {cs ds : List γ} (hcs : (gather key a).mapM f = .ok cs) (hds : (gather key b).mapM f' = .ok ds) :
    ∃ m, cs.Perm m ∧ List.Forall₂ R m ds := by
  rw [mapM_eq_ok_iff, gather_eq_map, List.forall₂_map_left_iff] at hcs hds
  -- the answers for `a` in the order in which the symbols come in `b`
  obtain ⟨m, hm, hperm⟩ := List.perm_comp_forall₂ (firsts_perm key h ha).symm hcs
  exact ⟨m, hperm.symm, forall₂_comp hm.flip hds fun c s d hc hd =>
    hf s _ _ c d (fun x hx => mem_valuesOf key hx) (valuesOf_perm key h s) hc hd⟩

end RobustLP
