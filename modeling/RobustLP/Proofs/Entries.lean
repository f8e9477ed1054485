import Mathlib
import RobustLP.Working.Expand

/-!
# Lists of entries

Rows, forms and tables of columns are lists of entries, each with a key, in which no key occurs twice. The library changes
them in one way only, in several places: an entry that exists is replaced, and one that does not is appended. `upsert` is this
change in general; what it does to keys, look-ups and sums is stated once here.
-/

namespace RobustLP

variable {α : Type}

/-- The value of a key. -/
def lookup? (k : Nat) (row : List (Nat × α)) : Option α := (row.find? (·.1 == k)).map (·.2)

/-- Replaces the value of a key, or appends an entry for it; the new value depends on the old one. -/
def upsert (k : Nat) (g : Option α → α) (row : List (Nat × α)) : List (Nat × α) :=
  if row.any (·.1 == k) then row.map fun s => if s.1 == k then (k, g (some s.2)) else s else row ++ [(k, g none)]

/-- The keys of a list of entries. -/
def keys (row : List (Nat × α)) : List Nat := row.map (·.1)

variable {k : Nat} {g : Option α → α} {row : List (Nat × α)}

theorem keys_cons (s : Nat × α) (row : List (Nat × α)) : keys (s :: row) = s.1 :: keys row := rfl

theorem mem_keys {s : Nat × α} (hs : s ∈ row) : s.1 ∈ keys row := List.mem_map_of_mem hs

theorem any_key_iff : row.any (·.1 == k) = true ↔ k ∈ keys row := by
  simp only [keys, List.any_eq_true, List.mem_map, beq_iff_eq]

/-! ## Look-ups -/

theorem lookup?_cons (s : Nat × α) (row : List (Nat × α)) :
    lookup? k (s :: row) = if s.1 = k then some s.2 else lookup? k row := by
  unfold lookup?
  rw [List.find?_cons]
  by_cases h : s.1 = k
  · simp [h]
  · simp [h, beq_eq_false_iff_ne.mpr h]

theorem lookup?_append (row rest : List (Nat × α)) :
    lookup? k (row ++ rest) = (lookup? k row).or (lookup? k rest) := by
  induction row with
  | nil => rfl
  | cons s row ih =>
    rw [List.cons_append, lookup?_cons, lookup?_cons, ih]
    split <;> rfl

theorem lookup?_eq_none_iff : lookup? k row = none ↔ k ∉ keys row := by
  induction row with
  | nil => simp [lookup?, keys]
  | cons s row ih =>
    rw [lookup?_cons]
    by_cases h : s.1 = k
    · simp [h, keys]
    · rw [if_neg h, ih]
      simp [keys, Ne.symm h]

/-- An element is found by what tells it from the others. -/
theorem find?_of_nodup {β γ : Type} [BEq γ] [LawfulBEq γ] {f : β → γ} : ∀ {l : List β}, (l.map f).Nodup → ∀ {b : β}, b ∈ l →
    l.find? (fun c => f c == f b) = some b
  | [], _, _, hb => absurd hb List.not_mem_nil
  | c :: l, h, b, hb => by
    rw [List.map_cons, List.nodup_cons] at h
    rcases List.mem_cons.mp hb with rfl | hb
    · exact List.find?_cons_of_pos (beq_self_eq_true _)
    · have hne : ¬(f c == f b) = true := fun heq => h.1 (eq_of_beq heq ▸ List.mem_map_of_mem hb)
      rw [List.find?_cons, Bool.eq_false_iff.mpr hne]
      exact find?_of_nodup h.2 hb

/-- In a list without repetition, each entry is found. -/
theorem lookup?_of_mem (hrow : (keys row).Nodup) {s : Nat × α} (hs : s ∈ row) : lookup? s.1 row = some s.2 := by
  rw [lookup?, find?_of_nodup hrow hs]
  rfl

/-- What is found is an entry. -/
theorem mem_of_lookup? {a : α} (h : lookup? k row = some a) : (k, a) ∈ row := by
  obtain ⟨s, hs, rfl⟩ := Option.map_eq_some_iff.mp h
  have hk : s.1 = k := by simpa using List.find?_some hs
  rw [← hk]
  exact List.mem_of_find?_eq_some hs

/-! ## Keys -/

theorem keys_upsert (k : Nat) (g : Option α → α) (row : List (Nat × α)) :
    keys (upsert k g row) = if k ∈ keys row then keys row else keys row ++ [k] := by
  unfold upsert
  by_cases h : k ∈ keys row
  · rw [if_pos (any_key_iff.mpr h), if_pos h, keys, keys, List.map_map]
    refine List.map_congr_left fun s _ => ?_
    by_cases hs : s.1 = k
    · simp [hs]
    · simp [hs]
  · rw [if_neg (mt any_key_iff.mp h), if_neg h, keys, List.map_append]
    rfl

/-- A new entry comes last. -/
theorem upsert_of_not_mem (h : k ∉ keys row) : upsert k g row = row ++ [(k, g none)] := if_neg (mt any_key_iff.mp h)

theorem mem_keys_upsert {j : Nat} : j ∈ keys (upsert k g row) ↔ j = k ∨ j ∈ keys row := by
  rw [keys_upsert]
  split
  next h =>
    constructor
    · exact .inr
    · rintro (rfl | hj)
      · exact h
      · exact hj
  next => simp [or_comm]

theorem nodup_upsert (h : (keys row).Nodup) : (keys (upsert k g row)).Nodup := by
  rw [keys_upsert]
  split
  next => exact h
  next hk => exact List.nodup_append.mpr ⟨h, List.nodup_singleton k, fun a ha b hb hab => by
      rw [List.mem_singleton.mp hb] at hab
      exact hk (hab ▸ ha)⟩

/-! ## Values -/

/-- The value of another key stays. -/
theorem lookup?_upsert_ne {j : Nat} (hj : j ≠ k) : lookup? j (upsert k g row) = lookup? j row := by
  have hmap : lookup? j (row.map fun s => if s.1 == k then (k, g (some s.2)) else s) = lookup? j row := by
    induction row with
    | nil => rfl
    | cons s row ih =>
      rw [List.map_cons, lookup?_cons, lookup?_cons, ih]
      by_cases hs : s.1 = k
      · simp [hs, Ne.symm hj]
      · simp [hs]
  unfold upsert
  split
  next => exact hmap
  next =>
    rw [lookup?_append, lookup?_cons, if_neg (Ne.symm hj)]
    exact Option.or_none

/-- **What an update adds to a sum over the entries:** the summand of the new value less that of the old one. -/
theorem sum_upsert (v : Nat × α → Rat) (h : (keys row).Nodup) : ((upsert k g row).map v).sum
    = (row.map v).sum + (v (k, g (lookup? k row)) - ((lookup? k row).map fun a => v (k, a)).getD 0) := by
  unfold upsert
  by_cases hk : k ∈ keys row
  · rw [if_pos (any_key_iff.mpr hk)]
    induction row with
    | nil => cases hk
    | cons s row ih =>
      rw [keys_cons, List.nodup_cons] at h
      rw [List.map_cons, List.map_cons, List.map_cons, List.sum_cons, List.sum_cons, lookup?_cons]
      by_cases hs : s.1 = k
      · -- the only entry with this key
        have hrest : row.map (fun s => if s.1 == k then (k, g (some s.2)) else s) = row := by
          refine (List.map_congr_left fun t ht => ?_).trans (List.map_id row)
          have hne : t.1 ≠ k := fun htk => h.1 (by rw [hs, ← htk]; exact mem_keys ht)
          rw [if_neg (by simpa using hne), id]
        rw [hrest]
        obtain ⟨j, a⟩ := s
        cases hs
        simp only [beq_self_eq_true, if_true, Option.map_some, Option.getD_some]
        ring
      · have hk' : k ∈ keys row := (List.mem_cons.mp hk).resolve_left (Ne.symm hs)
        rw [ih h.2 hk']
        simp [hs]
        ring
  · rw [if_neg (mt any_key_iff.mp hk), lookup?_eq_none_iff.mpr hk]
    simp

/-- A property of the old entries and of the new value is one of the entries. -/
theorem forall_mem_upsert {P : Nat × α → Prop} (h : (keys row).Nodup) (hrow : ∀ t ∈ row, P t)
    (hnew : P (k, g (lookup? k row))) : ∀ t ∈ upsert k g row, P t := by
  intro t ht
  unfold upsert at ht
  split at ht
  next =>
    obtain ⟨s, hs, rfl⟩ := List.mem_map.mp ht
    by_cases hk : s.1 = k
    · subst hk
      rw [lookup?_of_mem h hs] at hnew
      simpa using hnew
    · simpa [hk] using hrow s hs
  next hk =>
    rw [lookup?_eq_none_iff.mpr (mt any_key_iff.mpr hk)] at hnew
    rcases List.mem_append.mp ht with ht | ht
    · exact hrow t ht
    · rw [List.mem_singleton.mp ht]
      exact hnew

/-! ## The changes of the library -/

variable {K B : Type} [Scalar K B]

theorem addCoef_eq_upsert (row : List (Nat × K)) (t : Nat × K) :
    addCoef row t = upsert t.1 (fun old => (old.map (t.2 + ·)).getD t.2) row := by
  unfold addCoef upsert
  split
  next =>
    refine List.map_congr_left fun s _ => ?_
    by_cases h : s.1 = t.1
    · simp [h]
    · simp [h]
  next => rfl

theorem Form.addTo_linear (k : Nat) (c : K) (f : Form K) :
    (f.addTo k c).linear = upsert k (fun old => (old.map (· + c)).getD (Scalar.zero + c)) f.linear := by
  unfold addTo upsert
  split <;> rfl

theorem Form.addTo_constant (k : Nat) (c : K) (f : Form K) : (f.addTo k c).constant = f.constant := by
  unfold addTo
  split <;> rfl

theorem Expander.setCoef_eq_upsert (j : Nat) (a : α) (entries : List (Nat × α)) :
    Expander.setCoef j a entries = upsert j (fun _ => a) entries := rfl

end RobustLP
