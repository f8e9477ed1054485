import RobustLP.Check.Close
import RobustLP.Proofs.Rounding.Differences
import Mathlib.Data.List.Perm.Subperm

/-!
# Structures

A structure holds doubles and texts in lists, tuples and dictionaries (`Value.Structured`). Two structures match under a relation
of doubles (`Value.Matches`) if they have one shape, where lists and tuples are alike, and the relation holds of the doubles at
the same places. This is reflexive and symmetric where the relation is.

The keys of a dictionary are compared by equality, for which the two zeros are one key. On the keys of a structure (`Value.Key`)
it is an equivalence relation (`Value.Key.same_iff`). So dictionaries whose keys are pairwise different are functions
(`Tolerance.at?_eq_some_iff`), and two of one size have the same keys as soon as those of the first are found in the second
(`Tolerance.sameKeys_iff`).
-/

namespace RobustLP

/-! ## Keys -/

namespace Value

/-- A key of a structure. An undefined number is none: it does not equal itself. -/
inductive Key : Value → Prop
  | none : Key .none
  | text (s : String) : Key (.text s)
  | float {x : Float} (h : x.isNaN = false) : Key (.float x)
  | tuple {ks : List Value} (h : ∀ k ∈ ks, Key k) : Key (.tuple ks)

/-- What equality of keys looks at. -/
inductive KeyClass where
  | none
  | text (s : String)
  | number (key : Option (Float.Model.UnpackedFloat.Sign ⊕ Option (Float.Model.UnpackedFloat.Sign × Nat × Int)))
  | tuple (ks : List KeyClass)

mutual

/-- The class of a key. -/
def keyClass : Value → KeyClass
  | text s => .text s
  | float x => .number (Decimal.comparisonKey x.toModel.unpack)
  | tuple ks => .tuple (keyClasses ks)
  | _ => .none

/-- The classes of several keys. -/
def keyClasses : List Value → List KeyClass
  | [] => []
  | k :: ks => keyClass k :: keyClasses ks

end

variable {a b k l v w : Value} {ks ls : List Value}

theorem sameAll_iff (h : ∀ k ∈ ks, ∀ l, l.Key → (k.same l = true ↔ k.keyClass = l.keyClass)) (hls : ∀ l ∈ ls, l.Key) :
    sameAll ks ls = true ↔ keyClasses ks = keyClasses ls := by
  induction ks generalizing ls with
  | nil => cases ls <;> simp [sameAll, keyClasses]
  | cons k ks ih =>
    cases ls with
    | nil => simp [sameAll, keyClasses]
    | cons l ls =>
      obtain ⟨hk, hks⟩ := List.forall_mem_cons.mp h
      obtain ⟨hl, hls⟩ := List.forall_mem_cons.mp hls
      rw [sameAll, Bool.and_eq_true, hk l hl, ih hks hls, keyClasses, keyClasses, List.cons.injEq]

/-- **Keys are equal** when their classes are. So equality of keys is an equivalence relation. -/
theorem Key.same_iff (hk : k.Key) (hl : l.Key) : k.same l = true ↔ k.keyClass = l.keyClass := by
  induction hk generalizing l with
  | none => cases hl <;> simp [same, rational?, keyClass]
  | text s => cases hl <;> simp [same, rational?, keyClass]
  | @float x hx =>
    cases hl with
    | @float y hy =>
      have hne : Decimal.comparisonKey x.toModel.unpack ≠ Option.none := fun hnone =>
        Bool.eq_false_iff.mp hx (Decimal.isNaN_iff.mpr (Decimal.eq_notANumber_of_comparisonKey hnone))
      rw [same, Decimal.float_beq_iff, keyClass, keyClass, KeyClass.number.injEq, and_iff_left hne]
    | none | text | tuple => simp [same, rational?, keyClass]
  | tuple hks ih =>
    cases hl with
    | tuple hls => rw [same, keyClass, keyClass, KeyClass.tuple.injEq, sameAll_iff (fun k hk l hl => ih k hk hl) hls]
    | none | text | float => simp [same, rational?, keyClass]

theorem Key.same_self (hk : k.Key) : k.same k = true := (hk.same_iff hk).mpr rfl

end Value

namespace Tolerance

variable {xs ys : List (Value × Value)} {k l v w : Value}

/-- The entries of a dictionary: their keys are pairwise different. -/
structure Entries (xs : List (Value × Value)) : Prop where
  keys : ∀ e ∈ xs, e.1.Key
  distinct : xs.Pairwise fun e f => e.1.same f.1 = false

theorem Entries.nodup (h : Entries xs) : (xs.map (·.1.keyClass)).Nodup := by
  refine List.pairwise_map.mpr (h.distinct.imp_of_mem fun {e f} he hf hne heq => ?_)
  exact Bool.eq_false_iff.mp hne (((h.keys e he).same_iff (h.keys f hf)).mpr heq)

theorem Entries.tail {e : Value × Value} (h : Entries (e :: xs)) : Entries xs :=
  ⟨(List.forall_mem_cons.mp h.keys).2, (List.pairwise_cons.mp h.distinct).2⟩

/-- A key finds the entry of its class. -/
theorem at?_eq_some_iff (h : Entries xs) (hk : k.Key) :
    at? k xs = some v ↔ ∃ e ∈ xs, e.1.keyClass = k.keyClass ∧ e.2 = v := by
  induction xs with
  | nil => simp [at?]
  | cons e xs ih =>
    have hsame := hk.same_iff (h.keys e List.mem_cons_self)
    have hfresh := (List.nodup_cons.mp h.nodup).1
    rw [at?]
    split
    next heq =>
      have hclass := hsame.mp heq
      constructor
      · intro hv
        exact ⟨e, List.mem_cons_self, hclass.symm, Option.some.inj hv⟩
      · rintro ⟨f, hf, hf', rfl⟩
        rcases List.mem_cons.mp hf with rfl | hf
        · rfl
        · exact absurd (List.mem_map.mpr ⟨f, hf, hf'.trans hclass⟩) hfresh
    next hne =>
      rw [ih h.tail, List.exists_mem_cons_iff]
      exact (or_iff_right fun he => hne (hsame.mpr he.1.symm)).symm

theorem isSome_at?_iff (h : Entries xs) (hk : k.Key) : (at? k xs).isSome = true ↔ k.keyClass ∈ xs.map (·.1.keyClass) := by
  rw [Option.isSome_iff_exists, List.mem_map]
  simp only [at?_eq_some_iff h hk]
  exact ⟨fun ⟨_, e, he, hclass, _⟩ => ⟨e, he, hclass⟩, fun ⟨e, he, hclass⟩ => ⟨_, e, he, hclass, rfl⟩⟩

/-- **Dictionaries have the same keys** when each key is found in both or in neither. -/
theorem sameKeys_iff (hx : Entries xs) (hy : Entries ys) :
    sameKeys xs ys = true ↔ ∀ k : Value, k.Key → ((at? k xs).isSome = true ↔ (at? k ys).isSome = true) := by
  have hsubset {xs ys : List (Value × Value)} (hx : Entries xs) (hy : Entries ys)
      (h : ∀ e ∈ xs, (at? e.1 ys).isSome = true) : (xs.map (·.1.keyClass)).Subperm (ys.map (·.1.keyClass)) := by
    refine hx.nodup.subperm fun c hc => ?_
    obtain ⟨e, he, rfl⟩ := List.mem_map.mp hc
    exact (isSome_at?_iff hy (hx.keys e he)).mp (h e he)
  have hself {xs : List (Value × Value)} (hx : Entries xs) : ∀ e ∈ xs, (at? e.1 xs).isSome = true := fun e he =>
    (isSome_at?_iff hx (hx.keys e he)).mpr (List.mem_map_of_mem he)
  rw [sameKeys, Bool.and_eq_true, beq_iff_eq, List.all_eq_true]
  constructor
  · rintro ⟨hlength, hall⟩ k hk
    have hperm := (hsubset hx hy hall).perm_of_length_le (by rw [List.length_map, List.length_map, hlength])
    rw [isSome_at?_iff hx hk, isSome_at?_iff hy hk, hperm.mem_iff]
  · intro h
    have hall : ∀ e ∈ xs, (at? e.1 ys).isSome = true := fun e he => (h e.1 (hx.keys e he)).mp (hself hx e he)
    have hall' : ∀ e ∈ ys, (at? e.1 xs).isSome = true := fun e he => (h e.1 (hy.keys e he)).mpr (hself hy e he)
    have hle := (hsubset hx hy hall).length_le
    have hge := (hsubset hy hx hall').length_le
    rw [List.length_map, List.length_map] at hle hge
    exact ⟨le_antisymm hle hge, hall⟩

end Tolerance

/-! ## Structures -/

namespace Value

open Tolerance

/-- A structure: doubles, texts and nothing, in lists, tuples and dictionaries. -/
inductive Structured : Value → Prop
  | none : Structured .none
  | text (s : String) : Structured (.text s)
  | float (x : Float) : Structured (.float x)
  | list {xs : List Value} (h : ∀ x ∈ xs, Structured x) : Structured (.list xs)
  | tuple {xs : List Value} (h : ∀ x ∈ xs, Structured x) : Structured (.tuple xs)
  | dict {xs : List (Value × Value)} (hxs : Entries xs) (h : ∀ e ∈ xs, Structured e.2) : Structured (.dict xs)

/-- Two structures have one shape, and a relation holds between the doubles at the same places. Lists and tuples are alike. -/
inductive Matches (R : Float → Float → Prop) : Value → Value → Prop
  | none : Matches R .none .none
  | text (s : String) : Matches R (.text s) (.text s)
  | float {x y : Float} (h : R x y) : Matches R (.float x) (.float y)
  | sequence {a b : Value} {xs ys : List Value} (ha : elements? a = some xs) (hb : elements? b = some ys)
      (hlength : xs.length = ys.length) (h : ∀ (i : Nat) (hx : i < xs.length) (hy : i < ys.length), Matches R xs[i] ys[i]) :
      Matches R a b
  | dict {xs ys : List (Value × Value)}
      (hkeys : ∀ k : Value, k.Key → ((at? k xs).isSome = true ↔ (at? k ys).isSome = true))
      (h : ∀ k v w : Value, k.Key → at? k xs = some v → at? k ys = some w → Matches R v w) : Matches R (.dict xs) (.dict ys)

variable {R S : Float → Float → Prop} {a b : Value} {xs ys : List Value}

theorem Matches.mono (hRS : ∀ x y, R x y → S x y) (h : Matches R a b) : Matches S a b := by
  induction h with
  | none => exact .none
  | text s => exact .text s
  | float h => exact .float (hRS _ _ h)
  | sequence ha hb hlength _ ih => exact .sequence ha hb hlength ih
  | dict hkeys _ ih => exact .dict hkeys ih

theorem Matches.symm (hR : ∀ x y, R x y → R y x) (h : Matches R a b) : Matches R b a := by
  induction h with
  | none => exact .none
  | text s => exact .text s
  | float h => exact .float (hR _ _ h)
  | sequence ha hb hlength _ ih => exact .sequence hb ha hlength.symm fun i hy hx => ih i hx hy
  | dict hkeys _ ih => exact .dict (fun k hk => (hkeys k hk).symm) fun k w v hk hw hv => ih k v w hk hv hw

theorem Structured.matches_self (hR : ∀ x, R x x) (ha : a.Structured) : Matches R a a := by
  induction ha with
  | none => exact .none
  | text s => exact .text s
  | float x => exact .float (hR x)
  | list h ih => exact .sequence rfl rfl rfl fun i hi _ => ih _ (List.getElem_mem hi)
  | tuple h ih => exact .sequence rfl rfl rfl fun i hi _ => ih _ (List.getElem_mem hi)
  | dict hxs h ih =>
    refine .dict (fun _ _ => Iff.rfl) fun k v w hk hv hw => ?_
    obtain rfl := Option.some.inj (hv.symm.trans hw)
    obtain ⟨e, he, -, rfl⟩ := (at?_eq_some_iff hxs hk).mp hv
    exact ih e he

/-- The kinds of structures. -/
inductive Kind where
  | none
  | text
  | number
  | sequence
  | dictionary

/-- The kind of a structure. -/
def kind : Value → Kind
  | text _ => .text
  | float _ => .number
  | list _ | tuple _ | array _ => .sequence
  | dict _ => .dictionary
  | _ => .none

theorem kind_of_elements? (h : elements? a = some xs) : a.kind = .sequence := by
  cases a <;> first | rfl | cases h

theorem Matches.kind_eq (h : Matches R a b) : a.kind = b.kind := by
  cases h with
  | none | text | float | dict => rfl
  | sequence ha hb => rw [kind_of_elements? ha, kind_of_elements? hb]

/-- Sequences match entry by entry. -/
theorem matches_sequence_iff (ha : elements? a = some xs) (hb : elements? b = some ys) :
    Matches R a b ↔ List.Forall₂ (Matches R) xs ys := by
  rw [List.forall₂_iff_get]
  constructor
  · intro h
    cases h with
    | none | text | float | dict => cases ha
    | sequence ha' hb' hlength h =>
      obtain rfl := Option.some.inj (ha.symm.trans ha')
      obtain rfl := Option.some.inj (hb.symm.trans hb')
      exact ⟨hlength, h⟩
  · rintro ⟨hlength, h⟩
    exact .sequence ha hb hlength h

/-- Dictionaries with the same keys match if each value of the first matches the one that is found under its key. -/
theorem matches_dict_iff {xs ys : List (Value × Value)} (hx : Entries xs) (hy : Entries ys) (hsame : sameKeys xs ys = true) :
    Matches R (.dict xs) (.dict ys) ↔ ∀ e ∈ xs, ∀ w, at? e.1 ys = some w → Matches R e.2 w := by
  constructor
  · intro h e he w hw
    cases h with
    | sequence ha => cases ha
    | dict _ h => exact h e.1 e.2 w (hx.keys e he) ((at?_eq_some_iff hx (hx.keys e he)).mpr ⟨e, he, rfl, rfl⟩) hw
  · intro h
    refine .dict ((sameKeys_iff hx hy).mp hsame) fun k v w hk hv hw => ?_
    obtain ⟨e, he, hclass, rfl⟩ := (at?_eq_some_iff hx hk).mp hv
    obtain ⟨f, hf, hclass', rfl⟩ := (at?_eq_some_iff hy hk).mp hw
    exact h e he f.2 ((at?_eq_some_iff hy (hx.keys e he)).mpr ⟨f, hf, hclass'.trans hclass.symm, rfl⟩)

end Value

end RobustLP
