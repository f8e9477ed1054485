import RobustLP.Proofs.Check.Structures

/-!
# Closeness of structures

The check of two structures passes exactly if they match, with doubles that it takes for close (`Tolerance.check_accepts`). Two
doubles are near each other (`Tolerance.Near`) if they are equal, or both undefined, or both finite and within the limits. These
are taken for close, and so is an infinite double beside any defined one if an infinite difference keeps the limits
(`Tolerance.Swallows`): the relative limit is a multiple of the larger magnitude, which is infinite then.

First the limits are compared with differences (`decides_withinLimits`) and the doubles with each other (`decides_admits`), then
the structures by induction on the first one (`finds_compare`), with one lemma for each kind of structure.
-/

namespace RobustLP

namespace Tolerance

variable {t : Tolerance} {d x y : Float}

/-! ## Doubles -/

/-- A tolerance whose limits are numbers, the relative one within the range of doubles. -/
structure Numeric (t : Tolerance) : Prop where
  absolute : ∀ a, t.absolute = some a → (∃ x, a = .float x) ∨ ∃ n, a = .int n
  relative : ∀ r, t.relative = some r → ∃ f, r.operand = .ok f

/-- A difference is at most a limit. -/
def AtMost (d : Float) : Value → Prop
  | .float a => d ≤ a
  | .int n => ∃ q, Decimal.toRat? d = some q ∧ q ≤ n
  | _ => False

/-- The difference of two doubles is at most the absolute limit, or at most the relative one times the larger magnitude. -/
def Within (t : Tolerance) (x y : Float) : Prop :=
  (∃ a, t.absolute = some a ∧ AtMost (x - y).abs a)
    ∨ ∃ r f, t.relative = some r ∧ r.operand = .ok f ∧ (x - y).abs ≤ f * larger x.abs y.abs

/-- Two doubles are equal, or both undefined, or finite and not further apart than the tolerance allows. -/
def Near (t : Tolerance) (x y : Float) : Prop :=
  (x == y) = true ∨ (x.isNaN = true ∧ y.isNaN = true) ∨ (x.isFinite = true ∧ y.isFinite = true ∧ t.Within x y)

/-- A limit that an infinite difference keeps: an infinite one, or any positive multiple of an infinite magnitude. -/
def Unbounded (t : Tolerance) : Prop :=
  t.absolute = some (.float Decimal.infinity) ∨ ∃ r f, t.relative = some r ∧ r.operand = .ok f ∧ 0 < f

/-- An infinite double is taken for close to any other one that is defined. -/
def Swallows (t : Tolerance) (x y : Float) : Prop :=
  t.Unbounded ∧ (x.isInf = true ∨ y.isInf = true) ∧ x.isNaN = false ∧ y.isNaN = false

/-- The doubles that are taken for close. -/
def Accepts (t : Tolerance) (x y : Float) : Prop := t.Near x y ∨ t.Swallows x y

/-- The larger magnitude does not depend on the order. -/
theorem larger_abs_comm (hx : x.isNaN = false) (hy : y.isNaN = false) : larger x.abs y.abs = larger y.abs x.abs := by
  obtain ⟨o, hc⟩ := Decimal.exists_compare_abs hx hy
  have hc' := Decimal.compare_swap x.abs.toModel.unpack y.abs.toModel.unpack
  rw [hc] at hc'
  unfold larger
  simp only [Decimal.lt_iff]
  rw [hc, hc', Option.map_some]
  cases o with
  | lt => rw [if_pos rfl, if_neg (by decide)]
  | gt => rw [if_neg (by decide), Ordering.swap_gt, if_pos rfl]
  | eq => rw [Decimal.abs_eq_of_compare hc, ite_self, ite_self]

theorem Within.symm (hx : x.isNaN = false) (hy : y.isNaN = false) (h : t.Within x y) : t.Within y x := by
  unfold Within at h ⊢
  rwa [Decimal.abs_sub_comm, larger_abs_comm hy hx]

theorem Near.symm (h : t.Near x y) : t.Near y x := by
  rcases h with h | ⟨hx, hy⟩ | ⟨hx, hy, h⟩
  · exact .inl (Decimal.beq_comm x y ▸ h)
  · exact .inr (.inl ⟨hy, hx⟩)
  · exact .inr (.inr ⟨hy, hx, h.symm (Decimal.isFinite_iff_not.mp hx).1 (Decimal.isFinite_iff_not.mp hy).1⟩)

theorem Accepts.symm (h : t.Accepts x y) : t.Accepts y x :=
  h.imp Near.symm fun ⟨ht, hinf, hx, hy⟩ => ⟨ht, hinf.symm, hy, hx⟩

theorem near_self (t : Tolerance) (x : Float) : t.Near x x := by
  by_cases hx : x.isNaN = true
  · exact .inr (.inl ⟨hx, hx⟩)
  · exact .inl (Decimal.beq_self (Bool.eq_false_iff.mpr hx))

/-! ## Limits -/

/-- A test that comes to an answer decides a statement. -/
def Decides (r : Except Fault Bool) (p : Prop) : Prop := ∃ b, r = .ok b ∧ (b = true ↔ p)

theorem Decides.of_false {p : Prop} (h : ¬p) : Decides (.ok false) p := ⟨false, rfl, iff_of_false Bool.false_ne_true h⟩

theorem Decides.or {r s : Except Fault Bool} {p q : Prop} (hr : Decides r p) (hs : Decides s q) :
    Decides (do if ← r then return true else s) (p ∨ q) := by
  obtain ⟨b, rfl, hb⟩ := hr
  cases b with
  | false =>
    rwa [or_iff_right fun hp => Bool.false_ne_true (hb.mpr hp)]
  | true => exact ⟨true, rfl, iff_of_true rfl (.inl (hb.mp rfl))⟩

theorem decides_atMost {a : Value} (ha : (∃ x, a = .float x) ∨ ∃ n, a = .int n) : Decides (atMost d a) (AtMost d a) := by
  obtain ⟨x, rfl⟩ | ⟨n, rfl⟩ := ha
  · exact ⟨_, rfl, decide_eq_true_iff⟩
  · refine ⟨_, rfl, ?_⟩
    rw [Option.any_eq_true]
    simp only [decide_eq_true_iff]
    rfl

theorem decides_relative (ht : t.Numeric) (d m : Float) :
    Decides (match t.relative with
      | some r => do return decide (d ≤ (← r.operand) * m)
      | none => return false)
      (∃ r f, t.relative = some r ∧ r.operand = .ok f ∧ d ≤ f * m) := by
  cases hr : t.relative with
  | none => exact .of_false fun ⟨_, _, h, _⟩ => nomatch h
  | some r =>
    obtain ⟨f, hf⟩ := ht.relative r hr
    refine ⟨decide (d ≤ f * m), ?_, ?_⟩
    · dsimp only
      rw [hf]
      rfl
    · rw [decide_eq_true_iff]
      constructor
      · intro h
        exact ⟨r, f, rfl, hf, h⟩
      · rintro ⟨r', f', hr', hf', h⟩
        obtain rfl := Option.some.inj hr'
        obtain rfl := Except.ok.inj (hf.symm.trans hf')
        exact h

/-- The limits of a numeric tolerance can be compared with every difference. -/
theorem decides_withinLimits (ht : t.Numeric) (x y : Float) : Decides (t.withinLimits x y) (t.Within x y) := by
  have hrelative := decides_relative ht (x - y).abs (larger x.abs y.abs)
  unfold withinLimits Within
  cases ha : t.absolute with
  | none => exact .or (.of_false fun ⟨_, h, _⟩ => nomatch h) hrelative
  | some a =>
    obtain ⟨b, hb, hiff⟩ := decides_atMost (d := (x - y).abs) (ht.absolute a ha)
    exact .or ⟨b, hb, hiff.trans ⟨fun h => ⟨a, rfl, h⟩, fun ⟨_, ha', h⟩ => Option.some.inj ha' ▸ h⟩⟩ hrelative

theorem not_atMost_of_isNaN (h : d.isNaN = true) (a : Value) : ¬AtMost d a := by
  intro ha
  cases a with
  | float x => exact Decimal.not_le_of_isNaN h ha
  | int n =>
    obtain ⟨q, hq, -⟩ := ha
    rw [Decimal.toRat?_of_isNaN h] at hq
    cases hq
  | _ => exact ha

/-- Nothing is within the limits of an undefined double. -/
theorem not_within_of_isNaN (h : x.isNaN = true ∨ y.isNaN = true) : ¬t.Within x y := by
  have hd := Decimal.isNaN_abs_sub h
  rintro (⟨a, -, ha⟩ | ⟨_, _, -, -, hle⟩)
  · exact not_atMost_of_isNaN hd a ha
  · exact Decimal.not_le_of_isNaN hd hle

theorem atMost_infinity_iff {a : Value} : AtMost Decimal.infinity a ↔ a = .float Decimal.infinity := by
  cases a with
  | float x => exact Decimal.infinity_le_iff.trans ⟨congrArg _, Value.float.inj⟩
  | int n => exact iff_of_false (fun ⟨_, hq, _⟩ => nomatch hq) (fun h => nomatch h)
  | _ => exact iff_of_false id (fun h => nomatch h)

/-- The magnitude of an infinite double is the larger one. -/
theorem larger_abs_of_isInf (hx : x.isInf = true) : larger x.abs y.abs = Decimal.infinity := by
  rw [Decimal.abs_of_isInf hx]
  exact if_neg (Decimal.not_infinity_lt _)

/-- Different doubles of which one is infinite are within the limits exactly if these are unbounded. -/
theorem within_iff_of_isInf (h : x.isInf = true ∨ y.isInf = true) (hx : x.isNaN = false) (hy : y.isNaN = false)
    (hne : (x == y) = false) : t.Within x y ↔ t.Unbounded := by
  have hinf {x y : Float} (h : x.isInf = true) (hy : y.isNaN = false) (hne : (x == y) = false) :
      t.Within x y ↔ t.Unbounded := by
    unfold Within Unbounded
    rw [Decimal.abs_sub_eq_infinity h hy hne, larger_abs_of_isInf h]
    simp only [atMost_infinity_iff, Decimal.infinity_le_mul_infinity, exists_eq_right]
  rcases h with h | h
  · exact hinf h hy hne
  · rw [← hinf h hx (Decimal.beq_comm x y ▸ hne)]
    exact ⟨.symm hx hy, .symm hy hx⟩

/-- Doubles that are neither equal nor both undefined are taken for close where they are within the limits. -/
theorem within_iff_accepts (hne : ¬(x == y) = true) (hnan : ¬(x.isNaN = true ∧ y.isNaN = true)) :
    t.Within x y ↔ t.Accepts x y := by
  unfold Accepts Near Swallows
  rw [or_iff_right hne, or_iff_right hnan, Decimal.isFinite_iff_not, Decimal.isFinite_iff_not]
  by_cases hundefined : x.isNaN = true ∨ y.isNaN = true
  · have hdefined : ¬(x.isNaN = false ∧ y.isNaN = false) := fun ⟨hx, hy⟩ =>
      hundefined.elim (Bool.eq_false_iff.mp hx) (Bool.eq_false_iff.mp hy)
    refine iff_of_false (not_within_of_isNaN hundefined) ?_
    rintro (⟨⟨hx, -⟩, ⟨hy, -⟩, -⟩ | ⟨-, -, hx, hy⟩)
    · exact hdefined ⟨hx, hy⟩
    · exact hdefined ⟨hx, hy⟩
  · rw [not_or, Bool.not_eq_true, Bool.not_eq_true] at hundefined
    obtain ⟨hx, hy⟩ := hundefined
    by_cases hinf : x.isInf = true ∨ y.isInf = true
    · rw [within_iff_of_isInf hinf hx hy (Bool.eq_false_iff.mpr hne)]
      constructor
      · exact fun ht => .inr ⟨ht, hinf, hx, hy⟩
      · rintro (⟨-, -, ht⟩ | ⟨ht, -⟩)
        · exact ht
        · exact ht
    · have hfinite := hinf
      rw [not_or, Bool.not_eq_true, Bool.not_eq_true] at hfinite
      constructor
      · exact fun h => .inl ⟨⟨hx, hfinite.1⟩, ⟨hy, hfinite.2⟩, h⟩
      · rintro (⟨-, -, h⟩ | ⟨-, h, -⟩)
        · exact h
        · exact absurd h hinf

/-- **Doubles are compared as described.** -/
theorem decides_admits (ht : t.Numeric) (x y : Float) : Decides (t.admits x y) (t.Accepts x y) := by
  unfold admits
  split
  next h =>
    refine ⟨true, rfl, iff_of_true rfl (.inl ?_)⟩
    rw [Bool.or_eq_true, Bool.and_eq_true] at h
    exact h.imp id .inl
  next h =>
    rw [Bool.or_eq_true, Bool.and_eq_true, not_or] at h
    obtain ⟨b, hb, hiff⟩ := decides_withinLimits ht x y
    exact ⟨b, hb, hiff.trans (within_iff_accepts h.1 h.2)⟩

/-! ## The comparison -/

/-- A comparison that comes to an end, and finds no difference exactly if a statement holds. -/
def Finds {α : Type} (r : Except Fault (Option α)) (p : Prop) : Prop := ∃ o, r = .ok o ∧ (o = none ↔ p)

section

variable {α : Type} {r : Except Fault (Option α)} {p q : Prop}

theorem Finds.of_none (h : p) : Finds (.ok (none : Option α)) p := ⟨none, rfl, iff_of_true rfl h⟩

theorem Finds.of_some (a : α) (h : ¬p) : Finds (.ok (some a)) p := ⟨some a, rfl, iff_of_false (fun h => nomatch h) h⟩

theorem Finds.congr (h : Finds r p) (hpq : p ↔ q) : Finds r q := h.imp fun _ ho => ⟨ho.1, ho.2.trans hpq⟩

/-- The second of two comparisons goes on where the first finds no difference. -/
theorem Finds.bind {f : Option α → Except Fault (Option α)} (hr : Finds r p) (hsome : ∀ d, f (some d) = .ok (some d))
    (hnone : Finds (f none) q) : Finds (r >>= f) (p ∧ q) := by
  obtain ⟨o, rfl, ho⟩ := hr
  cases o with
  | none => exact hnone.congr (and_iff_right (ho.mp rfl)).symm
  | some d => exact ⟨some d, hsome d, iff_of_false (fun h => nomatch h) fun h => nomatch ho.mpr h.1⟩

end

open Value

variable {R : Float → Float → Prop} {a b : Value} {xs ys : List Value}

/-- Structures of different kinds are told apart. -/
theorem exists_compare_of_kind_ne (t : Tolerance) (path : String) (ha : a.Structured) (hb : b.Structured) (h : a.kind ≠ b.kind) :
    ∃ d, t.compare path a b = .ok (some d) := by
  have htext : a.same b = false → ∃ d, compareText path a b = some d := by
    intro hsame
    rw [compareText, hsame]
    exact ⟨_, rfl⟩
  cases ha <;> cases hb <;> first
    | exact absurd rfl h
    | exact ⟨_, rfl⟩
    | exact (htext (by simp [same, rational?])).imp fun _ hd => congrArg Except.ok hd

theorem finds_compareAll {t : Tolerance} (path : String) (i : Nat) (hlength : xs.length = ys.length)
    (h : ∀ x ∈ xs, ∀ path, ∀ y ∈ ys, Finds (t.compare path x y) (Matches R x y)) :
    Finds (t.compareAll path i xs ys) (List.Forall₂ (Matches R) xs ys) := by
  induction xs generalizing i ys with
  | nil =>
    obtain rfl := List.length_eq_zero_iff.mp hlength.symm
    exact .of_none .nil
  | cons x xs ih =>
    cases ys with
    | nil => cases hlength
    | cons y ys =>
      have hhead := h x List.mem_cons_self (path ++ "[" ++ toString i ++ "]") y List.mem_cons_self
      have htail := ih (i + 1) (Nat.succ.inj hlength) fun x hx path y hy =>
        h x (List.mem_cons_of_mem _ hx) path y (List.mem_cons_of_mem _ hy)
      rw [compareAll, List.forall₂_cons]
      exact hhead.bind (fun _ => rfl) htail

/-- Two sequences are compared entry by entry, if they have one length. -/
theorem finds_compare_sequence {t : Tolerance} (path : String) (ha : elements? a = some xs) (hb : elements? b = some ys)
    (h : ∀ x ∈ xs, ∀ path, ∀ y ∈ ys, Finds (t.compare path x y) (Matches R x y)) :
    Finds (if xs.length = ys.length then t.compareAll path 0 xs ys else .ok (some (path, .lengths xs.length ys.length)))
      (Matches R a b) := by
  refine Finds.congr ?_ (matches_sequence_iff ha hb).symm
  split
  next hlength => exact finds_compareAll path 0 hlength h
  next hne => exact .of_some _ fun hall => hne hall.length_eq

theorem finds_compareEntries {t : Tolerance} {es fs : List (Value × Value)} (path : String)
    (hfound : ∀ e ∈ es, (at? e.1 fs).isSome = true)
    (h : ∀ e ∈ es, ∀ path w, at? e.1 fs = some w → Finds (t.compare path e.2 w) (Matches R e.2 w)) :
    Finds (t.compareEntries path es fs) (∀ e ∈ es, ∀ w, at? e.1 fs = some w → Matches R e.2 w) := by
  induction es with
  | nil => exact .of_none fun _ he => nomatch he
  | cons e es ih =>
    obtain ⟨hfirst, hrest⟩ := List.forall_mem_cons.mp hfound
    obtain ⟨w, hw⟩ := Option.isSome_iff_exists.mp hfirst
    have hhead := h e List.mem_cons_self (path ++ "[" ++ e.1.shown ++ "]") w hw
    have htail := ih hrest fun e he => h e (List.mem_cons_of_mem _ he)
    rw [compareEntries, List.forall_mem_cons, hw]
    simp only [Option.some.injEq, forall_eq']
    exact hhead.bind (fun _ => rfl) htail

/-- Only structures of one kind need to be looked into. -/
theorem finds_of_kind (ha : a.Structured) (hb : b.Structured) {t : Tolerance} {path : String}
    (h : a.kind = b.kind → Finds (t.compare path a b) (Matches R a b)) : Finds (t.compare path a b) (Matches R a b) := by
  by_cases hkind : a.kind = b.kind
  · exact h hkind
  · obtain ⟨d, hd⟩ := exists_compare_of_kind_ne t path ha hb hkind
    rw [hd]
    exact .of_some d fun hmatch => hkind hmatch.kind_eq

theorem finds_compareText (path : String) (s s' : String) :
    Finds (.ok (compareText path (.text s) (.text s'))) (Matches R (.text s) (.text s')) := by
  unfold compareText
  rw [same]
  split
  next h =>
    obtain rfl := beq_iff_eq.mp h
    exact .of_none (.text s)
  next h =>
    refine .of_some _ fun hmatch => ?_
    cases hmatch with
    | text => exact h (beq_self_eq_true s)
    | sequence ha => cases ha

theorem finds_compareLeaves {t : Tolerance} (ht : t.Numeric) (path : String) (x y : Float) :
    Finds (t.compareLeaves path (.float x) (.float y)) (Matches t.Accepts (.float x) (.float y)) := by
  have hmatch : Matches t.Accepts (.float x) (.float y) ↔ t.Accepts x y := by
    constructor
    · intro h
      cases h with
      | float h => exact h
      | sequence ha => cases ha
    · exact .float
  obtain ⟨close, hclose, hiff⟩ := decides_admits ht x y
  show Finds (do return if ← t.admits x y then none else some _) _
  rw [hclose, hmatch, ← hiff]
  cases close with
  | false => exact .of_some _ Bool.false_ne_true
  | true => exact .of_none rfl

theorem finds_compareDict {t : Tolerance} {es fs : List (Value × Value)} (hes : Entries es) (hfs : Entries fs) (path : String)
    (h : ∀ e ∈ es, ∀ path w, at? e.1 fs = some w → Finds (t.compare path e.2 w) (Matches R e.2 w)) :
    Finds (t.compare path (.dict es) (.dict fs)) (Matches R (.dict es) (.dict fs)) := by
  show Finds (if sameKeys es fs then t.compareEntries path es fs else _) _
  split
  next hsame =>
    have hfound : ∀ e ∈ es, (at? e.1 fs).isSome = true := by
      rw [sameKeys, Bool.and_eq_true, List.all_eq_true] at hsame
      exact hsame.2
    exact (finds_compareEntries path hfound h).congr (matches_dict_iff hes hfs hsame).symm
  next hdiffer =>
    refine .of_some _ fun hmatch => hdiffer ?_
    cases hmatch with
    | sequence ha => cases ha
    | dict hkeys => exact (sameKeys_iff hes hfs).mpr hkeys

/-- **Two structures are found to be close exactly if they match,** with doubles that are taken for close. -/
theorem finds_compare {t : Tolerance} (ht : t.Numeric) (ha : a.Structured) (hb : b.Structured) (path : String) :
    Finds (t.compare path a b) (Matches t.Accepts a b) := by
  induction ha generalizing b path with
  | none =>
    refine finds_of_kind .none hb fun hkind => ?_
    cases hb <;> cases hkind
    exact .of_none .none
  | text s =>
    refine finds_of_kind (.text s) hb fun hkind => ?_
    cases hb <;> cases hkind
    exact finds_compareText path s _
  | float x =>
    refine finds_of_kind (.float x) hb fun hkind => ?_
    cases hb <;> cases hkind
    exact finds_compareLeaves ht path x _
  | list h ih =>
    refine finds_of_kind (.list h) hb fun hkind => ?_
    cases hb with
    | list hys => exact finds_compare_sequence path rfl rfl fun x hx path y hy => ih x hx (hys y hy) path
    | tuple hys => exact finds_compare_sequence path rfl rfl fun x hx path y hy => ih x hx (hys y hy) path
    | _ => cases hkind
  | tuple h ih =>
    refine finds_of_kind (.tuple h) hb fun hkind => ?_
    cases hb with
    | list hys => exact finds_compare_sequence path rfl rfl fun x hx path y hy => ih x hx (hys y hy) path
    | tuple hys => exact finds_compare_sequence path rfl rfl fun x hx path y hy => ih x hx (hys y hy) path
    | _ => cases hkind
  | dict hes h ih =>
    refine finds_of_kind (.dict hes h) hb fun hkind => ?_
    cases hb with
    | dict hfs hys =>
      refine finds_compareDict hes hfs path fun e he path w hw => ?_
      obtain ⟨f, hf, -, rfl⟩ := (at?_eq_some_iff hfs (hes.keys e he)).mp hw
      exact ih e he (hys f hf) path
    | _ => cases hkind

/-! ## The check -/

/-- A check holds, or it fails with what was found. -/
theorem check_eq {t : Tolerance} (ht : t.Numeric) (ha : a.Structured) (hb : b.Structured) (note : Option String) :
    (t.check note a b = .ok () ∨ ∃ text, t.check note a b = .error (.assertion text))
      ∧ (t.check note a b = .ok () ↔ Matches t.Accepts a b) := by
  obtain ⟨o, ho, hiff⟩ := finds_compare ht ha hb "first"
  unfold check
  rw [ho, ← hiff]
  cases o with
  | none => exact ⟨.inl rfl, iff_of_true rfl rfl⟩
  | some found => exact ⟨.inr ⟨_, rfl⟩, iff_of_false (fun h => nomatch h) (fun h => nomatch h)⟩

theorem numeric_standard : standard.Numeric where
  absolute _ h := nomatch h
  relative _ h := by
    cases h
    exact ⟨_, rfl⟩

/-- Places stand for a number. -/
theorem number_of_ofPlaces {places limit : Value} (h : ofPlaces places = .ok limit) :
    (∃ x, limit = .float x) ∨ ∃ n, limit = .int n := by
  unfold ofPlaces at h
  split at h
  next =>
    cases h
    split
    next => exact .inr ⟨_, rfl⟩
    next => exact .inl ⟨_, rfl⟩
  next =>
    cases h
    split
    next => exact .inl ⟨_, rfl⟩
    next => exact .inr ⟨_, rfl⟩
  next =>
    cases h
    exact .inl ⟨_, rfl⟩
  next => cases h

/-- The tolerance that arguments ask for is numeric if the limits among them are. -/
theorem numeric_ofArguments {places absolute relative : Option Value} {t : Tolerance}
    (h : ofArguments places absolute relative = .ok t) (hgiven : Numeric { absolute, relative }) : t.Numeric := by
  unfold ofArguments at h
  split at h
  next => cases h
  next p =>
    cases hp : ofPlaces p with
    | error e =>
      rw [hp] at h
      cases h
    | ok limit =>
      rw [hp] at h
      cases h
      exact ⟨fun a ha => Option.some.inj ha ▸ number_of_ofPlaces hp, hgiven.relative⟩
  next =>
    split at h
    next =>
      cases h
      exact numeric_standard
    next =>
      cases h
      exact ⟨fun _ ha => (nomatch ha), hgiven.relative⟩
  next =>
    cases h
    exact hgiven

/-- **The check says whether two structures match.** Doubles match where they are near each other, and unless the tolerance
is unbounded, nowhere else; with an unbounded one, an infinite double passes against any defined one, too. The check never
breaks off otherwise, passes for a structure and itself, and does not depend on the order of the two. -/
theorem check_accepts (t : Tolerance) (ht : t.Numeric) (note : Option String) (a b : Value) (ha : a.Structured)
    (hb : b.Structured) :
    (t.check note a b = .ok () ∨ ∃ text, t.check note a b = .error (.assertion text))
      ∧ (t.check note a b = .ok () ↔ Matches t.Accepts a b)
      ∧ (¬t.Unbounded → (t.check note a b = .ok () ↔ Matches t.Near a b))
      ∧ t.check note a a = .ok ()
      ∧ (t.check note a b = .ok () ↔ t.check note b a = .ok ()) := by
  obtain ⟨hends, hab⟩ := check_eq ht ha hb note
  obtain ⟨-, hba⟩ := check_eq ht hb ha note
  obtain ⟨-, haa⟩ := check_eq ht ha ha note
  have hsymm : ∀ x y, t.Accepts x y → t.Accepts y x := fun _ _ => Accepts.symm
  refine ⟨hends, hab, fun hbounded => hab.trans ?_, haa.mpr (ha.matches_self fun x => .inl (near_self t x)), ?_⟩
  · exact ⟨.mono fun x y h => h.resolve_right fun hswallows => hbounded hswallows.1, .mono fun x y => .inl⟩
  · rw [hab, hba]
    exact ⟨.symm hsymm, .symm hsymm⟩

/-- A list and a tuple under one key, each with an undefined number; a list and a shorter one. -/
theorem check_accepts_sample :
    standard.check none (.dict [(.text "x", .list [.float 1, .float Decimal.undefined])])
        (.dict [(.text "x", .tuple [.float 1, .float Decimal.undefined])]) = .ok ()
      ∧ standard.check none (.list [.float 1]) (.list []) ≠ .ok () := by
  have hentries (v : Value) : Entries [(.text "x", v)] :=
    ⟨List.forall_mem_singleton.mpr (.text "x"), List.pairwise_singleton _ _⟩
  have hfloats : ∀ v ∈ [Value.float 1, .float Decimal.undefined], v.Structured :=
    List.forall_mem_cons.mpr ⟨.float 1, List.forall_mem_singleton.mpr (.float _)⟩
  have hfirst : (Value.dict [(.text "x", .list [.float 1, .float Decimal.undefined])]).Structured :=
    .dict (hentries _) (List.forall_mem_singleton.mpr (.list hfloats))
  have hsecond : (Value.dict [(.text "x", .tuple [.float 1, .float Decimal.undefined])]).Structured :=
    .dict (hentries _) (List.forall_mem_singleton.mpr (.tuple hfloats))
  have hnumbers : Matches standard.Accepts (.list [.float 1, .float Decimal.undefined])
      (.tuple [.float 1, .float Decimal.undefined]) :=
    (matches_sequence_iff rfl rfl).mpr (List.forall₂_same.mpr fun v hv => (hfloats v hv).matches_self fun x =>
      .inl (near_self _ x))
  have hlist : (Value.list [.float 1]).Structured := .list (List.forall_mem_singleton.mpr (.float 1))
  have hempty : (Value.list []).Structured := .list fun _ h => nomatch h
  have hfound (v : Value) : at? (.text "x") [(.text "x", v)] = some v := if_pos (Key.text "x").same_self
  refine ⟨(check_accepts standard numeric_standard none _ _ hfirst hsecond).2.1.mpr ?_, fun h => ?_⟩
  · refine (matches_dict_iff (hentries _) (hentries _) ?_).mpr (List.forall_mem_singleton.mpr fun w hw => ?_)
    · rw [sameKeys, List.all_cons, hfound]
      rfl
    · obtain rfl := Option.some.inj ((hfound _).symm.trans hw)
      exact hnumbers
  · have hmatch := (check_accepts standard numeric_standard none _ _ hlist hempty).2.1.mp h
    cases (matches_sequence_iff rfl rfl).mp hmatch

/-- An infinite number passes against one, although they are not near each other. -/
theorem infinity_passes : (0 : Float) ≤ 1e-7 ∧ standard.check none (.float Decimal.infinity) (.float 1) = .ok ()
    ∧ ¬Matches standard.Near (.float Decimal.infinity) (.float 1) := by
  refine ⟨by decide +kernel, ?_, ?_⟩
  · refine (check_eq numeric_standard (.float _) (.float _) none).2.mpr (.float (.inr ⟨?_, ?_⟩))
    · exact .inr ⟨_, _, rfl, rfl, by decide +kernel⟩
    · exact ⟨.inl (by decide +kernel), by decide +kernel, by decide +kernel⟩
  · intro h
    cases h with
    | sequence ha => cases ha
    | float h =>
      rcases h with h | ⟨h, -⟩ | ⟨h, -⟩
      · exact absurd h (by decide +kernel)
      · exact absurd h (by decide +kernel)
      · exact absurd h (by decide +kernel)

end Tolerance

end RobustLP
