import RobustLP.Proofs.Algebra.Simplest
import RobustLP.Proofs.Print.Numerals

/-!
# Printed forms as rows of phrases

A normal form of doubles is printed as a row of phrases (`fullPhrases`), as long as its numbers are not so small that they are left
out (`Expr.Shown`). A term becomes a number before a name, or the name alone; a coefficient in the parameters becomes a sum in
parentheses, or a single parameter; the words of the constant come last, although their text is printed first and then spliced
into the sum (`join_constantPiece`). All kinds are printed alike: the text is that of the full form (`expr_eq`).

Phrases are the same exactly when the normal forms that they print agree (`fullPhrases_eq_iff`), given names that tell the
symbols apart (`Naming.Distinct`) and magnitudes that are told apart by their texts. A phrase ends in the name of a variable, in
that of a parameter or in a number, and this tells the terms from the constant. What stands before the end is read number by
number and name by name: a name without a number has the coefficient one, and no number is taken for a parameter.
-/

namespace RobustLP

/-! ## Numbers that are shown -/

/-- A coefficient that is finite and not too small to be printed. -/
structure Print.ShownTerm (c : Float) : Prop where
  finite : c.isFinite = true
  large : Scalar.le dropBelow (Scalar.abs c) = true

/-- A constant that is zero, or finite and not too small to be printed. -/
structure Print.ShownConstant (c : Float) : Prop where
  finite : c.isFinite = true
  large : Scalar.isZero c = true ∨ Scalar.le constantFrom (Scalar.abs c) = true

/-- A form whose numbers are printed. -/
structure Affine.Shown {S : Type} (e : Affine S Float) : Prop where
  terms : ∀ t ∈ e.terms, Print.ShownTerm t.2
  constant : Print.ShownConstant e.constant

/-- A full form whose numbers are printed. Of a coefficient that is a number only as much is asked as keeps it from being dropped,
which is less than is asked of other constants (`Full.shown_of_isNormal`). -/
structure Full.Shown (e : Full Float) : Prop where
  numbers : ∀ t ∈ e.terms, t.2.terms = [] →
    t.2.constant.isFinite = true ∧ Scalar.le (Scalar.abs t.2.constant) Print.dropBelow = false
  forms : ∀ t ∈ e.terms, t.2.terms ≠ [] → t.2.Shown
  constant : e.constant.Shown

/-- **A normal form whose numbers are printed:** coefficients are finite and not below `dropBelow`, constants, also those inside
coefficients, are zero or finite and not below `constantFrom`. -/
def Expr.Shown : Expr Float → Prop
  | linear e => e.Shown
  | uncertain e => e.Shown
  | full e => e.Shown

deriving instance DecidableEq for Affine, Full

instance (c : Float) : Decidable (Print.ShownTerm c) :=
  decidable_of_iff (c.isFinite = true ∧ Scalar.le Print.dropBelow (Scalar.abs c) = true) ⟨fun h => ⟨h.1, h.2⟩, fun h => ⟨h.1, h.2⟩⟩

instance (c : Float) : Decidable (Print.ShownConstant c) :=
  decidable_of_iff (c.isFinite = true ∧ (Scalar.isZero c = true ∨ Scalar.le Print.constantFrom (Scalar.abs c) = true))
    ⟨fun h => ⟨h.1, h.2⟩, fun h => ⟨h.1, h.2⟩⟩

instance {S : Type} (e : Affine S Float) : Decidable e.Shown :=
  decidable_of_iff ((∀ t ∈ e.terms, Print.ShownTerm t.2) ∧ Print.ShownConstant e.constant) ⟨fun h => ⟨h.1, h.2⟩, fun h => ⟨h.1, h.2⟩⟩

namespace Print

variable {c : Float}

theorem ShownTerm.ne_zero (h : ShownTerm c) : Scalar.isZero c = false := by
  obtain ⟨m, hm, hdrop⟩ := Decimal.unpack_dropBelow
  exact Bool.eq_false_iff.mpr fun hzero => Decimal.not_le_abs_of_isZero hdrop hzero (of_decide_eq_true h.large)

/-- A constant is printed unless it is zero. -/
theorem ShownConstant.constantFrom_le (h : ShownConstant c) : Scalar.le constantFrom (Scalar.abs c) = !Scalar.isZero c := by
  obtain ⟨m, hm, hfrom⟩ := Decimal.unpack_constantFrom
  cases hzero : Scalar.isZero c with
  | true => exact decide_eq_false (Decimal.not_le_abs_of_isZero hfrom hzero)
  | false => exact h.large.resolve_left (Bool.eq_false_iff.mp hzero)

/-- A constant inside a coefficient is not dropped unless it is zero. -/
theorem ShownConstant.le_dropBelow (h : ShownConstant c) : Scalar.le (Scalar.abs c) dropBelow = Scalar.isZero c := by
  obtain ⟨m, hm, hdrop⟩ := Decimal.unpack_dropBelow
  cases hzero : Scalar.isZero c with
  | true => exact decide_eq_true (Decimal.abs_le_of_isZero hdrop hzero)
  | false =>
    have hlarge := h.large.resolve_left (Bool.eq_false_iff.mp hzero)
    exact decide_eq_false (Decimal.not_le_dropBelow_of_constantFrom_le (of_decide_eq_true hlarge))

theorem ne_zero_of_not_le_dropBelow (h : Scalar.le (Scalar.abs c) dropBelow = false) : Scalar.isZero c = false := by
  obtain ⟨m, hm, hdrop⟩ := Decimal.unpack_dropBelow
  exact Bool.eq_false_iff.mpr fun hzero => of_decide_eq_false h (Decimal.abs_le_of_isZero hdrop hzero)

end Print

/-- **It suffices that all constants are zero or large enough,** also those inside coefficients: no coefficient of a normal form is
the number zero. -/
theorem Full.shown_of_isNormal {n : Full Float} (hn : n.IsNormal) (hterms : ∀ t ∈ n.terms, t.2.Shown) (hconstant : n.constant.Shown) :
    n.Shown where
  numbers t ht hempty := by
    have hne := hn.nonzero t ht
    rw [isZeroForm, hempty, List.isEmpty_nil, Bool.true_and] at hne
    exact ⟨(hterms t ht).constant.finite, (hterms t ht).constant.le_dropBelow.trans hne⟩
  forms t ht _ := hterms t ht
  constant := hconstant

namespace Print

variable {c : Float} {naming : Naming}

/-! ## Phrases -/

/-- The words of a number times a name. -/
def termWords (name : String) (c : Float) : Words :=
  if isUnit c then { first := name } else { first := Decimal.clamped c.abs, second := some name }

/-- The words of a constant; none for zero. -/
def constantWords (c : Float) : List (Bool × Words) :=
  if Scalar.isZero c then [] else [(isNegative c, { first := Decimal.clamped c.abs })]

/-- The words of a sum of numbers times names, plus a constant. -/
def linearWords (terms : List (String × Float)) (constant : Float) : List (Bool × Words) :=
  (terms.map fun t => (isNegative t.2, termWords t.1 t.2)) ++ constantWords constant

/-- The words of a form in the parameters. -/
def formWords (naming : Naming) (e : Affine Parameter Float) : List (Bool × Words) :=
  linearWords (e.terms.map fun t => (naming.ofParameter t.1, t.2)) e.constant

/-- The phrase of a form in the parameters times a name. -/
def coefficientPhrase (naming : Naming) (name : String) (e : Affine Parameter Float) : Bool × Phrase :=
  match e.terms with
  | [] => (isNegative e.constant, .words (termWords name e.constant))
  | (u, c) :: rest =>
    if rest.isEmpty && Scalar.isZero e.constant && isUnit c then
      (isNegative c, .words { first := naming.ofParameter u, second := some name })
    else (false, .group (formWords naming e) name)

/-- The words of a sum as its phrases. -/
def phrasesOf (ps : List (Bool × Words)) : List (Bool × Phrase) := ps.map fun p => (p.1, .words p.2)

/-- **The phrases of a full form.** -/
def fullPhrases (naming : Naming) (e : Full Float) : List (Bool × Phrase) :=
  (e.terms.map fun t => coefficientPhrase naming (naming.ofVariable t.1) t.2) ++ phrasesOf (formWords naming e.constant)

theorem phraseSum_phrasesOf (ps : List (Bool × Words)) : phraseSum (phrasesOf ps) = wordSum ps := by
  rw [phraseSum, phrasesOf, List.map_map]
  rfl

/-! ## Sums of numbers times names -/

theorem term_eq (name : String) (c : Float) : term name c = ⟨isNegative c, (termWords name c).text⟩ := by
  unfold term termWords
  split <;> rfl

/-- A constant alone is printed with its sign. -/
theorem wordSum_constantWords (hc : c.isFinite = true) : wordSum (constantWords c) = Decimal.clamped c := by
  rw [constantWords, Decimal.clamped_eq_sign hc]
  by_cases hzero : Scalar.isZero c = true
  · rw [if_pos hzero, Decimal.isNegative_of_isZero hc hzero, (Decimal.clamped_abs_eq_zero_iff hc).mpr hzero]
    rfl
  · rw [if_neg hzero]
    cases isNegative c <;> simp [wordSum, join, Words.text]

/-- **A sum whose numbers are shown** is printed as its words. -/
theorem linear_eq (terms : List (String × Float)) (hterms : ∀ t ∈ terms, ShownTerm t.2) (hc : ShownConstant c) :
    linear terms c true = wordSum (linearWords terms c) := by
  have hfilter : terms.filter (fun t => Scalar.le dropBelow (Scalar.abs t.2)) = terms :=
    List.filter_eq_self.mpr fun t ht => (hterms t ht).large
  have hpieces : terms.map (fun t => term t.1 t.2)
      = (terms.map fun t => (isNegative t.2, termWords t.1 t.2)).map fun p => (⟨p.1, p.2.text⟩ : Piece) := by
    rw [List.map_map]
    exact List.map_congr_left fun t _ => term_eq t.1 t.2
  unfold linear
  rw [hfilter, hpieces, linearWords, wordSum, List.map_append]
  dsimp only
  cases terms with
  | nil => exact (wordSum_constantWords hc.finite).symm
  | cons t ts =>
    rw [if_neg (by simp), Bool.true_and, hc.constantFrom_le, constantWords]
    cases Scalar.isZero c with
    | true => simp
    | false => rfl

theorem form_eq (naming : Naming) {e : Affine Parameter Float} (he : e.Shown) : form naming e true = wordSum (formWords naming e) :=
  linear_eq _ (List.forall_mem_map.mpr he.terms) he.constant

/-! ## Full forms -/

/-- The text of the pieces behind the first one. -/
def tailText (ps : List Piece) : String := String.join (ps.map fun q => (if q.negative then " - " else " + ") ++ q.text)

theorem join_append {ps : List Piece} (hps : ps ≠ []) (qs : List Piece) : join (ps ++ qs) = join ps ++ tailText qs := by
  cases ps with
  | nil => exact absurd rfl hps
  | cons p ps => rw [List.cons_append, join, join, List.map_append, String.join_append, String.append_assoc, tailText]

theorem tailText_singleton (p : Piece) : tailText [p] = (if p.negative then " - " else " + ") ++ p.text := by
  simp [tailText]

/-- A text that begins with a minus is spliced in with its sign folded into the join. -/
theorem tailText_constantPiece {negative : Bool} {text rest : String} {c : Char} {cs : List Char} (htext : text.toList = c :: cs)
    (hc : c ≠ '-') (hne : (if negative then "-" ++ text else text) ++ rest ≠ "0") :
    tailText (constantPiece ((if negative then "-" ++ text else text) ++ rest))
      = (if negative then " - " else " + ") ++ (text ++ rest) := by
  unfold constantPiece
  rw [if_neg (by simpa using hne)]
  cases negative with
  | true =>
    have hlist : ("-" ++ text ++ rest).toList = '-' :: (text ++ rest).toList := by simp
    rw [if_pos rfl, if_pos rfl, hlist]
    exact (tailText_singleton _).trans (congrArg (" - " ++ ·) String.ofList_toList)
  | false =>
    have hlist : (text ++ rest).toList = c :: (cs ++ rest.toList) := by simp [htext]
    rw [if_neg Bool.false_ne_true, if_neg Bool.false_ne_true, hlist]
    split
    next h => exact absurd (List.cons.inj h).1 hc
    next => exact tailText_singleton _

/-- **A constant that is spliced in** as the last piece goes on with the pieces it is made of. -/
theorem join_constantPiece {ps : List Piece} (hps : ps ≠ []) {qs : List (Bool × Words)} (hqs : ∀ q ∈ phrasesOf qs, q.2.Proper) :
    join (ps ++ constantPiece (wordSum qs)) = join (ps ++ qs.map fun q => ⟨q.1, q.2.text⟩) := by
  rw [join_append hps, join_append hps]
  cases qs with
  | nil => rfl
  | cons q qs =>
    obtain ⟨negative, ws⟩ := q
    have hne : wordSum ((negative, ws) :: qs) ≠ "0" := by
      intro h
      rw [← phraseSum_phrasesOf] at h
      exact absurd (phraseSum_inj hqs (List.forall_mem_nil _) h) (List.cons_ne_nil _ _)
    obtain ⟨c, cs, hc, hminus, -⟩ := Words.Sound.exists_cons (hqs _ List.mem_cons_self).sound
    have hpiece := tailText_constantPiece hc hminus hne
    have htail : tailText (((negative, ws) :: qs).map fun q => (⟨q.1, q.2.text⟩ : Piece))
        = (if negative then " - " else " + ") ++ ws.text ++ tailText (qs.map fun q => ⟨q.1, q.2.text⟩) := String.join_cons
    rw [htail, String.append_assoc]
    exact congrArg (join ps ++ ·) hpiece

/-- A coefficient that is shown is printed as its phrase. -/
theorem formTerm_eq {e : Affine Parameter Float} (hnumber : e.terms = [] → Scalar.le (Scalar.abs e.constant) dropBelow = false)
    (hform : e.terms ≠ [] → e.Shown) (name : String) :
    formTerm naming name e = some ⟨(coefficientPhrase naming name e).1, (coefficientPhrase naming name e).2.text⟩ := by
  obtain ⟨terms, constant, parts, owner⟩ := e
  match terms with
  | [] =>
    have hlarge := hnumber rfl
    unfold formTerm coefficientPhrase
    dsimp only at hlarge ⊢
    rw [if_neg (Bool.eq_false_iff.mp hlarge), term_eq]
    rfl
  | [(u, c)] =>
    have hshown := hform (List.cons_ne_nil _ _)
    have hconstant := hshown.constant.le_dropBelow
    have htext := form_eq naming hshown
    unfold formTerm coefficientPhrase
    dsimp only at hconstant ⊢
    rw [hconstant, htext, List.isEmpty_nil, Bool.true_and]
    split <;> rfl
  | (u, c) :: s :: rest =>
    have htext := form_eq naming (hform (List.cons_ne_nil _ _))
    unfold formTerm coefficientPhrase
    dsimp only
    rw [htext, List.isEmpty_cons, Bool.false_and, Bool.false_and, if_neg Bool.false_ne_true]
    rfl

/-- **A full form whose numbers are shown** is printed as its phrases. -/
theorem full_eq {e : Full Float} (he : e.Shown) (hwords : ∀ q ∈ phrasesOf (formWords naming e.constant), q.2.Proper) :
    full naming e true = phraseSum (fullPhrases naming e) := by
  have hpieces : e.terms.filterMap (fun t => formTerm naming (naming.ofVariable t.1) t.2)
      = (e.terms.map fun t => coefficientPhrase naming (naming.ofVariable t.1) t.2).map fun p => (⟨p.1, p.2.text⟩ : Piece) := by
    rw [List.map_map, ← List.filterMap_eq_map]
    exact List.filterMap_congr fun t ht => formTerm_eq (fun h => (he.numbers t ht h).2) (he.forms t ht) _
  have hconstant := form_eq naming he.constant
  have htail : (phrasesOf (formWords naming e.constant)).map (fun p => (⟨p.1, p.2.text⟩ : Piece))
      = (formWords naming e.constant).map fun q => ⟨q.1, q.2.text⟩ := by
    rw [phrasesOf, List.map_map]
    rfl
  unfold full
  rw [hpieces, hconstant, fullPhrases, phraseSum, List.map_append, htail]
  dsimp only
  by_cases hempty : e.terms = []
  · rw [hempty]
    rfl
  · have hne : (e.terms.map fun t => coefficientPhrase naming (naming.ofVariable t.1) t.2).map (fun p => (⟨p.1, p.2.text⟩ : Piece))
        ≠ [] := by simpa using hempty
    rw [if_neg (by simpa using hempty), if_pos rfl, join_constantPiece hne hwords]

/-! ## Expressions -/

/-- The phrases of a linear form are those of its words. -/
theorem fullPhrases_linear (e : Affine Variable Float) : fullPhrases naming (Expr.linear e).toFull
    = phrasesOf (linearWords (e.terms.map fun t => (naming.ofVariable t.1, t.2)) e.constant) := by
  rw [fullPhrases, linearWords, phrasesOf, phrasesOf, List.map_append, Expr.toFull, List.map_map, List.map_map, List.map_map]
  rfl

/-- **An expression is printed as the phrases of its full normal form,** whatever its kind. -/
theorem expr_eq {e n : Expr Float} (h : e.normalized = .ok n) (hn : n.Shown)
    (hwords : ∀ q ∈ phrasesOf (formWords naming n.toFull.constant), q.2.Proper) :
    expr naming true e = .ok (phraseSum (fullPhrases naming n.toFull)) := by
  obtain ⟨f, g, rfl, rfl, hg⟩ | ⟨f, g, rfl, rfl, hg⟩ | ⟨f, g, rfl, rfl, hg⟩ := Expr.normalized_cases h
  · have hlinear := linear_eq (g.terms.map fun t => (naming.ofVariable t.1, t.2)) (List.forall_mem_map.mpr hn.terms) hn.constant
    rw [fullPhrases_linear, phraseSum_phrasesOf, ← hlinear]
    exact congrArg (· >>= _) hg
  · have hform : form naming g true = phraseSum (fullPhrases naming (Expr.uncertain g).toFull) :=
      (form_eq naming hn).trans (phraseSum_phrasesOf _).symm
    rw [← hform]
    exact congrArg (· >>= _) hg
  · have hfull : full naming g true = phraseSum (fullPhrases naming (Expr.full g).toFull) := full_eq hn hwords
    rw [← hfull]
    exact congrArg (· >>= _) hg

end Print

/-! ## Names -/

/-- **Names that tell symbols apart:** those of the variables `V` and of the parameters `U`. -/
structure Naming.Distinct (naming : Naming) (V : Variable → Prop) (U : Parameter → Prop) : Prop where
  decisions : ∀ v, V v → Print.IsName (naming.ofVariable v)
  parameters : ∀ u, U u → Print.IsName (naming.ofParameter u)
  eq_of_decisions : ∀ v w, V v → V w → naming.ofVariable v = naming.ofVariable w → v = w
  eq_of_parameters : ∀ u w, U u → U w → naming.ofParameter u = naming.ofParameter w → u = w
  apart : ∀ v u, V v → U u → naming.ofVariable v ≠ naming.ofParameter u

namespace Print

/-! ## Magnitudes -/

/-- The magnitude that a coefficient is printed with; none if it is one. -/
def termMagnitudes (c : Float) : List Float := if isUnit c then [] else [c.abs]

/-- The magnitude that a constant is printed with; none for zero. -/
def constantMagnitudes (c : Float) : List Float := if Scalar.isZero c then [] else [c.abs]

/-- The magnitudes that a form is printed with. -/
def formMagnitudes {S : Type} (e : Affine S Float) : List Float :=
  e.terms.flatMap (fun t => termMagnitudes t.2) ++ constantMagnitudes e.constant

/-- The magnitudes that a coefficient in the parameters is printed with. -/
def coefficientMagnitudes (e : Affine Parameter Float) : List Float :=
  if e.terms.isEmpty then termMagnitudes e.constant else formMagnitudes e

/-- The magnitudes that a full form is printed with. -/
def fullMagnitudes (e : Full Float) : List Float :=
  e.terms.flatMap (fun t => coefficientMagnitudes t.2) ++ formMagnitudes e.constant

/-! ## What is read from a number -/

variable {M : Set Float} {c d : Float} {name name' : String}

/-- A coefficient that is read from its text, if the text tells the magnitudes `M` apart. -/
structure ReadableTerm (M : Set Float) (c : Float) : Prop where
  finite : c.isFinite = true
  ne_zero : Scalar.isZero c = false
  magnitudes : ∀ x ∈ termMagnitudes c, x ∈ M

/-- A constant that is read from its text. -/
structure ReadableConstant (M : Set Float) (c : Float) : Prop where
  finite : c.isFinite = true
  magnitudes : ∀ x ∈ constantMagnitudes c, x ∈ M

theorem ReadableTerm.abs_mem (hc : ReadableTerm M c) (hunit : ¬isUnit c = true) : c.abs ∈ M :=
  hc.magnitudes _ (by rw [termMagnitudes, if_neg hunit]; exact List.mem_singleton_self _)

theorem ReadableConstant.abs_mem (hc : ReadableConstant M c) (hzero : ¬Scalar.isZero c = true) : c.abs ∈ M :=
  hc.magnitudes _ (by rw [constantMagnitudes, if_neg hzero]; exact List.mem_singleton_self _)

/-- Coefficients that are not printed are the same but for the sign. -/
theorem beq_of_isUnit (hc : ReadableTerm M c) (hd : ReadableTerm M d) (hunit : isUnit c = true) (hunit' : isUnit d = true)
    (hsign : isNegative c = isNegative d) : (c == d) = true :=
  Decimal.beq_of_abs_eq hc.finite hd.finite hsign
    ((Decimal.abs_eq_one_of_isUnit hc.finite hunit).trans (Decimal.abs_eq_one_of_isUnit hd.finite hunit').symm)

/-- **A number times a name** is read from its words. -/
theorem termWords_eq_iff (hM : Set.InjOn Decimal.clamped M) (hc : ReadableTerm M c) (hd : ReadableTerm M d) :
    (isNegative c, termWords name c) = (isNegative d, termWords name' d) ↔ name = name' ∧ (c == d) = true := by
  constructor
  · intro h
    obtain ⟨hsign, hwords⟩ := Prod.mk.inj h
    unfold termWords at hwords
    by_cases hunit : isUnit c = true
    · by_cases hunit' : isUnit d = true
      · rw [if_pos hunit, if_pos hunit'] at hwords
        exact ⟨(Words.mk.inj hwords).1, beq_of_isUnit hc hd hunit hunit' hsign⟩
      · rw [if_pos hunit, if_neg hunit'] at hwords
        cases (Words.mk.inj hwords).2
    · by_cases hunit' : isUnit d = true
      · rw [if_neg hunit, if_pos hunit'] at hwords
        cases (Words.mk.inj hwords).2
      · rw [if_neg hunit, if_neg hunit'] at hwords
        obtain ⟨htext, hname⟩ := Words.mk.inj hwords
        have habs := hM (hc.abs_mem hunit) (hd.abs_mem hunit') htext
        exact ⟨Option.some.inj hname, Decimal.beq_of_abs_eq hc.finite hd.finite hsign habs⟩
  · rintro ⟨rfl, heq⟩
    rw [Decimal.eq_of_beq_of_ne hc.finite hc.ne_zero heq]

/-- **A constant** is read from its words. -/
theorem constantWords_eq_iff (hM : Set.InjOn Decimal.clamped M) (hc : ReadableConstant M c) (hd : ReadableConstant M d) :
    constantWords c = constantWords d ↔ (c == d) = true := by
  constructor
  · intro h
    unfold constantWords at h
    by_cases hzero : Scalar.isZero c = true
    · by_cases hzero' : Scalar.isZero d = true
      · exact Decimal.beq_of_isZero hzero hzero'
      · rw [if_pos hzero, if_neg hzero'] at h
        cases h
    · by_cases hzero' : Scalar.isZero d = true
      · rw [if_neg hzero, if_pos hzero'] at h
        cases h
      · rw [if_neg hzero, if_neg hzero'] at h
        obtain ⟨hsign, hwords⟩ := Prod.mk.inj (List.cons.inj h).1
        have habs := hM (hc.abs_mem hzero) (hd.abs_mem hzero') (Words.mk.inj hwords).1
        exact Decimal.beq_of_abs_eq hc.finite hd.finite hsign habs
  · intro heq
    have hzero := Decimal.isZero_eq_of_beq heq
    unfold constantWords
    cases hc' : Scalar.isZero c with
    | true => rw [← hzero, hc', if_pos rfl, if_pos rfl]
    | false => rw [Decimal.eq_of_beq_of_ne hc.finite hc' heq, ← hzero, hc']

/-! ## What is read from a form -/

/-- Lists look the same when they agree entry by entry. -/
theorem map_eq_map_iff_allAgree {α β γ : Type} {f : α → γ} {g : β → γ} {agree : α → β → Bool} : ∀ {as : List α} {bs : List β},
    (∀ a ∈ as, ∀ b ∈ bs, f a = g b ↔ agree a b = true) → (as.map f = bs.map g ↔ allAgree agree as bs = true)
  | [], [], _ => iff_of_true rfl rfl
  | [], _ :: _, _ => iff_of_false (List.cons_ne_nil _ _).symm Bool.false_ne_true
  | _ :: _, [], _ => iff_of_false (List.cons_ne_nil _ _) Bool.false_ne_true
  | a :: as, b :: bs, h => by
    have ih := map_eq_map_iff_allAgree fun a' ha b' hb => h a' (List.mem_cons_of_mem a ha) b' (List.mem_cons_of_mem b hb)
    rw [List.map_cons, List.map_cons, List.cons.injEq, h a List.mem_cons_self b List.mem_cons_self, ih, allAgree, Bool.and_eq_true]

/-- The last word. -/
def Words.last (ws : Words) : String := ws.second.getD ws.first

theorem last_termWords (name : String) (c : Float) : (termWords name c).last = name := by
  unfold termWords
  split <;> rfl

theorem last_constantWords (hc : c.isFinite = true) {p : Bool × Words} (hp : p ∈ constantWords c) : IsNumeral p.2.last := by
  unfold constantWords at hp
  split at hp
  · cases hp
  · rw [List.mem_singleton.mp hp]
    exact Decimal.isNumeral_clamped_abs hc

variable {naming : Naming} {V : Variable → Prop} {U : Parameter → Prop} {e f : Affine Parameter Float}

/-- A form in the parameters `U` that is read from its text. -/
structure ReadableForm (U : Parameter → Prop) (M : Set Float) (e : Affine Parameter Float) : Prop where
  symbols : ∀ t ∈ e.terms, U t.1
  terms : ∀ t ∈ e.terms, ReadableTerm M t.2
  constant : ReadableConstant M e.constant

/-- **A form in the parameters** is read from its words. -/
theorem formWords_eq_iff (hnames : naming.Distinct V U) (hM : Set.InjOn Decimal.clamped M) (he : ReadableForm U M e)
    (hf : ReadableForm U M f) : formWords naming e = formWords naming f ↔ e.agrees f = true := by
  -- terms end in names, the constant is a number
  have hterms : ∀ {e : Affine Parameter Float}, ReadableForm U M e →
      ∀ p ∈ (e.terms.map fun t => (naming.ofParameter t.1, t.2)).map (fun t => (isNegative t.2, termWords t.1 t.2)),
        IsName p.2.last := by
    intro e he
    refine List.forall_mem_map.mpr (List.forall_mem_map.mpr fun t ht => ?_)
    rw [last_termWords]
    exact hnames.parameters _ (he.symbols t ht)
  have hconstant : ∀ {e : Affine Parameter Float}, ReadableForm U M e → ∀ p ∈ (constantWords e.constant).head?, ¬IsName p.2.last :=
    fun he p hp hname => (last_constantWords he.constant.finite (List.mem_of_mem_head? hp)).ne_name hname rfl
  have hsplit : formWords naming e = formWords naming f
      ↔ (e.terms.map fun t => (naming.ofParameter t.1, t.2)).map (fun t => (isNegative t.2, termWords t.1 t.2))
          = (f.terms.map fun t => (naming.ofParameter t.1, t.2)).map (fun t => (isNegative t.2, termWords t.1 t.2))
        ∧ constantWords e.constant = constantWords f.constant :=
    ⟨append_inj_of_forall (hterms he) (hterms hf) (hconstant he) (hconstant hf), fun ⟨h, h'⟩ => congrArg₂ (· ++ ·) h h'⟩
  rw [hsplit, List.map_map, List.map_map, constantWords_eq_iff hM he.constant hf.constant, Affine.agrees, Bool.and_eq_true,
    and_comm]
  refine and_congr_right fun _ => map_eq_map_iff_allAgree fun s hs t ht => ?_
  refine (termWords_eq_iff hM (he.terms s hs) (hf.terms t ht)).trans ?_
  rw [Bool.and_eq_true]
  refine and_congr_left fun _ => Iff.trans ⟨fun h => ?_, congrArg naming.ofParameter⟩ beq_iff_eq.symm
  exact hnames.eq_of_parameters _ _ (he.symbols s hs) (hf.symbols t ht) h

/-- A coefficient that is read from its text: a number, or a form. -/
def ReadableCoefficient (U : Parameter → Prop) (M : Set Float) (e : Affine Parameter Float) : Prop :=
  if e.terms = [] then ReadableTerm M e.constant else ReadableForm U M e

theorem coefficientPhrase_of_nil (h : e.terms = []) :
    coefficientPhrase naming name e = (isNegative e.constant, .words (termWords name e.constant)) := by
  unfold coefficientPhrase
  rw [h]

/-- A coefficient with parameters is printed as one of them before the name, or in parentheses. -/
theorem coefficientPhrase_of_ne_nil (naming : Naming) (name : String) (h : e.terms ≠ []) :
    (∃ u c, e.terms = [(u, c)] ∧ Scalar.isZero e.constant = true ∧ isUnit c = true
        ∧ coefficientPhrase naming name e = (isNegative c, .words { first := naming.ofParameter u, second := some name }))
      ∨ coefficientPhrase naming name e = (false, .group (formWords naming e) name) := by
  obtain ⟨⟨u, c⟩, rest, hterms⟩ := List.exists_cons_of_ne_nil h
  unfold coefficientPhrase
  rw [hterms]
  dsimp only
  split
  next hplain =>
    rw [Bool.and_eq_true, Bool.and_eq_true, List.isEmpty_iff] at hplain
    obtain ⟨⟨rfl, hzero⟩, hunit⟩ := hplain
    exact .inl ⟨u, c, rfl, hzero, hunit, rfl⟩
  next => exact .inr rfl

/-- Terms with readable coefficients agree only with themselves. -/
theorem terms_eq_of_agrees (he : ∀ t ∈ e.terms, ReadableTerm M t.2) (h : e.agrees f = true) : e.terms = f.terms := by
  have hagree := allAgree_iff.mp (Bool.and_eq_true_iff.mp h).2
  generalize e.terms = ts at he hagree
  generalize f.terms = us at hagree
  induction hagree with
  | nil => rfl
  | @cons s t ss ts hst _ ih =>
    rw [List.forall_mem_cons] at he
    obtain ⟨hsymbol, hcoef⟩ := Bool.and_eq_true_iff.mp hst
    have hterm : s = t := Prod.ext (beq_iff_eq.mp hsymbol) (Decimal.eq_of_beq_of_ne he.1.finite he.1.ne_zero hcoef)
    rw [hterm, ih he.2]

theorem coefficientPhrase_congr (hnames : naming.Distinct V U) (hM : Set.InjOn Decimal.clamped M) (he : ReadableCoefficient U M e)
    (hf : ReadableCoefficient U M f) (h : e.agrees f = true) : coefficientPhrase naming name e = coefficientPhrase naming name f := by
  have hconstant : (e.constant == f.constant) = true := (Bool.and_eq_true_iff.mp h).1
  by_cases hempty : e.terms = []
  · have hempty' : f.terms = [] := by
      rw [← List.isEmpty_iff, ← Affine.isEmpty_eq_of_agrees h, List.isEmpty_iff, hempty]
    rw [ReadableCoefficient, if_pos hempty] at he
    rw [coefficientPhrase_of_nil hempty, coefficientPhrase_of_nil hempty', Decimal.eq_of_beq_of_ne he.finite he.ne_zero hconstant]
  · rw [ReadableCoefficient, if_neg hempty] at he
    have hterms := terms_eq_of_agrees he.terms h
    rw [ReadableCoefficient, if_neg (hterms ▸ hempty)] at hf
    have hwords := (formWords_eq_iff hnames hM he hf).mpr h
    unfold coefficientPhrase
    rw [hterms, hwords, Decimal.isZero_eq_of_beq hconstant]
    cases hcons : f.terms with
    | nil => exact absurd (hterms.trans hcons) hempty
    | cons t ts => rfl

/-- No number is taken for a parameter. -/
theorem coefficientPhrase_ne (hnames : naming.Distinct V U) (hempty : e.terms = []) (hne : f.terms ≠ [])
    (he : ReadableCoefficient U M e) (hf : ReadableCoefficient U M f) :
    coefficientPhrase naming name e ≠ coefficientPhrase naming name' f := by
  intro h
  rw [ReadableCoefficient, if_pos hempty] at he
  rw [ReadableCoefficient, if_neg hne] at hf
  rw [coefficientPhrase_of_nil hempty] at h
  obtain ⟨u, c, hterms, -, -, hphrase⟩ | hphrase := coefficientPhrase_of_ne_nil naming name' hne <;>
    rw [hphrase] at h
  · have hwords := Phrase.words.inj (Prod.mk.inj h).2
    have hname := hnames.parameters u (hf.symbols (u, c) (by rw [hterms]; exact List.mem_singleton_self _))
    unfold termWords at hwords
    split at hwords
    · cases (Words.mk.inj hwords).2
    · exact (Decimal.isNumeral_clamped_abs he.finite).ne_name hname (Words.mk.inj hwords).1
  · cases (Prod.mk.inj h).2

/-- A single parameter is read from its name. -/
theorem agrees_of_single {u u' : Parameter} (hnames : naming.Distinct V U) (he : ReadableForm U M e) (hf : ReadableForm U M f)
    (hterms : e.terms = [(u, c)]) (hterms' : f.terms = [(u', d)]) (hzero : Scalar.isZero e.constant = true)
    (hzero' : Scalar.isZero f.constant = true) (hunit : isUnit c = true) (hunit' : isUnit d = true)
    (hsign : isNegative c = isNegative d) (hname : naming.ofParameter u = naming.ofParameter u') : e.agrees f = true := by
  have hu : (u, c) ∈ e.terms := by rw [hterms]; exact List.mem_singleton_self _
  have hu' : (u', d) ∈ f.terms := by rw [hterms']; exact List.mem_singleton_self _
  have hsymbol := hnames.eq_of_parameters u u' (he.symbols _ hu) (hf.symbols _ hu') hname
  have hcoef := beq_of_isUnit (he.terms _ hu) (hf.terms _ hu') hunit hunit' hsign
  refine Bool.and_eq_true_iff.mpr ⟨Decimal.beq_of_isZero hzero hzero', ?_⟩
  rw [hterms, hterms', allAgree, allAgree, Bool.and_true]
  exact Bool.and_eq_true_iff.mpr ⟨beq_iff_eq.mpr hsymbol, hcoef⟩

/-- **A coefficient before a name** is read from its phrase. -/
theorem coefficientPhrase_eq_iff (hnames : naming.Distinct V U) (hM : Set.InjOn Decimal.clamped M)
    (he : ReadableCoefficient U M e) (hf : ReadableCoefficient U M f) :
    coefficientPhrase naming name e = coefficientPhrase naming name' f ↔ name = name' ∧ e.agrees f = true := by
  refine ⟨fun h => ?_, fun ⟨hname, h⟩ => hname ▸ coefficientPhrase_congr hnames hM he hf h⟩
  by_cases hempty : e.terms = []
  · by_cases hempty' : f.terms = []
    · rw [coefficientPhrase_of_nil hempty, coefficientPhrase_of_nil hempty'] at h
      rw [ReadableCoefficient, if_pos hempty] at he
      rw [ReadableCoefficient, if_pos hempty'] at hf
      obtain ⟨hsign, hphrase⟩ := Prod.mk.inj h
      have hagrees : e.agrees f = (e.constant == f.constant) := Full.coefAgrees_of_nil hempty hempty'
      rw [hagrees]
      exact (termWords_eq_iff hM he hf).mp (Prod.ext hsign (Phrase.words.inj hphrase))
    · exact absurd h (coefficientPhrase_ne hnames hempty hempty' he hf)
  · by_cases hempty' : f.terms = []
    · exact absurd h.symm (coefficientPhrase_ne hnames hempty' hempty hf he)
    · rw [ReadableCoefficient, if_neg hempty] at he
      rw [ReadableCoefficient, if_neg hempty'] at hf
      obtain ⟨u, c, hterms, hzero, hunit, hphrase⟩ | hphrase :=
          coefficientPhrase_of_ne_nil naming name hempty <;>
        obtain ⟨u', d, hterms', hzero', hunit', hphrase'⟩ | hphrase' :=
          coefficientPhrase_of_ne_nil naming name' hempty' <;> rw [hphrase, hphrase'] at h
      · obtain ⟨hsign, hwords⟩ := Prod.mk.inj h
        obtain ⟨hfirst, hsecond⟩ := Words.mk.inj (Phrase.words.inj hwords)
        exact ⟨Option.some.inj hsecond, agrees_of_single hnames he hf hterms hterms' hzero hzero' hunit hunit' hsign hfirst⟩
      · cases (Prod.mk.inj h).2
      · cases (Prod.mk.inj h).2
      · obtain ⟨hwords, hname⟩ := Phrase.group.inj (Prod.mk.inj h).2
        exact ⟨hname, (formWords_eq_iff hnames hM he hf).mp hwords⟩

/-! ## What is read from a full form -/

/-- The word that a phrase ends in. -/
def Phrase.last : Phrase → String
  | words ws => ws.last
  | group _ name => name

theorem last_coefficientPhrase (naming : Naming) (name : String) (e : Affine Parameter Float) :
    (coefficientPhrase naming name e).2.last = name := by
  by_cases hempty : e.terms = []
  · rw [coefficientPhrase_of_nil hempty]
    exact last_termWords name _
  · obtain ⟨u, c, -, -, -, hphrase⟩ | hphrase := coefficientPhrase_of_ne_nil naming name hempty <;>
      rw [hphrase] <;> rfl

/-- The words of a form end in parameters and numbers. -/
theorem last_formWords (he : ReadableForm U M e) {p : Bool × Words} (hp : p ∈ formWords naming e) :
    (∃ u, U u ∧ p.2.last = naming.ofParameter u) ∨ IsNumeral p.2.last := by
  rcases List.mem_append.mp hp with hp | hp
  · rw [List.map_map] at hp
    obtain ⟨t, ht, rfl⟩ := List.mem_map.mp hp
    exact .inl ⟨t.1, he.symbols t ht, last_termWords _ _⟩
  · exact .inr (last_constantWords he.constant.finite hp)

/-- A full form in the variables `V` and the parameters `U` that is read from its text. -/
structure ReadableFull (V : Variable → Prop) (U : Parameter → Prop) (M : Set Float) (n : Full Float) : Prop where
  symbols : ∀ t ∈ n.terms, V t.1
  coefficients : ∀ t ∈ n.terms, ReadableCoefficient U M t.2
  constant : ReadableForm U M n.constant

theorem phrasesOf_inj {ps qs : List (Bool × Words)} : phrasesOf ps = phrasesOf qs ↔ ps = qs := by
  refine List.map_inj_right fun p q h => ?_
  obtain ⟨hsign, hwords⟩ := Prod.mk.inj h
  exact Prod.ext hsign (Phrase.words.inj hwords)

/-- **A full form** is read from its phrases. -/
theorem fullPhrases_eq_iff {a b : Full Float} (hnames : naming.Distinct V U) (hM : Set.InjOn Decimal.clamped M)
    (ha : ReadableFull V U M a) (hb : ReadableFull V U M b) : fullPhrases naming a = fullPhrases naming b ↔ a.agrees b = true := by
  -- terms end in variables, the constant does not
  have hterms : ∀ {n : Full Float}, ReadableFull V U M n →
      ∀ p ∈ n.terms.map (fun t => coefficientPhrase naming (naming.ofVariable t.1) t.2),
        ∃ v, V v ∧ p.2.last = naming.ofVariable v := by
    intro n hn
    exact List.forall_mem_map.mpr fun t ht => ⟨t.1, hn.symbols t ht, last_coefficientPhrase naming _ _⟩
  have hconstant : ∀ {n : Full Float}, ReadableFull V U M n →
      ∀ p ∈ (phrasesOf (formWords naming n.constant)).head?, ¬∃ v, V v ∧ p.2.last = naming.ofVariable v := by
    rintro n hn p hp ⟨v, hv, hlast⟩
    obtain ⟨q, hq, rfl⟩ := List.mem_map.mp (List.mem_of_mem_head? hp)
    have hlast : q.2.last = naming.ofVariable v := hlast
    obtain ⟨u, hu, hlast'⟩ | hnumeral := last_formWords hn.constant hq
    · exact hnames.apart v u hv hu (hlast.symm.trans hlast')
    · exact hnumeral.ne_name (hnames.decisions v hv) hlast
  have hsplit : fullPhrases naming a = fullPhrases naming b
      ↔ a.terms.map (fun t => coefficientPhrase naming (naming.ofVariable t.1) t.2)
          = b.terms.map (fun t => coefficientPhrase naming (naming.ofVariable t.1) t.2)
        ∧ phrasesOf (formWords naming a.constant) = phrasesOf (formWords naming b.constant) :=
    ⟨append_inj_of_forall (hterms ha) (hterms hb) (hconstant ha) (hconstant hb), fun ⟨h, h'⟩ => congrArg₂ (· ++ ·) h h'⟩
  rw [hsplit, phrasesOf_inj, formWords_eq_iff hnames hM ha.constant hb.constant, Full.agrees, Bool.and_eq_true, and_comm]
  refine and_congr_right fun _ => map_eq_map_iff_allAgree fun s hs t ht => ?_
  rw [coefficientPhrase_eq_iff hnames hM (ha.coefficients s hs) (hb.coefficients t ht), Bool.and_eq_true, beq_iff_eq]
  refine and_congr_left fun _ => ⟨fun h => ?_, congrArg naming.ofVariable⟩
  exact hnames.eq_of_decisions _ _ (ha.symbols s hs) (hb.symbols t ht) h

end Print

end RobustLP
