import RobustLP.Proofs.Model.Sound
import RobustLP.Proofs.Print.Forms

/-!
# Printing is faithful

Two expressions over a model have the same text exactly when they are structurally equal (`Print.expr_faithful`). This rests on
names that tell the symbols of the model apart, on numbers that are not so small that they are left out, and on numbers that are
told apart by their texts.

A text is read as phrases in one way (`Print.phraseSum_inj`), the phrases are those of normal forms that agree
(`Print.fullPhrases_eq_iff`), and normal forms agree when the expressions are structurally equal (`Expr.equal_eq_agrees`). The kind
of an expression is not printed, and it is not compared, either.
-/

namespace RobustLP

/-! ## Symbols of normal forms -/

section

variable {K B : Type} [Scalar K B]

/-- The parameters in the coefficients of a normal form are those of the coefficients that are brought together. -/
theorem Full.exists_parameter_of_mem_normalized {e n : Full K} (h : e.normalized = .ok n) {t : Variable × Affine Parameter K}
    (ht : t ∈ n.terms) {s : Parameter × K} (hs : s ∈ t.2.terms) : ∃ r ∈ e.terms, ∃ c, (s.1, c) ∈ r.2.terms := by
  obtain ⟨sums, hsums, h⟩ := bind_eq_ok.mp h
  obtain ⟨constant, -, h⟩ := bind_eq_ok.mp h
  cases h
  obtain ⟨p, hp, hpt⟩ := exists_left_of_forall₂ (mapM_eq_ok_iff.mp hsums) (List.mem_filter.mp ht).1
  obtain ⟨f, hf, hpt⟩ := bind_eq_ok.mp hpt
  cases hpt
  obtain ⟨c, hc⟩ := Affine.exists_mem_of_mem_normalized hf hs
  obtain ⟨g, hg, hc⟩ := List.mem_flatMap.mp hc
  obtain ⟨v, hv⟩ := exists_mem_of_mem_gathered Variable.index hg hp
  exact ⟨(v, g), hv, c, hc⟩

theorem Full.normalized_constant {e n : Full K} (h : e.normalized = .ok n) : e.constant.normalized = .ok n.constant := by
  obtain ⟨sums, -, h⟩ := bind_eq_ok.mp h
  obtain ⟨constant, hconstant, h⟩ := bind_eq_ok.mp h
  cases h
  exact hconstant

namespace Model

variable {i : ModelId} {m : Model K B} {e n : Expr K}

/-- **A normal form is over the tables** that the expression is over. -/
theorem Owns.normalized (he : m.Owns i e) (h : e.normalized = .ok n) : m.Owns i n := by
  obtain ⟨f, g, rfl, rfl, hg⟩ | ⟨f, g, rfl, rfl, hg⟩ | ⟨f, g, rfl, rfl, hg⟩ := Expr.normalized_cases h
  · refine ⟨List.forall_mem_map.mpr fun t ht => ?_, List.forall_mem_nil _⟩
    obtain ⟨c, hc⟩ := Affine.exists_mem_of_mem_normalized hg ht
    exact he.decisions t.1 (List.mem_map.mpr ⟨_, hc, rfl⟩)
  · refine ⟨List.forall_mem_nil _, List.forall_mem_map.mpr fun t ht => ?_⟩
    obtain ⟨c, hc⟩ := Affine.exists_mem_of_mem_normalized hg ht
    exact he.parameters t.1 (List.mem_map.mpr ⟨_, hc, rfl⟩)
  · have hforms := List.forall_mem_flatMap.mp he.parameters
    refine ⟨List.forall_mem_map.mpr fun t ht => ?_, List.forall_mem_flatMap.mpr fun k hk => List.forall_mem_map.mpr fun s hs => ?_⟩
    · obtain ⟨k, hk⟩ := Full.exists_mem_of_mem_normalized hg ht
      exact he.decisions t.1 (List.mem_map.mpr ⟨_, hk, rfl⟩)
    · rcases List.mem_cons.mp hk with rfl | hk
      · obtain ⟨c, hc⟩ := Affine.exists_mem_of_mem_normalized (Full.normalized_constant hg) hs
        exact hforms _ List.mem_cons_self s.1 (List.mem_map.mpr ⟨_, hc, rfl⟩)
      · obtain ⟨t, ht, rfl⟩ := List.mem_map.mp hk
        obtain ⟨r, hr, c, hc⟩ := Full.exists_parameter_of_mem_normalized hg ht hs
        exact hforms r.2 (List.mem_cons_of_mem _ (List.mem_map_of_mem hr)) s.1 (List.mem_map.mpr ⟨_, hc, rfl⟩)

/-! ## Names -/

/-- The names of the variables and of the parameters. -/
def symbolNames [Bound B] (m : Model K B) : List String :=
  (List.range m.decisions.length).map m.variableName ++ (List.range m.parameters.length).map m.parameterName

variable [Bound B] {catalog : Catalog K B}

omit [Scalar K B] in
/-- **The names in use tell the symbols of a model apart,** if they are distinct. -/
theorem distinct_naming (hm : catalog[i]? = some m) (hwords : ∀ w ∈ m.symbolNames, Print.IsName w) (hnodup : m.symbolNames.Nodup) :
    catalog.naming.Distinct (fun v => v.model = i ∧ v.index < m.decisions.length)
      (fun u => u.model = i ∧ u.index < m.parameters.length) := by
  have hvariable : ∀ v : Variable, v.model = i → catalog.naming.ofVariable v = m.variableName v.index := by
    rintro v rfl
    unfold Catalog.naming
    dsimp only
    rw [hm]
  have hparameter : ∀ u : Parameter, u.model = i → catalog.naming.ofParameter u = m.parameterName u.index := by
    rintro u rfl
    unfold Catalog.naming
    dsimp only
    rw [hm]
  obtain ⟨hdecisions, hparameters, hdisjoint⟩ := List.nodup_append.mp hnodup
  obtain ⟨hwords, hwords'⟩ := List.forall_mem_append.mp hwords
  refine ⟨?_, ?_, ?_, ?_, ?_⟩
  · rintro v ⟨hv, hlt⟩
    rw [hvariable v hv]
    exact List.forall_mem_map.mp hwords _ (List.mem_range.mpr hlt)
  · rintro u ⟨hu, hlt⟩
    rw [hparameter u hu]
    exact List.forall_mem_map.mp hwords' _ (List.mem_range.mpr hlt)
  · rintro v w ⟨hv, hlt⟩ ⟨hw, hlt'⟩ h
    rw [hvariable v hv, hvariable w hw] at h
    have hindex := List.inj_on_of_nodup_map hdecisions (List.mem_range.mpr hlt) (List.mem_range.mpr hlt') h
    exact LawfulSymbol.eq_of_index (hv.trans hw.symm) hindex
  · rintro u w ⟨hu, hlt⟩ ⟨hw, hlt'⟩ h
    rw [hparameter u hu, hparameter w hw] at h
    have hindex := List.inj_on_of_nodup_map hparameters (List.mem_range.mpr hlt) (List.mem_range.mpr hlt') h
    exact LawfulSymbol.eq_of_index (hu.trans hw.symm) hindex
  · rintro v u ⟨hv, hlt⟩ ⟨hu, hlt'⟩
    rw [hvariable v hv, hparameter u hu]
    exact hdisjoint _ (List.mem_map_of_mem (List.mem_range.mpr hlt)) _ (List.mem_map_of_mem (List.mem_range.mpr hlt'))

end Model

end

namespace Print

variable {naming : Naming} {V : Variable → Prop} {U : Parameter → Prop} {M : Set Float} {c : Float} {name : String}

/-! ## Phrases are made of words -/

theorem proper_of_isName (h : IsName name) : (Phrase.words { first := name }).Proper where
  sound := ⟨h.toIsWord, nofun⟩
  ne_zero heq := by
    have hname : name = "0" := (Words.mk.inj (Phrase.words.inj heq)).1
    exact Bool.false_ne_true ((h.letter '0' (by rw [hname]; rfl)).symm.trans (by decide))

/-- Two words are not a mere zero. -/
theorem proper_pair {first second : String} (h : IsWord first) (h' : IsWord second) :
    (Phrase.words { first, second := some second }).Proper where
  sound := ⟨h, fun _ hw => Option.some.inj hw ▸ h'⟩
  ne_zero heq := Option.some_ne_none _ (Words.mk.inj (Phrase.words.inj heq)).2

theorem proper_termWords (hname : IsName name) (hc : c.isFinite = true) : (Phrase.words (termWords name c)).Proper := by
  unfold termWords
  split
  · exact proper_of_isName hname
  · exact proper_pair (Decimal.isNumeral_clamped_abs hc).toIsWord hname.toIsWord

theorem proper_constantWords (hc : c.isFinite = true) : ∀ p ∈ constantWords c, (Phrase.words p.2).Proper := by
  intro p hp
  unfold constantWords at hp
  split at hp
  next => cases hp
  next hzero =>
    rw [List.mem_singleton.mp hp]
    refine ⟨⟨(Decimal.isNumeral_clamped_abs hc).toIsWord, nofun⟩, fun heq => hzero ?_⟩
    exact (Decimal.clamped_abs_eq_zero_iff hc).mp (Words.mk.inj (Phrase.words.inj heq)).1

variable {e : Affine Parameter Float}

theorem proper_formWords (hnames : naming.Distinct V U) (he : ReadableForm U M e) :
    ∀ p ∈ formWords naming e, (Phrase.words p.2).Proper := by
  refine List.forall_mem_append.mpr ⟨List.forall_mem_map.mpr (List.forall_mem_map.mpr fun t ht => ?_),
    proper_constantWords he.constant.finite⟩
  exact proper_termWords (hnames.parameters _ (he.symbols t ht)) (he.terms t ht).finite

theorem proper_coefficientPhrase (hnames : naming.Distinct V U) (hname : IsName name) (he : ReadableCoefficient U M e) :
    (coefficientPhrase naming name e).2.Proper := by
  by_cases hempty : e.terms = []
  · rw [ReadableCoefficient, if_pos hempty] at he
    rw [coefficientPhrase_of_nil hempty]
    exact proper_termWords hname he.finite
  · rw [ReadableCoefficient, if_neg hempty] at he
    obtain ⟨u, c, hterms, -, -, hphrase⟩ | hphrase := coefficientPhrase_of_ne_nil naming name hempty
    · have hu : U u := he.symbols (u, c) (by rw [hterms]; exact List.mem_singleton_self _)
      rw [hphrase]
      exact proper_pair (hnames.parameters u hu).toIsWord hname.toIsWord
    · rw [hphrase]
      refine ⟨⟨⟨?_, fun p hp => (proper_formWords hnames he p hp).sound⟩, hname.toIsWord⟩, Phrase.group_ne_zero _ _⟩
      rw [formWords, linearWords]
      simpa using fun h => absurd h hempty

/-- **The phrases of a readable form** are read in one way. -/
theorem proper_fullPhrases {n : Full Float} (hnames : naming.Distinct V U) (hn : ReadableFull V U M n) :
    ∀ p ∈ fullPhrases naming n, p.2.Proper := by
  refine List.forall_mem_append.mpr ⟨List.forall_mem_map.mpr fun t ht => ?_,
    List.forall_mem_map.mpr (proper_formWords hnames hn.constant)⟩
  exact proper_coefficientPhrase hnames (hnames.decisions _ (hn.symbols t ht)) (hn.coefficients t ht)

/-! ## What is shown is read -/

theorem readableForm_of_shown (he : e.Shown) (hsymbols : ∀ t ∈ e.terms, U t.1) (hM : ∀ x ∈ formMagnitudes e, x ∈ M) :
    ReadableForm U M e where
  symbols := hsymbols
  terms t ht :=
    { finite := (he.terms t ht).finite
      ne_zero := (he.terms t ht).ne_zero
      magnitudes := fun x hx => hM x (List.mem_append_left _ (List.mem_flatMap.mpr ⟨t, ht, hx⟩)) }
  constant := ⟨he.constant.finite, fun x hx => hM x (List.mem_append_right _ hx)⟩

/-- **A normal form whose numbers are shown** is read from its text. -/
theorem readableFull_of_shown {n : Expr Float} (hn : n.Shown) (hdecisions : ∀ v ∈ n.allVariables, V v)
    (hparameters : ∀ u ∈ n.allParameters, U u) (hM : ∀ x ∈ fullMagnitudes n.toFull, x ∈ M) : ReadableFull V U M n.toFull := by
  obtain ⟨hcoefs, hconstant⟩ := List.forall_mem_append.mp hM
  have hcoefs : ∀ t ∈ n.toFull.terms, ∀ x ∈ coefficientMagnitudes t.2, x ∈ M := List.forall_mem_flatMap.mp hcoefs
  cases n with
  | linear n =>
    have hn : n.Shown := hn
    refine ⟨List.forall_mem_map.mpr (List.forall_mem_map.mp hdecisions), List.forall_mem_map.mpr fun t ht => ?_, ?_⟩
    · have hshown := hn.terms t ht
      exact (if_pos rfl).mpr ⟨hshown.finite, hshown.ne_zero, List.forall_mem_map.mp hcoefs t ht⟩
    · exact readableForm_of_shown ⟨List.forall_mem_nil _, hn.constant⟩ (List.forall_mem_nil _) hconstant
  | uncertain n =>
    exact ⟨List.forall_mem_nil _, List.forall_mem_nil _,
      readableForm_of_shown hn (List.forall_mem_map.mp hparameters) hconstant⟩
  | full n =>
    have hn : n.Shown := hn
    have hforms := List.forall_mem_flatMap.mp hparameters
    refine ⟨List.forall_mem_map.mp hdecisions, fun t ht => ?_,
      readableForm_of_shown hn.constant (List.forall_mem_map.mp (hforms _ List.mem_cons_self)) hconstant⟩
    have hmagnitudes := hcoefs t ht
    unfold coefficientMagnitudes at hmagnitudes
    by_cases hempty : t.2.terms = []
    · obtain ⟨hfinite, hlarge⟩ := hn.numbers t ht hempty
      rw [if_pos (List.isEmpty_iff.mpr hempty)] at hmagnitudes
      rw [ReadableCoefficient, if_pos hempty]
      exact ⟨hfinite, ne_zero_of_not_le_dropBelow hlarge, hmagnitudes⟩
    · have hsymbols := hforms t.2 (List.mem_cons_of_mem _ (List.mem_map_of_mem ht))
      rw [if_neg (mt List.isEmpty_iff.mp hempty)] at hmagnitudes
      rw [ReadableCoefficient, if_neg hempty]
      exact readableForm_of_shown (hn.forms t ht hempty) (List.forall_mem_map.mp hsymbols) hmagnitudes

/-! ## Texts and structural equality -/

/-- **Printing is faithful.** Let the variables and parameters of a model have distinct names, each of them a word that does not
begin with a digit. Two expressions over the model whose normal forms have no numbers that are too small to be printed are printed
the same exactly when they are structurally equal, if the magnitudes in their texts are written differently. -/
theorem expr_faithful {catalog : Catalog Float Float} {i : ModelId} {m : Model Float Float} {a b n n' : Expr Float}
    (hm : catalog[i]? = some m) (hwords : ∀ w ∈ m.symbolNames, IsName w) (hnodup : m.symbolNames.Nodup) (ha : m.Owns i a)
    (hb : m.Owns i b) (hn : a.normalized = .ok n) (hn' : b.normalized = .ok n') (hshown : n.Shown) (hshown' : n'.Shown)
    (hwritten : Set.InjOn Decimal.clamped { x | x ∈ fullMagnitudes n.toFull ++ fullMagnitudes n'.toFull }) :
    ∃ s t r, expr catalog.naming true a = .ok s ∧ expr catalog.naming true b = .ok t
      ∧ (Quantity.expr a).equal (.expr b) = .ok r ∧ (s = t ↔ r = true) := by
  have hnames := Model.distinct_naming hm hwords hnodup
  have hread := readableFull_of_shown hshown (ha.normalized hn).decisions (ha.normalized hn).parameters
    (M := { x | x ∈ fullMagnitudes n.toFull ++ fullMagnitudes n'.toFull }) fun x hx => List.mem_append_left _ hx
  have hread' := readableFull_of_shown hshown' (hb.normalized hn').decisions (hb.normalized hn').parameters
    (M := { x | x ∈ fullMagnitudes n.toFull ++ fullMagnitudes n'.toFull }) fun x hx => List.mem_append_right _ hx
  have hproper := proper_fullPhrases hnames hread
  have hproper' := proper_fullPhrases hnames hread'
  refine ⟨_, _, _, expr_eq hn hshown (List.forall_mem_append.mp hproper).2,
    expr_eq hn' hshown' (List.forall_mem_append.mp hproper').2, Expr.equal_eq_agrees hn hn', ?_⟩
  rw [← fullPhrases_eq_iff hnames hwritten hread hread']
  exact ⟨phraseSum_inj hproper hproper', congrArg phraseSum⟩

/-! ## A sample -/

/-- A model with two variables and a parameter. -/
def samplePlan : Model Float Float :=
  { Model.empty "plan" true 0 with
    decisions := [⟨some "x", ⟨0, false⟩, ⟨1, false⟩, .reals⟩, ⟨some "y", ⟨0, false⟩, ⟨1, false⟩, .reals⟩]
    parameters := [⟨some "u", ⟨0, false⟩, ⟨1, false⟩, .reals⟩] }

/-- A form that is normal. -/
def sampleNormal : Full Float :=
  { terms := [(⟨0, 0⟩, { terms := [(⟨0, 0⟩, 1)], constant := 2 }), (⟨0, 1⟩, .ofConstant (-0.5))]
    constant := { terms := [(⟨0, 0⟩, -1)], constant := 3 } }

/-- A form in which a variable occurs twice. -/
def sampleScattered : Full Float :=
  { terms := [(⟨0, 0⟩, .ofSymbol ⟨0, 0⟩), (⟨0, 1⟩, .ofConstant (-0.5)), (⟨0, 0⟩, .ofConstant 2)]
    constant := { terms := [(⟨0, 0⟩, -1)], constant := 3 } }

example : expr (Catalog.naming [samplePlan]) true (.full sampleScattered) = .ok "(u + 2) x - 0.5 y - u + 3" := by decide +kernel

/-- Both are printed as the same text, with a coefficient in parentheses and the constant spliced in. -/
theorem expr_faithful_sample : samplePlan.symbolNames = ["x", "y", "u"]
    ∧ ∃ s t r, expr (Catalog.naming [samplePlan]) true (.full sampleScattered) = .ok s
      ∧ expr (Catalog.naming [samplePlan]) true (.full sampleNormal) = .ok t
      ∧ (Quantity.expr (.full sampleScattered)).equal (.expr (.full sampleNormal)) = .ok r ∧ (s = t ↔ r = true) := by
  have hnames : samplePlan.symbolNames = ["x", "y", "u"] := by decide
  have hwords : ∀ w ∈ samplePlan.symbolNames, IsName w := by decide
  have hscattered : (Expr.full sampleScattered).normalized = .ok (.full sampleNormal) :=
    bind_eq_ok.mpr ⟨sampleNormal, by decide +kernel, rfl⟩
  have hnormal : (Expr.full sampleNormal).normalized = .ok (.full sampleNormal) :=
    bind_eq_ok.mpr ⟨sampleNormal, by decide +kernel, rfl⟩
  have hshown : sampleNormal.Shown :=
    Full.shown_of_isNormal (Full.isNormal_of_normalized (e := sampleNormal) (by decide +kernel)) (by decide +kernel) (by decide +kernel)
  have hwritten : ∀ x ∈ fullMagnitudes sampleNormal ++ fullMagnitudes sampleNormal,
      ∀ y ∈ fullMagnitudes sampleNormal ++ fullMagnitudes sampleNormal, Decimal.clamped x = Decimal.clamped y → x = y := by
    decide +kernel
  exact ⟨hnames, expr_faithful (i := 0) rfl hwords (by decide) ⟨by decide, by decide⟩ ⟨by decide, by decide⟩
    hscattered hnormal hshown hshown fun x hx y hy => hwritten x hx y hy⟩

end Print

end RobustLP
