import RobustLP.Expr.Print

/-!
# Sums are read in one way

A printed sum is a row of phrases: one word or two, or a sum in parentheses before a name. Words have no blanks and no parentheses
in them and do not begin with a sign, so a phrase ends where a sign stands between blanks, where a parenthesis is closed, or where
the text ends (`Follows`). Up to there it can be read in one way (`decodes_phrases`), and so can the whole sum
(`phraseSum_inj`).
-/

namespace RobustLP.Print

/-! ## Parts of a sum -/

/-- One word or two: a number, a name, or one of them before a name. -/
structure Words where
  first : String
  second : Option String := none
  deriving DecidableEq

/-- What stands between the signs of a sum. -/
inductive Phrase where
  | words (ws : Words)
  | group (inner : List (Bool × Words)) (name : String)
  deriving DecidableEq

/-- A word: it has no blanks and no parentheses, and no sign before it. -/
structure IsWord (w : String) : Prop where
  nonempty : w.toList ≠ []
  start : ∀ c ∈ w.toList.head?, c ≠ '-' ∧ c ≠ '+'
  chars : ∀ c ∈ w.toList, c ≠ ' ' ∧ c ≠ '(' ∧ c ≠ ')'

instance (w : String) : Decidable (IsWord w) :=
  decidable_of_iff (w.toList ≠ [] ∧ w.toList.head?.all (fun c => c ≠ '-' ∧ c ≠ '+') = true
      ∧ w.toList.all (fun c => c ≠ ' ' ∧ c ≠ '(' ∧ c ≠ ')') = true)
    ⟨fun h => ⟨h.1, by simpa [Option.all_eq_true] using h.2.1, by simpa using h.2.2⟩,
      fun h => ⟨h.nonempty, by simpa [Option.all_eq_true] using h.start, by simpa using h.chars⟩⟩

/-- The words are words. -/
structure Words.Sound (ws : Words) : Prop where
  first : IsWord ws.first
  second : ∀ w ∈ ws.second, IsWord w

/-- The phrase is made of words. -/
def Phrase.Sound : Phrase → Prop
  | words ws => ws.Sound
  | group inner name => (inner ≠ [] ∧ ∀ p ∈ inner, p.2.Sound) ∧ IsWord name

/-- The text of words. -/
def Words.text (ws : Words) : String :=
  match ws.second with
  | none => ws.first
  | some w => ws.first ++ " " ++ w

/-- A sum of words. -/
def wordSum (ps : List (Bool × Words)) : String := join (ps.map fun p => ⟨p.1, p.2.text⟩)

/-- The text of a phrase. -/
def Phrase.text : Phrase → String
  | words ws => ws.text
  | group inner name => "(" ++ wordSum inner ++ ") " ++ name

/-- A sum of phrases. -/
def phraseSum (ps : List (Bool × Phrase)) : String := join (ps.map fun p => ⟨p.1, p.2.text⟩)

/-! ## The characters of a sum -/

variable {α : Type} {chars : α → List Char} {text : α → String}

/-- A sign between blanks. -/
def signChars (negative : Bool) : List Char := [' ', if negative then '-' else '+', ' ']

/-- The characters of the parts of a sum behind the first. -/
def restChars (chars : α → List Char) : List (Bool × α) → List Char
  | [] => []
  | (negative, a) :: rest => signChars negative ++ chars a ++ restChars chars rest

/-- The characters of a sum. -/
def sumChars (chars : α → List Char) : List (Bool × α) → List Char
  | [] => []
  | (negative, a) :: rest => (if negative then ['-'] else []) ++ chars a ++ restChars chars rest

/-- What is joined to the first part of a sum. -/
theorem toList_join_rest (text : α → String) (ps : List (Bool × α)) :
    (String.join ((ps.map fun p => (⟨p.1, text p.2⟩ : Piece)).map fun q => (if q.negative then " - " else " + ") ++ q.text)).toList
      = restChars (fun a => (text a).toList) ps := by
  induction ps with
  | nil => rfl
  | cons p ps ih =>
    obtain ⟨negative, a⟩ := p
    simp only [String.toList_join, List.map_cons, List.flatMap_cons] at ih ⊢
    rw [ih, restChars]
    cases negative <;> simp [signChars]

theorem toList_join (text : α → String) {ps : List (Bool × α)} (hps : ps ≠ []) :
    (join (ps.map fun p => ⟨p.1, text p.2⟩)).toList = sumChars (fun a => (text a).toList) ps := by
  cases ps with
  | nil => exact absurd rfl hps
  | cons p ps =>
    obtain ⟨negative, a⟩ := p
    rw [List.map_cons, join, String.toList_append, toList_join_rest, sumChars]
    cases negative <;> simp

/-! ## Reading -/

/-- What may stand behind a phrase. -/
inductive Follows : List Char → Prop where
  | done : Follows []
  | close (rest : List Char) : Follows (')' :: rest)
  | sign (negative : Bool) (rest : List Char) : Follows (signChars negative ++ rest)

/-- What may stand behind a sum. -/
inductive Closes : List Char → Prop where
  | done : Closes []
  | close (rest : List Char) : Closes (')' :: rest)

/-- Texts that are read in one way: the text and what follows it are told apart. -/
def Decodes (chars : α → List Char) (sound : α → Prop) (follows : List Char → Prop) : Prop :=
  ∀ a b r s, sound a → sound b → follows r → follows s → chars a ++ r = chars b ++ s → a = b ∧ r = s

/-- What satisfies a condition and is followed by what does not is told apart from it. -/
theorem append_inj_of_forall {p : α → Prop} : ∀ {u v r s : List α}, (∀ a ∈ u, p a) → (∀ a ∈ v, p a) → (∀ a ∈ r.head?, ¬p a) →
    (∀ a ∈ s.head?, ¬p a) → u ++ r = v ++ s → u = v ∧ r = s
  | [], [], _, _, _, _, _, _, h => ⟨rfl, h⟩
  | [], b :: v, _, _, _, hv, hr, _, h => absurd (hv b List.mem_cons_self) (hr b (by rw [List.nil_append] at h; rw [h]; rfl))
  | a :: u, [], _, _, hu, _, _, hs, h => absurd (hu a List.mem_cons_self) (hs a (by rw [List.nil_append] at h; rw [← h]; rfl))
  | a :: u, b :: v, r, s, hu, hv, hr, hs, h => by
    simp only [List.cons_append, List.cons.injEq] at h
    obtain ⟨rfl, h⟩ := h
    rw [List.forall_mem_cons] at hu hv
    obtain ⟨rfl, rfl⟩ := append_inj_of_forall hu.2 hv.2 hr hs h
    exact ⟨rfl, rfl⟩

theorem Closes.follows {r : List Char} (h : Closes r) : Follows r := by
  cases h with
  | done => exact .done
  | close rest => exact .close rest

/-- What follows a phrase goes on with no word. -/
theorem Follows.head {r : List Char} (h : Follows r) : ∀ c ∈ r.head?, ¬(c ≠ ' ' ∧ c ≠ '(' ∧ c ≠ ')') := by
  cases h with
  | done => nofun
  | close rest => simp
  | sign negative rest => simp [signChars]

/-- A word ends where what follows it begins. -/
theorem IsWord.append_inj {v w : String} {r s : List Char} (hv : IsWord v) (hw : IsWord w) (hr : Follows r) (hs : Follows s)
    (h : v.toList ++ r = w.toList ++ s) : v = w ∧ r = s := by
  obtain ⟨hvw, hrs⟩ := append_inj_of_forall hv.chars hw.chars hr.head hs.head h
  exact ⟨String.toList_inj.mp hvw, hrs⟩

/-- Behind one word there is no second. -/
theorem Follows.ne_blank {r : List Char} (h : Follows r) {w : String} (hw : IsWord w) (s : List Char) :
    r ≠ ' ' :: (w.toList ++ s) := by
  intro heq
  obtain ⟨c, cs, hc⟩ := List.exists_cons_of_ne_nil hw.nonempty
  have hstart := hw.start c (by rw [hc]; rfl)
  rw [hc] at heq
  cases h with
  | done => cases heq
  | close rest => simp at heq
  | sign negative rest =>
    simp only [signChars, List.cons_append, List.nil_append, List.cons.injEq, true_and] at heq
    cases negative with
    | true => exact hstart.1 heq.1.symm
    | false => exact hstart.2 heq.1.symm

theorem Words.toList_text (ws : Words) :
    ws.text.toList = ws.first.toList ++ (ws.second.elim [] fun w => ' ' :: w.toList) := by
  obtain ⟨first, second⟩ := ws
  cases second with
  | none => simp [text]
  | some w => simp [text]

/-- **Words** are read in one way. -/
theorem decodes_words : Decodes (fun ws : Words => ws.text.toList) Words.Sound Follows := by
  intro a b r s ha hb hr hs h
  obtain ⟨v, v'⟩ := a
  obtain ⟨w, w'⟩ := b
  have hblank : ∀ (x : Option String) (r : List Char), Follows r →
      ∀ c ∈ (x.elim [] (fun w => ' ' :: w.toList) ++ r).head?, ¬(c ≠ ' ' ∧ c ≠ '(' ∧ c ≠ ')') := by
    intro x r hr
    cases x with
    | none => exact hr.head
    | some x => simp
  dsimp only at h
  rw [Words.toList_text, Words.toList_text, List.append_assoc, List.append_assoc] at h
  obtain ⟨hfirst, hrest⟩ := append_inj_of_forall ha.first.chars hb.first.chars (hblank v' r hr) (hblank w' s hs) h
  obtain rfl : v = w := String.toList_inj.mp hfirst
  cases v' with
  | none =>
    cases w' with
    | none => exact ⟨rfl, hrest⟩
    | some w' => exact absurd hrest (hr.ne_blank (hb.second w' rfl) s)
  | some v' =>
    cases w' with
    | none => exact absurd hrest.symm (hs.ne_blank (ha.second v' rfl) r)
    | some w' =>
      obtain ⟨rfl, hsame⟩ := (ha.second v' rfl).append_inj (hb.second w' rfl) hr hs (List.cons.inj hrest).2
      exact ⟨rfl, hsame⟩

variable {sound : α → Prop}

theorem follows_rest (ps : List (Bool × α)) {r : List Char} (hr : Closes r) : Follows (restChars chars ps ++ r) := by
  cases ps with
  | nil => exact hr.follows
  | cons p ps =>
    obtain ⟨negative, a⟩ := p
    rw [restChars, List.append_assoc, List.append_assoc]
    exact .sign negative _

/-- Behind a sum there is no other phrase. -/
theorem Closes.ne_rest {r : List Char} (h : Closes r) (p : Bool × α) (ps : List (Bool × α)) (s : List Char) :
    r ≠ restChars chars (p :: ps) ++ s := by
  obtain ⟨negative, a⟩ := p
  intro heq
  rw [restChars] at heq
  cases h with
  | done => cases heq
  | close rest => simp [signChars] at heq

theorem decodes_rest (h : Decodes chars sound Follows) : ∀ (ps qs : List (Bool × α)) (r s : List Char),
    (∀ p ∈ ps, sound p.2) → (∀ q ∈ qs, sound q.2) → Closes r → Closes s → restChars chars ps ++ r = restChars chars qs ++ s →
      ps = qs ∧ r = s
  | [], [], _, _, _, _, _, _, heq => ⟨rfl, heq⟩
  | [], q :: qs, _, s, _, _, hr, _, heq => absurd heq (hr.ne_rest q qs s)
  | p :: ps, [], r, _, _, _, _, hs, heq => absurd heq.symm (hs.ne_rest p ps r)
  | (sign, a) :: ps, (sign', b) :: qs, r, s, hps, hqs, hr, hs, heq => by
    rw [List.forall_mem_cons] at hps hqs
    rw [restChars, restChars, List.append_assoc, List.append_assoc, List.append_assoc, List.append_assoc] at heq
    simp only [signChars, List.cons_append, List.nil_append, List.cons.injEq, true_and] at heq
    have hsign : sign = sign' := by
      have hchar := heq.1
      cases sign <;> cases sign' <;> simp_all
    obtain ⟨hab, hrest⟩ := h a b _ _ hps.1 hqs.1 (follows_rest ps hr) (follows_rest qs hs) heq.2
    obtain ⟨hpq, hrs⟩ := decodes_rest h ps qs r s hps.2 hqs.2 hr hs hrest
    exact ⟨by rw [hsign, hab, hpq], hrs⟩

/-- **Sums of parts that are read in one way** are read in one way. -/
theorem decodes_sum (h : Decodes chars sound Follows) (hstart : ∀ a, sound a → ∃ c cs, chars a = c :: cs ∧ c ≠ '-') :
    Decodes (sumChars chars) (fun ps => ps ≠ [] ∧ ∀ p ∈ ps, sound p.2) Closes := by
  rintro (_ | ⟨⟨sign, a⟩, ps⟩) (_ | ⟨⟨sign', b⟩, qs⟩) r s ⟨hne, hps⟩ ⟨hne', hqs⟩ hr hs heq
  · exact absurd rfl hne
  · exact absurd rfl hne
  · exact absurd rfl hne'
  · rw [List.forall_mem_cons] at hps hqs
    obtain ⟨c, cs, hc, hminus⟩ := hstart a hps.1
    obtain ⟨c', cs', hc', hminus'⟩ := hstart b hqs.1
    rw [sumChars, sumChars, List.append_assoc, List.append_assoc, List.append_assoc, List.append_assoc] at heq
    have hsign : sign = sign' := by
      rw [hc, hc'] at heq
      cases sign with
      | false =>
        cases sign' with
        | false => rfl
        | true => exact absurd (List.cons.inj heq).1 hminus
      | true =>
        cases sign' with
        | false => exact absurd (List.cons.inj heq).1.symm hminus'
        | true => rfl
    subst hsign
    rw [List.append_right_inj] at heq
    obtain ⟨hab, hrest⟩ := h a b _ _ hps.1 hqs.1 (follows_rest ps hr) (follows_rest qs hs) heq
    obtain ⟨hpq, hrs⟩ := decodes_rest h ps qs r s hps.2 hqs.2 hr hs hrest
    exact ⟨by rw [hab, hpq], hrs⟩

theorem IsWord.exists_cons {w : String} (h : IsWord w) : ∃ c cs, w.toList = c :: cs ∧ c ≠ '-' ∧ c ≠ '(' := by
  obtain ⟨c, cs, hc⟩ := List.exists_cons_of_ne_nil h.nonempty
  exact ⟨c, cs, hc, (h.start c (by rw [hc]; rfl)).1, (h.chars c (by rw [hc]; exact List.mem_cons_self)).2.1⟩

theorem Words.Sound.exists_cons {ws : Words} (h : ws.Sound) : ∃ c cs, ws.text.toList = c :: cs ∧ c ≠ '-' ∧ c ≠ '(' := by
  obtain ⟨c, cs, hc, hne⟩ := h.first.exists_cons
  exact ⟨c, _, by rw [Words.toList_text, hc, List.cons_append], hne⟩

theorem Phrase.toList_group {inner : List (Bool × Words)} (hinner : inner ≠ []) (name : String) :
    (group inner name).text.toList = '(' :: (sumChars (fun ws => ws.text.toList) inner ++ ')' :: ' ' :: name.toList) := by
  have hsum : (wordSum inner).toList = sumChars (fun ws => ws.text.toList) inner := toList_join Words.text hinner
  simp [text, hsum]

theorem Phrase.Sound.exists_cons {p : Phrase} (h : p.Sound) : ∃ c cs, p.text.toList = c :: cs ∧ c ≠ '-' := by
  cases p with
  | words ws =>
    obtain ⟨c, cs, hc, hne, -⟩ := Words.Sound.exists_cons h
    exact ⟨c, cs, hc, hne⟩
  | group inner name => exact ⟨'(', _, toList_group h.1.1 name, by decide⟩

theorem decodes_wordSums : Decodes (sumChars fun ws : Words => ws.text.toList) (fun ps => ps ≠ [] ∧ ∀ p ∈ ps, p.2.Sound) Closes :=
  decodes_sum decodes_words fun ws hws => by
    obtain ⟨c, cs, hc, hne, -⟩ := hws.exists_cons
    exact ⟨c, cs, hc, hne⟩

/-- **Phrases** are read in one way. -/
theorem decodes_phrases : Decodes (fun p : Phrase => p.text.toList) Phrase.Sound Follows := by
  have hdiffer : ∀ (ws : Words) (inner : List (Bool × Words)) (name : String) (r s : List Char), ws.Sound → inner ≠ [] →
      ws.text.toList ++ r ≠ (Phrase.group inner name).text.toList ++ s := by
    intro ws inner name r s hws hinner heq
    obtain ⟨c, cs, hc, -, hne⟩ := hws.exists_cons
    rw [Phrase.toList_group hinner, hc] at heq
    exact hne (List.cons.inj heq).1
  intro a b r s ha hb hr hs h
  cases a with
  | words v =>
    cases b with
    | words w =>
      obtain ⟨rfl, rfl⟩ := decodes_words v w r s ha hb hr hs h
      exact ⟨rfl, rfl⟩
    | group inner name => exact absurd h (hdiffer v inner name r s ha hb.1.1)
  | group inner name =>
    cases b with
    | words w => exact absurd h.symm (hdiffer w inner name s r hb ha.1.1)
    | group inner' name' =>
      dsimp only at h
      rw [Phrase.toList_group ha.1.1, Phrase.toList_group hb.1.1] at h
      simp only [List.cons_append, List.append_assoc, List.cons.injEq, true_and] at h
      obtain ⟨hinner, hname⟩ := decodes_wordSums inner inner' _ _ ha.1 hb.1 (.close _) (.close _) h
      simp only [List.cons.injEq, true_and] at hname
      obtain ⟨hname, hrs⟩ := ha.2.append_inj hb.2 hr hs hname
      exact ⟨by rw [hinner, hname], hrs⟩

/-! ## Whole sums -/

/-- The phrase with which a sum of nothing is printed. -/
def Phrase.zero : Phrase := words { first := "0" }

theorem Phrase.group_ne_zero (inner : List (Bool × Words)) (name : String) : group inner name ≠ zero := by
  intro h
  cases h

/-- A phrase of words that is not a mere zero. -/
structure Phrase.Proper (p : Phrase) : Prop where
  sound : p.Sound
  ne_zero : p ≠ zero

theorem Phrase.sound_zero : zero.Sound := ⟨by decide, nofun⟩

/-- A sum of nothing is printed as zero. -/
def padded : List (Bool × Phrase) → List (Bool × Phrase)
  | [] => [(false, .zero)]
  | p :: ps => p :: ps

theorem phraseSum_padded (ps : List (Bool × Phrase)) : phraseSum (padded ps) = phraseSum ps := by
  cases ps with
  | nil => rfl
  | cons p ps => rfl

theorem padded_inj {ps qs : List (Bool × Phrase)} (hps : ∀ p ∈ ps, p.2 ≠ .zero) (hqs : ∀ q ∈ qs, q.2 ≠ .zero)
    (h : padded ps = padded qs) : ps = qs := by
  cases ps with
  | nil =>
    cases qs with
    | nil => rfl
    | cons q qs => exact absurd (congrArg Prod.snd (List.cons.inj h).1).symm (hqs q List.mem_cons_self)
  | cons p ps =>
    cases qs with
    | nil => exact absurd (congrArg Prod.snd (List.cons.inj h).1) (hps p List.mem_cons_self)
    | cons q qs => exact h

/-- **Printed sums are read in one way,** if no phrase is zero. -/
theorem phraseSum_inj {ps qs : List (Bool × Phrase)} (hps : ∀ p ∈ ps, p.2.Proper) (hqs : ∀ q ∈ qs, q.2.Proper)
    (h : phraseSum ps = phraseSum qs) : ps = qs := by
  have hsound : ∀ {ps : List (Bool × Phrase)}, (∀ p ∈ ps, p.2.Proper) → padded ps ≠ [] ∧ ∀ p ∈ padded ps, p.2.Sound := by
    intro ps hps
    cases ps with
    | nil => exact ⟨List.cons_ne_nil _ _, List.forall_mem_singleton.mpr Phrase.sound_zero⟩
    | cons p ps => exact ⟨List.cons_ne_nil _ _, fun q hq => (hps q hq).sound⟩
  have hdecodes := decodes_sum decodes_phrases fun p hp => Phrase.Sound.exists_cons hp
  rw [← phraseSum_padded ps, ← phraseSum_padded qs] at h
  have hchars := congrArg String.toList h
  rw [phraseSum, phraseSum, toList_join Phrase.text (hsound hps).1, toList_join Phrase.text (hsound hqs).1] at hchars
  refine padded_inj (fun p hp => (hps p hp).ne_zero) (fun q hq => (hqs q hq).ne_zero) ?_
  exact (hdecodes _ _ [] [] (hsound hps) (hsound hqs) .done .done (by rw [List.append_nil, List.append_nil, hchars])).1

end RobustLP.Print
