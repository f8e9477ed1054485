import RobustLP.Proofs.Config.Setting

/-!
# Option strings that are written

An option string is written from pairs of texts (`Config.Words.Line`): each text as it is or in quotes, a literal between a key
and its value, and a gap of blanks, tabs and commas between pairs. Such a string reads back as the pairs it was written from
(`Line.pairs_write`), whatever the column at which the reading begins. If the last pair is cut short, it does not read back
(`Line.exists_error_cut`).

So to set options from a string is to set them from the dictionary of its pairs, and a string that is cut short sets nothing
(`Config.strings_read_back`).
-/

namespace RobustLP

namespace Config

namespace Words

/-! ## Writing -/

/-- What stands between tokens. -/
structure Gap where
  chars : List Char
  separates : ∀ c ∈ chars, isSeparator c = true

/-- Nothing between tokens. -/
def Gap.empty : Gap := ⟨[], nofun⟩

/-- How a text is written. -/
inductive Style where
  | bare
  | single
  | double
  deriving DecidableEq, Repr

/-- The quote around a text. -/
def Style.quote? : Style → Option Char
  | bare => none
  | single => some '\''
  | double => some '"'

/-- The texts of a style. As it is, a text must not look like anything else; in quotes, it must not close or escape them. -/
def Style.Writes (style : Style) (text : String) : Prop :=
  match style.quote? with
  | some quote => '\\' ∉ text.toList ∧ quote ∉ text.toList
  | none => text.toList ≠ [] ∧ (∀ c ∈ text.toList, Text.isBlank c = false ∧ c ≠ ',' ∧ c ≠ ':' ∧ c ≠ '=')
      ∧ ∀ c ∈ text.toList.head?, c ≠ '\'' ∧ c ≠ '"'

instance : ∀ (style : Style) (text : String), Decidable (style.Writes text)
  | .bare, text =>
    have : Decidable (∀ c ∈ text.toList, Text.isBlank c = false ∧ c ≠ ',' ∧ c ≠ ':' ∧ c ≠ '=') := List.decidableBAll _ _
    have : Decidable (∀ c ∈ text.toList.head?, c ≠ '\'' ∧ c ≠ '"') := Option.decidableForallMem _
    inferInstanceAs (Decidable (_ ∧ _ ∧ _))
  | .single, _ => inferInstanceAs (Decidable (_ ∧ _))
  | .double, _ => inferInstanceAs (Decidable (_ ∧ _))

/-- A text as it is written. -/
structure Spelled where
  text : String
  style : Style
  writes : style.Writes text

/-- The characters of a text as it is written. -/
def Spelled.chars (s : Spelled) : List Char := s.style.quote?.toList ++ s.text.toList ++ s.style.quote?.toList

/-- A key and its value as they are written, with a literal between them. -/
structure Assignment where
  key : Spelled
  before : Gap
  literal : Char
  literal_mem : literal ∈ pairLiterals
  after : Gap
  value : Spelled

namespace Assignment

/-- The texts of key and value. -/
def pair (a : Assignment) : String × String := (a.key.text, a.value.text)

/-- All but the value. -/
def opening (a : Assignment) : List Char := a.key.chars ++ (a.before.chars ++ a.literal :: a.after.chars)

/-- The characters of a pair as it is written. -/
def chars (a : Assignment) : List Char := a.opening ++ a.value.chars

end Assignment

/-- Pairs, each with the gap before it. Between pairs there is one. -/
structure Line where
  assignments : List (Gap × Assignment)
  apart : ∀ p ∈ assignments.tail, p.1.chars ≠ []

/-- The characters of pairs, and what follows them. -/
def charsOf (ps : List (Gap × Assignment)) (rest : List Char) : List Char :=
  ps.foldr (fun p rest => p.1.chars ++ (p.2.chars ++ rest)) rest

/-- The option string of some pairs, with what follows them. -/
def Line.write (l : Line) (rest : List Char) : String := String.ofList (charsOf l.assignments rest)

/-- The pairs of a line. -/
def Line.pairs (l : Line) : List (String × String) := l.assignments.map fun p => p.2.pair

/-! ## Reading a token -/

variable {column : Nat} {c quote : Char} {rest : List Char} {literals : List Char}

/-- A character of a word separates no tokens. -/
theorem isSeparator_of_isWordChar (h : isWordChar literals c = true) : isSeparator c = false := by
  unfold isWordChar at h
  rw [Bool.and_eq_true, Bool.and_eq_true] at h
  by_contra hsep
  unfold isSeparator at hsep
  simp only [Bool.not_eq_false, Bool.or_eq_true, beq_iff_eq] at hsep
  rcases hsep with ((rfl | rfl) | rfl) | rfl
  all_goals simp [Text.isBlank] at h

/-- A character that separates tokens ends words. -/
theorem isWordChar_of_isSeparator (h : isSeparator c = true) : isWordChar literals c = false := by
  by_contra hword
  rw [isSeparator_of_isWordChar (Bool.eq_true_of_not_eq_false hword)] at h
  exact Bool.false_ne_true h

/-- Nothing goes on with a word. -/
def EndsWord (rest : List Char) : Prop := ∀ c ∈ rest.head?, isWordChar pairLiterals c = false

theorem EndsWord.nil : EndsWord [] := nofun

theorem Gap.endsWord {g : Gap} (h : g.chars ≠ [] ∨ EndsWord rest) : EndsWord (g.chars ++ rest) := by
  cases hg : g.chars with
  | nil => exact h.resolve_left (fun hne => hne hg)
  | cons c cs =>
    rintro c' hc'
    cases hc'
    exact isWordChar_of_isSeparator (g.separates _ (hg ▸ List.mem_cons_self))

theorem scan_separator (h : isSeparator c = true) (column : Nat) (rest : List Char) :
    scan literals column (c :: rest) = scan literals (column + 1) rest := by
  rw [scan, if_pos h]

theorem scan_gap : ∀ (cs : List Char), (∀ c ∈ cs, isSeparator c = true) → ∀ (column : Nat) (rest : List Char),
    scan literals column (cs ++ rest) = scan literals (column + cs.length) rest
  | [], _, _, _ => rfl
  | c :: cs, h, column, rest => by
    rw [List.cons_append, scan_separator (h c List.mem_cons_self),
      scan_gap cs (fun c' hc' => h c' (List.mem_cons_of_mem _ hc')), List.length_cons]
    congr 1
    omega

theorem scan_quoted {inside after : List Char} (hc : isSeparator c = false) (h : quotedAt c rest = some (inside, after)) :
    scan literals column (c :: rest) = (scan literals (column + inside.length + 2) after).cons
      { sort := .quoted, text := String.ofList inside, column } := by
  rw [scan, if_neg (Bool.eq_false_iff.mp hc)]
  split
  next inside' after' h' =>
    rw [h] at h'
    cases h'
    rfl
  next hnone =>
    rw [h] at hnone
    cases hnone

theorem scan_word (hc : isWordChar literals c = true) (h : quotedAt c rest = none) (column : Nat) :
    scan literals column (c :: rest)
      = (scan literals (column + (c :: rest.takeWhile (isWordChar literals)).length)
          (rest.dropWhile (isWordChar literals))).cons
        { sort := .word, text := String.ofList (c :: rest.takeWhile (isWordChar literals)), column } := by
  rw [scan, if_neg (Bool.eq_false_iff.mp (isSeparator_of_isWordChar hc))]
  split
  next inside after hsome =>
    rw [h] at hsome
    cases hsome
  next => rw [if_pos hc]

theorem scan_literal (hc : c ∈ literals) (hsep : isSeparator c = false) (h : quotedAt c rest = none) :
    scan literals column (c :: rest)
      = (scan literals (column + 1) rest).cons { sort := .literal, text := String.singleton c, column } := by
  have hcontains : literals.contains c = true := List.contains_iff_mem.mpr hc
  have hword : isWordChar literals c = false := by
    unfold isWordChar
    rw [hcontains, Bool.not_true, Bool.and_false]
  rw [scan, if_neg (Bool.eq_false_iff.mp hsep)]
  split
  next inside after hsome =>
    rw [h] at hsome
    cases hsome
  next => rw [if_neg (Bool.eq_false_iff.mp hword), if_pos hcontains]

/-! ## Reading what is written -/

/-- What has neither its quote nor a backslash is closed by the quote. -/
theorem closeQuote_append : ∀ {cs : List Char}, '\\' ∉ cs → quote ∉ cs → ∀ rest,
    quote ≠ '\\' → closeQuote quote (cs ++ quote :: rest) = some (cs, rest)
  | [], _, _, rest, hq => by
    rw [List.nil_append, closeQuote, if_pos rfl]
    exact fun heq => hq (by simp_all)
  | c :: cs, hescape, hquote, rest, hq => by
    rw [List.mem_cons, not_or] at hescape hquote
    rw [List.cons_append, closeQuote, if_neg (Ne.symm hquote.1), closeQuote_append hescape.2 hquote.2 rest hq]
    · rfl
    · exact fun heq => hescape.1 (by simp_all)

/-- A text in quotes is a token. -/
theorem scan_enclosed {inside : List Char} (hquote : quote = '\'' ∨ quote = '"') (hescape : '\\' ∉ inside)
    (hinside : quote ∉ inside) (column : Nat) (rest : List Char) :
    scan literals column (quote :: (inside ++ quote :: rest)) = (scan literals (column + inside.length + 2) rest).cons
      { sort := .quoted, text := String.ofList inside, column } := by
  have hclose : quotedAt quote (inside ++ quote :: rest) = some (inside, rest) := by
    unfold quotedAt
    rw [if_pos (by simpa using hquote)]
    exact closeQuote_append hescape hinside rest (by rcases hquote with rfl | rfl <;> decide)
  exact scan_quoted (by rcases hquote with rfl | rfl <;> rfl) hclose

/-- A word is a token, if nothing goes on with it. -/
theorem scan_bare {word : List Char} (hne : word ≠ []) (hword : ∀ c ∈ word, isWordChar literals c = true)
    (hopen : ∀ c ∈ word.head?, c ≠ '\'' ∧ c ≠ '"') (hrest : ∀ c ∈ rest.head?, isWordChar literals c = false)
    (column : Nat) : scan literals column (word ++ rest) = (scan literals (column + word.length) rest).cons
      { sort := .word, text := String.ofList word, column } := by
  obtain ⟨c, cs, rfl⟩ := List.exists_cons_of_ne_nil hne
  have hnone : quotedAt c (cs ++ rest) = none := by
    obtain ⟨hsingle, hdouble⟩ := hopen c rfl
    unfold quotedAt
    rw [if_neg (by simp [hsingle, hdouble])]
  have hcs : ∀ c ∈ cs, isWordChar literals c = true := fun c hc => hword c (List.mem_cons_of_mem _ hc)
  have hscan := scan_word (hword c List.mem_cons_self) hnone column
  rw [List.takeWhile_append_of_pos hcs, List.dropWhile_append_of_pos hcs] at hscan
  cases rest with
  | nil => simpa using hscan
  | cons r rest =>
    have hr : ¬isWordChar literals r = true := Bool.eq_false_iff.mp (hrest r rfl)
    rw [List.takeWhile_cons, if_neg hr, List.dropWhile_cons, if_neg hr, List.append_nil] at hscan
    exact hscan

/-- A text that is written reads back as a token, if nothing goes on with it. -/
theorem scan_spelled (s : Spelled) (hrest : EndsWord rest) (column : Nat) : ∃ column' token, token.text = s.text
    ∧ token.sort ≠ .literal ∧ scan pairLiterals column (s.chars ++ rest) = (scan pairLiterals column' rest).cons token := by
  obtain ⟨text, style, hwrites⟩ := s
  cases style with
  | single =>
    obtain ⟨hescape, hinside⟩ := hwrites
    refine ⟨_, _, String.ofList_toList, ?_, Eq.trans ?_ (scan_enclosed (.inl rfl) hescape hinside column rest)⟩
    · exact nofun
    · simp [Spelled.chars, Style.quote?]
  | double =>
    obtain ⟨hescape, hinside⟩ := hwrites
    refine ⟨_, _, String.ofList_toList, ?_, Eq.trans ?_ (scan_enclosed (.inr rfl) hescape hinside column rest)⟩
    · exact nofun
    · simp [Spelled.chars, Style.quote?]
  | bare =>
    obtain ⟨hne, hchars, hquote⟩ := hwrites
    have hword : ∀ c ∈ text.toList, isWordChar pairLiterals c = true := by
      intro c hc
      obtain ⟨hblank, hcomma, hcolon, hequals⟩ := hchars c hc
      simp [isWordChar, pairLiterals, hblank, hcomma, hcolon, hequals]
    refine ⟨_, _, String.ofList_toList, ?_, Eq.trans ?_ (scan_bare hne hword hquote hrest column)⟩
    · exact nofun
    · simp [Spelled.chars, Style.quote?]

/-- The literal between a key and its value is a token of its own. -/
theorem scan_assignment_literal (a : Assignment) (column : Nat) (rest : List Char) : ∃ token, token.sort = .literal
    ∧ scan pairLiterals column (a.literal :: rest) = (scan pairLiterals (column + 1) rest).cons token := by
  have hmem := a.literal_mem
  have hliteral : a.literal = ':' ∨ a.literal = '=' := by simpa [pairLiterals] using hmem
  refine ⟨_, rfl, scan_literal hmem ?_ ?_⟩
  · rcases hliteral with h | h <;> rw [h] <;> rfl
  · rcases hliteral with h | h <;> rw [h] <;> rfl

theorem Assignment.endsWord_literal (a : Assignment) (rest : List Char) : EndsWord (a.literal :: rest) := by
  rintro c hc
  cases hc
  have hcontains : pairLiterals.contains a.literal = true := List.contains_iff_mem.mpr a.literal_mem
  unfold isWordChar
  rw [hcontains, Bool.not_true, Bool.and_false]

/-! ## Reading pairs -/

/-- The pairs of characters of which the first stands in some column. -/
def readFrom (column : Nat) (cs : List Char) : Except Error (List (String × String)) :=
  pairsOf (scan pairLiterals column cs).failure (scan pairLiterals column cs).tokens

theorem pairs_ofList (cs : List Char) : pairs (String.ofList cs) = readFrom 1 cs := by
  rw [pairs, String.toList_ofList]
  rfl

theorem readFrom_gap (g : Gap) (column : Nat) (rest : List Char) :
    readFrom column (g.chars ++ rest) = readFrom (column + g.chars.length) rest := by
  unfold readFrom
  rw [scan_gap g.chars g.separates]

/-- The tokens of all but the value of a pair. -/
theorem scan_opening (a : Assignment) (column : Nat) (rest : List Char) : ∃ column' key literal, key.text = a.key.text
    ∧ literal.sort = .literal
    ∧ scan pairLiterals column (a.opening ++ rest) = ((scan pairLiterals column' rest).cons literal).cons key := by
  have hends : EndsWord (a.before.chars ++ (a.literal :: (a.after.chars ++ rest))) :=
    Gap.endsWord (.inr (a.endsWord_literal _))
  obtain ⟨afterKey, key, hkey, -, hscanKey⟩ := scan_spelled a.key hends column
  obtain ⟨literal, hliteral, hscanLiteral⟩ :=
    scan_assignment_literal a (afterKey + a.before.chars.length) (a.after.chars ++ rest)
  refine ⟨afterKey + a.before.chars.length + 1 + a.after.chars.length, key, literal, hkey, hliteral, ?_⟩
  rw [Assignment.opening, List.append_assoc, List.append_assoc, List.cons_append, hscanKey, scan_gap _ a.before.separates,
    hscanLiteral, scan_gap _ a.after.separates]

/-- A pair that is written is read, and the reading goes on behind it. -/
theorem readFrom_assignment (a : Assignment) (hrest : EndsWord rest) (column : Nat) :
    ∃ column', readFrom column (a.chars ++ rest) = (a.pair :: ·) <$> readFrom column' rest := by
  obtain ⟨afterLiteral, key, literal, hkey, hliteral, hopening⟩ := scan_opening a column (a.value.chars ++ rest)
  obtain ⟨column', value, hvalue, -, hscanValue⟩ := scan_spelled a.value hrest afterLiteral
  refine ⟨column', ?_⟩
  unfold readFrom
  rw [Assignment.chars, List.append_assoc, hopening, hscanValue]
  show pairsOf _ (key :: literal :: value :: _) = _
  rw [pairsOf, if_pos hliteral, hkey, hvalue]
  rfl

theorem scan_trail (g : Gap) (column : Nat) : scan literals column g.chars = {} := by
  have hgap : scan literals column (g.chars ++ []) = _ := scan_gap g.chars g.separates column []
  rw [List.append_nil] at hgap
  rw [hgap, scan]

/-- A key alone is not a pair. -/
theorem readFrom_key (s : Spelled) (trail : Gap) (column : Nat) :
    ∃ e : Error, e.kind = .value ∧ readFrom column (s.chars ++ trail.chars) = .error e := by
  have hends : EndsWord trail.chars := List.append_nil trail.chars ▸ Gap.endsWord (.inr .nil)
  obtain ⟨column', token, -, -, hscan⟩ := scan_spelled s hends column
  refine ⟨tooShort none "Expected ':' or '='", rfl, ?_⟩
  unfold readFrom
  rw [hscan, scan_trail]
  rfl

/-- A key and a literal are not a pair. -/
theorem readFrom_opening (a : Assignment) (trail : Gap) (column : Nat) :
    ∃ e : Error, e.kind = .value ∧ readFrom column (a.opening ++ trail.chars) = .error e := by
  obtain ⟨column', key, literal, -, hliteral, hscan⟩ := scan_opening a column trail.chars
  refine ⟨tooShort none ("Expected value following '" ++ literal.text ++ "'"), rfl, ?_⟩
  unfold readFrom
  rw [hscan, scan_trail]
  show pairsOf none [key, literal] = _
  rw [pairsOf, if_pos hliteral]

/-! ## Reading lines -/

/-- Pairs with gaps before them begin with a gap. -/
theorem endsWord_charsOf {ps : List (Gap × Assignment)} (h : ∀ p ∈ ps, p.1.chars ≠ []) (hrest : EndsWord rest) :
    EndsWord (charsOf ps rest) := by
  cases ps with
  | nil => exact hrest
  | cons p ps => exact Gap.endsWord (.inl (h p List.mem_cons_self))

/-- The pairs of a line are read, and the reading goes on behind them. -/
theorem readFrom_charsOf (hrest : EndsWord rest) : ∀ (ps : List (Gap × Assignment)), (∀ p ∈ ps.tail, p.1.chars ≠ []) →
    ∀ column, ∃ column', readFrom column (charsOf ps rest) = (ps.map (fun p => p.2.pair) ++ ·) <$> readFrom column' rest
  | [], _, column => ⟨column, by cases h : readFrom column rest <;> rw [charsOf, List.foldr_nil, h] <;> rfl⟩
  | (g, a) :: ps, hapart, column => by
    have hends : EndsWord (charsOf ps rest) := endsWord_charsOf hapart hrest
    obtain ⟨after, hassignment⟩ := readFrom_assignment a hends (column + g.chars.length)
    obtain ⟨column', hps⟩ := readFrom_charsOf hrest ps (fun p hp => hapart p (List.mem_of_mem_tail hp)) after
    refine ⟨column', ?_⟩
    show readFrom column (g.chars ++ (a.chars ++ charsOf ps rest)) = _
    rw [readFrom_gap, hassignment, hps]
    cases readFrom column' rest <;> rfl

/-- **A line reads back as its pairs.** -/
theorem Line.pairs_write (l : Line) (trail : Gap) : Words.pairs (l.write trail.chars) = .ok l.pairs := by
  have hends : EndsWord trail.chars := List.append_nil trail.chars ▸ Gap.endsWord (.inr .nil)
  obtain ⟨column', hread⟩ := readFrom_charsOf hends l.assignments l.apart 1
  have htrail : readFrom column' trail.chars = .ok [] := by
    unfold readFrom
    rw [scan_trail]
    rfl
  rw [Line.write, pairs_ofList, hread, htrail]
  show Except.ok (l.pairs ++ []) = _
  rw [List.append_nil]

/-- The pairs before one that cannot be read do not help. -/
theorem Line.exists_error_of_last {l : Line} {init : List (Gap × Assignment)} {g : Gap} {a : Assignment}
    (h : l.assignments = init ++ [(g, a)])
    (hrest : ∀ column, ∃ e : Error, e.kind = .value ∧ readFrom column rest = .error e) :
    ∃ e : Error, e.kind = .value ∧ Words.pairs (String.ofList (charsOf init (g.chars ++ rest))) = .error e := by
  have hapart := l.apart
  rw [h] at hapart
  rw [pairs_ofList]
  cases init with
  | nil =>
    obtain ⟨e, hkind, he⟩ := hrest (1 + g.chars.length)
    exact ⟨e, hkind, (readFrom_gap g 1 rest).trans he⟩
  | cons p ps =>
    have hends : EndsWord (g.chars ++ rest) := Gap.endsWord (.inl (hapart (g, a) (by simp)))
    have hps : ∀ q ∈ (p :: ps).tail, q.1.chars ≠ [] := fun q hq => hapart q (List.mem_append_left _ hq)
    obtain ⟨column', hread⟩ := readFrom_charsOf hends (p :: ps) hps 1
    obtain ⟨e, hkind, he⟩ := hrest (column' + g.chars.length)
    refine ⟨e, hkind, ?_⟩
    rw [hread, readFrom_gap, he]
    rfl

/-- **A line does not read back if its last pair is cut short,** to the key or to key and literal. -/
theorem Line.exists_error_cut {l : Line} {init : List (Gap × Assignment)} {g : Gap} {a : Assignment} {cut : List Char}
    (h : l.assignments = init ++ [(g, a)]) (hcut : cut = a.opening ∨ cut = a.key.chars) (trail : Gap) :
    ∃ e : Error, e.kind = .value
      ∧ Words.pairs (String.ofList (charsOf init (g.chars ++ (cut ++ trail.chars)))) = .error e := by
  refine exists_error_of_last h fun column => ?_
  rcases hcut with rfl | rfl
  · exact readFrom_opening a trail column
  · exact readFrom_key a.key trail column

end Words

/-! ## Setting from what is written -/

open Words

variable {s path : String} {ps : List (String × String)} {e : Error}

/-- The dictionary of some pairs. -/
def dictOf (ps : List (String × String)) : Value := .dict ((tableOf ps).map fun p => (.text p.1, .text p.2))

/-- A dictionary is set from a text or a table by way of the entries of these. -/
theorem run_assign_dict {u : Update} (hu : u ≠ .plain .none) (path : String) (head : ConfigHead)
    (entries : List (String × Config)) : (assign path u).run (dict head entries)
      = (setDict (2 * (dict head entries).depth + 7) path u (dict head entries)).run (dict head entries) :=
  (run_assign path u _).trans (run_setWithin_dict hu _ path head entries)

theorem run_assign_text (h : pairs s = .ok ps) (path : String) (head : ConfigHead) (entries : List (String × Config)) :
    (assign path (.plain (.text s))).run (dict head entries)
      = (assign path (.plain (dictOf ps))).run (dict head entries) := by
  have hentries : (Update.plain (.text s)).entries path = (Update.plain (dictOf ps)).entries path := by
    rw [Update.entries, h, dictOf, Update.entries, List.map_map]
    rfl
  rw [run_assign_dict (by exact nofun), run_assign_dict (by exact nofun), setDict, setDict, hentries]

theorem run_assign_text_of_error (h : pairs s = .error e) (path : String) (head : ConfigHead)
    (entries : List (String × Config)) :
    (assign path (.plain (.text s))).run (dict head entries) = (.error e, dict head entries) := by
  have hentries : (Update.plain (.text s)).entries path = .error e := by
    rw [Update.entries, h]
    rfl
  rw [run_assign_dict (by exact nofun), setDict, hentries]
  rfl

/-- **Option strings read back to what was written,** so that to set options from a string is to set them from the dictionary
of its pairs. A string whose last pair is cut short is refused, and sets nothing. -/
theorem strings_read_back (l : Line) (trail : Gap) :
    pairs (l.write trail.chars) = .ok l.pairs
    ∧ (∀ path head entries, (assign path (.plain (.text (l.write trail.chars)))).run (.dict head entries)
        = (assign path (.plain (dictOf l.pairs))).run (.dict head entries))
    ∧ ∀ init g a, l.assignments = init ++ [(g, a)] → ∀ cut, cut = a.opening ∨ cut = a.key.chars →
        ∀ s, s = String.ofList (charsOf init (g.chars ++ (cut ++ trail.chars))) →
          ∃ e : Error, e.kind = .value ∧ pairs s = .error e
            ∧ ∀ path head entries, (assign path (.plain (.text s))).run (.dict head entries) = (.error e, .dict head entries) := by
  have hpairs := l.pairs_write trail
  refine ⟨hpairs, run_assign_text hpairs, ?_⟩
  rintro init g a hlast cut hcut _ rfl
  obtain ⟨e, hkind, he⟩ := l.exists_error_cut hlast hcut trail
  exact ⟨e, hkind, he, run_assign_text_of_error he⟩

/-- Two pairs, one text of which has a blank. -/
def twoPairs : Line where
  assignments :=
    [(.empty, { key := ⟨"tee", .bare, by decide +kernel⟩, before := .empty, literal := '=', literal_mem := by decide,
                after := .empty, value := ⟨"yes", .bare, by decide +kernel⟩ }),
     (⟨[',', ' '], by simp [isSeparator]⟩,
      { key := ⟨"max iter", .single, by decide +kernel⟩, before := ⟨[' '], by simp [isSeparator]⟩, literal := ':',
        literal_mem := by decide, after := .empty, value := ⟨"4", .bare, by decide +kernel⟩ })]
  apart := by simp

theorem strings_read_back_two : pairs "tee=yes, 'max iter' :4" = .ok [("tee", "yes"), ("max iter", "4")]
    ∧ ∃ e : Error, e.kind = .value ∧ pairs "tee=yes, 'max iter' :" = .error e := by
  have hwrite : twoPairs.write [] = "tee=yes, 'max iter' :4" := by decide +kernel
  have hpairs : twoPairs.pairs = [("tee", "yes"), ("max iter", "4")] := by decide +kernel
  obtain ⟨hread, -, hcut⟩ := strings_read_back twoPairs .empty
  obtain ⟨e, hkind, he, -⟩ := hcut [_] _ _ rfl _ (.inl rfl) _ rfl
  refine ⟨?_, e, hkind, ?_⟩
  · rw [← hwrite, ← hpairs]
    exact hread
  · refine Eq.trans (congrArg pairs ?_) he
    decide +kernel

end Config

end RobustLP
