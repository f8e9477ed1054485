import RobustLP.Proofs.Config.Strings

/-!
# Lists that are written as strings

A list of texts is written as one string (`Config.Words.Listing`): each item as a word or in quotes, and between items a run of
blanks, tabs, carriage returns, line feeds and commas, also at both ends. The domain of lists of texts reads such a string back as
the items, in order, unless a run has a line feed (`Config.cast_listing`). Line feeds end words, but they are not skipped between
them: the first one in a run is refused with its column. In quotes, they are characters like others.
-/

namespace RobustLP

namespace Config

namespace Words

/-! ## Writing -/

/-- What stands between items. -/
structure Run where
  chars : List Char
  between : ∀ c ∈ chars, c ∈ [' ', '\t', '\r', '\n', ',']

/-- The items of a style. Without quotes, an item must be a word; in quotes, it must not close or escape them. -/
def Style.Lists (style : Style) (text : String) : Prop :=
  match style.quote? with
  | some quote => '\\' ∉ text.toList ∧ quote ∉ text.toList
  | none => text.toList ≠ [] ∧ (∀ c ∈ text.toList, Text.isBlank c = false ∧ c ≠ ',')
      ∧ ∀ c ∈ text.toList.head?, c ≠ '\'' ∧ c ≠ '"'

/-- An item as it is written. -/
structure Item where
  text : String
  style : Style
  lists : style.Lists text

/-- The characters of an item as it is written. -/
def Item.chars (i : Item) : List Char := i.style.quote?.toList ++ i.text.toList ++ i.style.quote?.toList

/-- Items, each with the run before it, and the run behind them. Between items there is one. -/
structure Listing where
  items : List (Run × Item)
  trail : Run
  apart : ∀ p ∈ items.tail, p.1.chars ≠ []

/-- The characters of items, and what follows them. -/
def listed (items : List (Run × Item)) (rest : List Char) : List Char :=
  items.foldr (fun p rest => p.1.chars ++ (p.2.chars ++ rest)) rest

/-- The characters before the first line feed between items, if there is one. -/
def feedIn (trail : Run) : List (Run × Item) → Option Nat
  | [] => trail.chars.idxOf? '\n'
  | (run, item) :: items => match run.chars.idxOf? '\n' with
    | some n => some n
    | none => (feedIn trail items).map (run.chars.length + item.chars.length + ·)

namespace Listing

/-- The string of a listing. -/
def write (l : Listing) : String := String.ofList (listed l.items l.trail.chars)

/-- The texts of the items. -/
def texts (l : Listing) : List String := l.items.map fun p => p.2.text

/-- All runs, that behind the items included. -/
def runs (l : Listing) : List Run := l.items.map (·.1) ++ [l.trail]

/-- The characters before the first line feed in a run, if there is one. -/
def feed? (l : Listing) : Option Nat := feedIn l.trail l.items

end Listing

theorem feedIn_eq_none {trail : Run} : ∀ {items : List (Run × Item)},
    feedIn trail items = none ↔ ∀ r ∈ items.map (·.1) ++ [trail], '\n' ∉ r.chars
  | [] => by simp [feedIn, List.idxOf?_eq_none_iff]
  | (run, item) :: items => by
    rw [feedIn, List.map_cons, List.cons_append, List.forall_mem_cons, ← feedIn_eq_none, ← List.idxOf?_eq_none_iff]
    cases run.chars.idxOf? '\n' <;> simp

/-- No run of a listing has a line feed. -/
theorem Listing.feed?_eq_none {l : Listing} : l.feed? = none ↔ ∀ r ∈ l.runs, '\n' ∉ r.chars := feedIn_eq_none

/-! ## Reading -/

variable {column : Nat} {c : Char} {rest : List Char}

/-- The words of characters of which the first stands in some column. -/
def wordsFrom (column : Nat) (cs : List Char) : Except Error (List String) :=
  match (scan [] column cs).failure with
  | some e => .error e
  | none => .ok ((scan [] column cs).tokens.map (·.text))

theorem words_ofList (cs : List Char) : words (String.ofList cs) = wordsFrom 1 cs := by
  rw [words, String.toList_ofList]
  rfl

theorem wordsFrom_cons {column' : Nat} {cs : List Char} {token : Token}
    (h : scan [] column cs = (scan [] column' rest).cons token) :
    wordsFrom column cs = (token.text :: ·) <$> wordsFrom column' rest := by
  unfold wordsFrom
  rw [h, Scan.cons]
  dsimp only
  cases (scan [] column' rest).failure <;> rfl

/-- A line feed is no token and separates none. -/
theorem wordsFrom_feed (column : Nat) (rest : List Char) :
    wordsFrom column ('\n' :: rest) = .error (unexpected '\n' column) := by
  have hscan : scan [] column ('\n' :: rest) = { failure := some (unexpected '\n' column) } := by
    rw [scan, if_neg (by decide)]
    rfl
  unfold wordsFrom
  rw [hscan]

/-- What is read, unless there is a line feed so many characters behind a column. -/
def unlessFeed (column : Nat) (read : Except Error (List String)) : Option Nat → Except Error (List String)
  | none => read
  | some n => .error (unexpected '\n' (column + n))

/-- A run is skipped up to its first line feed. -/
theorem wordsFrom_run : ∀ (cs : List Char), (∀ c ∈ cs, c ∈ [' ', '\t', '\r', '\n', ',']) → ∀ (column : Nat) (rest : List Char),
    wordsFrom column (cs ++ rest) = unlessFeed column (wordsFrom (column + cs.length) rest) (cs.idxOf? '\n')
  | [], _, _, _ => rfl
  | c :: cs, h, column, rest => by
    rw [List.forall_mem_cons] at h
    rw [List.cons_append, List.idxOf?_cons]
    by_cases hc : c = '\n'
    · subst hc
      rw [wordsFrom_feed]
      rfl
    · have hsep : isSeparator c = true := by
        have hmem := h.1
        simp only [List.mem_cons, hc, false_or, List.not_mem_nil, or_false] at hmem
        rcases hmem with rfl | rfl | rfl | rfl <;> rfl
      have hskip : wordsFrom column (c :: (cs ++ rest)) = wordsFrom (column + 1) (cs ++ rest) := by
        unfold wordsFrom
        rw [scan_separator hsep]
      rw [hskip, wordsFrom_run cs h.2, if_neg (by simpa using hc), List.length_cons]
      cases cs.idxOf? '\n' with
      | none =>
        rw [Nat.add_assoc, Nat.add_comm 1]
        rfl
      | some n =>
        dsimp only [Option.map_some, unlessFeed]
        rw [Nat.add_assoc, Nat.add_comm 1]

/-- Nothing goes on with an item. -/
def EndsItem (rest : List Char) : Prop := ∀ c ∈ rest.head?, isWordChar [] c = false

theorem endsItem_nil : EndsItem [] := by simp [EndsItem]

/-- An item is read as its text. -/
theorem wordsFrom_item (i : Item) (hrest : EndsItem rest) (column : Nat) :
    wordsFrom column (i.chars ++ rest) = (i.text :: ·) <$> wordsFrom (column + i.chars.length) rest := by
  obtain ⟨text, style, hlists⟩ := i
  cases style with
  | single =>
    obtain ⟨hescape, hinside⟩ := hlists
    have hscan := wordsFrom_cons (scan_enclosed (.inl rfl) hescape hinside column rest)
    simpa [Item.chars, Style.quote?, Nat.add_assoc] using hscan
  | double =>
    obtain ⟨hescape, hinside⟩ := hlists
    have hscan := wordsFrom_cons (scan_enclosed (.inr rfl) hescape hinside column rest)
    simpa [Item.chars, Style.quote?, Nat.add_assoc] using hscan
  | bare =>
    obtain ⟨hne, hchars, hquote⟩ := hlists
    have hword : ∀ c ∈ text.toList, isWordChar [] c = true := by
      intro c hc
      obtain ⟨hblank, hcomma⟩ := hchars c hc
      simp [isWordChar, hblank, hcomma]
    have hscan := wordsFrom_cons (scan_bare hne hword hquote hrest column)
    simpa [Item.chars, Style.quote?] using hscan

/-- The characters of runs go on with no item. -/
theorem Run.endsItem {r : Run} (h : r.chars ≠ [] ∨ EndsItem rest) : EndsItem (r.chars ++ rest) := by
  cases hr : r.chars with
  | nil => exact h.resolve_left (fun hne => hne hr)
  | cons c cs =>
    rintro c' hc'
    cases hc'
    have hmem := r.between c (hr ▸ List.mem_cons_self)
    simp only [List.mem_cons, List.not_mem_nil, or_false] at hmem
    rcases hmem with rfl | rfl | rfl | rfl | rfl <;> decide

/-- Items are read up to the first line feed between them. -/
theorem wordsFrom_listed (trail : Run) (items : List (Run × Item)) (hapart : ∀ p ∈ items.tail, p.1.chars ≠ []) (column : Nat) :
    wordsFrom column (listed items trail.chars) = unlessFeed column (.ok (items.map fun p => p.2.text)) (feedIn trail items) := by
  induction items generalizing column with
  | nil =>
    have hrun := wordsFrom_run trail.chars trail.between column []
    rw [List.append_nil] at hrun
    rw [listed, List.foldr_nil, hrun, feedIn]
    cases trail.chars.idxOf? '\n' with
    | some n => rfl
    | none =>
      unfold wordsFrom
      rw [scan]
      rfl
  | cons p items ih =>
    obtain ⟨run, item⟩ := p
    have hends : EndsItem (listed items trail.chars) := by
      cases items with
      | nil => exact List.append_nil trail.chars ▸ Run.endsItem (.inr endsItem_nil)
      | cons p items => exact Run.endsItem (.inl (hapart p List.mem_cons_self))
    show wordsFrom column (run.chars ++ (item.chars ++ listed items trail.chars)) = _
    rw [wordsFrom_run run.chars run.between, feedIn]
    cases run.chars.idxOf? '\n' with
    | some n => rfl
    | none =>
      have hitems := ih (fun p hp => hapart p (List.mem_of_mem_tail hp)) (column + run.chars.length + item.chars.length)
      rw [unlessFeed, wordsFrom_item item hends, hitems]
      cases feedIn trail items with
      | none => rfl
      | some n =>
        dsimp only [Option.map_some, unlessFeed]
        rw [Nat.add_assoc, Nat.add_assoc, Nat.add_assoc]
        rfl

end Words

/-! ## Lists of texts -/

open Words

/-- A list of texts from a string has the words of the string. -/
theorem cast_text (s : String) : (OptionDomain.listOf .str none true).cast (.text s)
    = (words s).map fun ws => .list (ws.map .text) := by
  show (((words s).map fun ws => ws.map Value.text) >>= fun items =>
    (items.mapM fun x => PlainType.str.convert x) >>= fun xs => pure (Value.list xs)) = _
  cases words s with
  | error e => rfl
  | ok ws =>
    have hitems : (ws.map Value.text).mapM (fun x => PlainType.str.convert x) = .ok ((ws.map Value.text).map id) :=
      mapM_ok_map fun x hx => by
        obtain ⟨w, -, rfl⟩ := List.mem_map.mp hx
        rfl
    show ((ws.map Value.text).mapM fun x => PlainType.str.convert x) >>= (fun xs => pure (Value.list xs)) = _
    rw [hitems, List.map_id]
    rfl

/-- **A list that is written as a string** reads back as the texts of its items, in order, if no run has a line feed. The first
line feed in a run is refused with its column. -/
theorem cast_listing (l : Listing) : (l.feed? = none ↔ ∀ r ∈ l.runs, '\n' ∉ r.chars) ∧
    (OptionDomain.listOf .str none true).cast (.text l.write) = match l.feed? with
      | none => .ok (.list (l.texts.map .text))
      | some n => .error (unexpected '\n' (n + 1)) := by
  refine ⟨Listing.feed?_eq_none, ?_⟩
  have hread := wordsFrom_listed l.trail l.items l.apart 1
  rw [cast_text, Listing.write, words_ofList, hread, Listing.feed?]
  cases feedIn l.trail l.items with
  | none => rfl
  | some n =>
    dsimp only
    rw [Nat.add_comm n 1]
    rfl

/-- Two words with a line feed between them. -/
def twoWords : Listing where
  items := [(⟨[], nofun⟩, ⟨"a", .bare, by simp [Style.Lists, Style.quote?, Text.isBlank]⟩),
    (⟨['\n'], by simp⟩, ⟨"b", .bare, by simp [Style.Lists, Style.quote?, Text.isBlank]⟩)]
  trail := ⟨[], nofun⟩
  apart := by simp

theorem line_feed_refused : twoWords.write = "a\nb" ∧ twoWords.texts = ["a", "b"] ∧
    (OptionDomain.listOf .str none true).cast (.text "a\nb")
      = .error (.option "Unexpected character '\\n' at column 2") := by
  have hwrite : twoWords.write = "a\nb" := by decide +kernel
  have hwords : words "a\nb" = .error (unexpected '\n' 2) := by
    rw [← hwrite, Listing.write, words_ofList, wordsFrom_listed _ _ twoWords.apart]
    rfl
  refine ⟨hwrite, by decide +kernel, ?_⟩
  rw [cast_text, hwords]
  rfl

end Config

end RobustLP
