import RobustLP.Error

/-!
# Option strings

Options can be given as a string. Blanks, tabs, carriage returns and commas separate its tokens; a token is

* a text in single or double quotes, in which a backslash and the character after it stay as they are and do not close it, or
* a word, a longest run of characters that are neither white space nor commas, nor one of a few extra literals, or
* one of these literals.

Any other character is refused with its column. A quote that opens no quoted text begins a word.

`words` are the texts of the tokens; `pairs` reads keys and values with `:` or `=` between them.
-/

namespace RobustLP.Config.Words

/-- What sort of token a text is. -/
inductive TokenSort where
  | quoted
  | word
  | literal
  deriving DecidableEq, Repr

/-- A token with its text (without quotes) and its column. -/
structure Token where
  sort : TokenSort
  text : String
  column : Nat
  deriving DecidableEq, Repr

/-- Characters that separate tokens. -/
def isSeparator (c : Char) : Bool := c == ' ' || c == '\t' || c == '\r' || c == ','

/-- Characters of words. -/
def isWordChar (literals : List Char) (c : Char) : Bool := !Text.isBlank c && c != ',' && !literals.contains c

/-- The inside of a quoted text up to the closing quote, and what follows that. -/
def closeQuote (quote : Char) : List Char → Option (List Char × List Char)
  | [] => none
  | '\\' :: rest =>
    match rest with
    | [] => none
    | c :: rest =>
      if c = '\n' then none else (closeQuote quote rest).map fun (inside, after) => ('\\' :: c :: inside, after)
  | c :: rest =>
    if c = quote then some ([], rest) else (closeQuote quote rest).map fun (inside, after) => (c :: inside, after)

theorem length_closeQuote {quote : Char} {cs inside after : List Char}
    (h : closeQuote quote cs = some (inside, after)) : after.length < cs.length := by
  fun_induction closeQuote quote cs generalizing inside with
  | case1 => simp at h
  | case2 => simp at h
  | case3 => simp at h
  | case4 c rest hc ih =>
    simp only [Option.map_eq_some_iff, Prod.exists, Prod.mk.injEq] at h
    obtain ⟨a, b, hab, -, rfl⟩ := h
    have := ih hab
    simp only [List.length_cons]; omega
  | case5 rest => simp at h; simp [← h.2]
  | case6 c rest hne hc ih =>
    simp only [Option.map_eq_some_iff, Prod.exists, Prod.mk.injEq] at h
    obtain ⟨a, b, hab, -, rfl⟩ := h
    have := ih hab
    simp only [List.length_cons]; omega

theorem length_dropWhile_le {α : Type} (p : α → Bool) (cs : List α) : (cs.dropWhile p).length ≤ cs.length := by
  induction cs with
  | nil => simp
  | cons c cs ih =>
    rw [List.dropWhile_cons]
    split
    · simp only [List.length_cons]; omega
    · simp

/-- A character that begins no token. -/
def unexpected (c : Char) (column : Nat) : Error :=
  .option ("Unexpected character " ++ Text.quoted (String.singleton c) ++ " at column " ++ toString column)

/-- The quoted text at the front, if there is one. -/
def quotedAt (c : Char) (rest : List Char) : Option (List Char × List Char) :=
  if c = '\'' || c = '"' then closeQuote c rest else none

/-- What could be read: tokens, and what is wrong behind them. -/
structure Scan where
  tokens : List Token := []
  failure : Option Error := none

/-- One more token at the front. -/
def Scan.cons (t : Token) (s : Scan) : Scan := { s with tokens := t :: s.tokens }

/-- The tokens of a text of which `column - 1` characters have been read. -/
def scan (literals : List Char) (column : Nat) (cs : List Char) : Scan :=
  match cs with
  | [] => {}
  | c :: rest =>
    if isSeparator c then scan literals (column + 1) rest
    else match h : quotedAt c rest with
      | some (inside, after) =>
        (scan literals (column + inside.length + 2) after).cons
          { sort := .quoted, text := String.ofList inside, column }
      | none =>
        if isWordChar literals c then
          let word := c :: rest.takeWhile (isWordChar literals)
          (scan literals (column + word.length) (rest.dropWhile (isWordChar literals))).cons
            { sort := .word, text := String.ofList word, column }
        else if literals.contains c then
          (scan literals (column + 1) rest).cons { sort := .literal, text := String.singleton c, column }
        else { failure := some (unexpected c column) }
termination_by cs.length
decreasing_by
  · simp
  · have : after.length < rest.length := by
      unfold quotedAt at h
      split at h
      · exact length_closeQuote h
      · simp at h
    simp only [List.length_cons]; omega
  · have := length_dropWhile_le (isWordChar literals) rest
    simp only [List.length_cons]; omega
  · simp

/-- **The words of an option string.** -/
def words (s : String) : Except Error (List String) :=
  let r := scan [] 1 s.toList
  match r.failure with
  | some e => .error e
  | none => .ok (r.tokens.map (·.text))

/-- The literals between keys and values. -/
def pairLiterals : List Char := [':', '=']

/-- What is wrong where tokens end too early. -/
def tooShort (failure : Option Error) (expected : String) : Error :=
  failure.getD (.option (expected ++ " but encountered end of string"))

/-- Keys and values among tokens. What is wrong with a pair shows before what is wrong behind it. -/
def pairsOf (failure : Option Error) : List Token → Except Error (List (String × String))
  | [] => match failure with
    | some e => .error e
    | none => .ok []
  | [_] => .error (tooShort failure "Expected ':' or '='")
  | key :: sep :: rest =>
    if sep.sort = .literal then
      match rest with
      | [] => .error (tooShort failure ("Expected value following '" ++ sep.text ++ "'"))
      | value :: rest => do return (key.text, value.text) :: (← pairsOf failure rest)
    else
      .error (.option ("Expected ':' or '=' but found '" ++ sep.text ++ "' at Column " ++ toString sep.column))

/-- **The keys and values of an option string.** -/
def pairs (s : String) : Except Error (List (String × String)) :=
  let r := scan pairLiterals 1 s.toList
  pairsOf r.failure r.tokens

end RobustLP.Config.Words
