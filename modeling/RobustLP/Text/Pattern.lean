import RobustLP.Text.Characters

/-!
# Patterns

A pattern describes pieces of text. `ends` lists what may be left of a text behind a piece that matches; a text is found if some
rest of it begins with such a piece. Repetition goes on only while something is consumed, so that it comes to an end.

A written pattern has characters that stand for themselves, `.`, classes in brackets, escapes, groups, alternatives, the
quantifiers `*`, `+`, `?` and counts in braces, and the marks `^` and `$` for the start and the end of the text.
-/

namespace RobustLP.Text

/-! ## Patterns -/

/-- A set of characters. -/
inductive CharSet where
  | range (first last : Char)
  | digit
  | word
  | blank
  | line
  | union (a b : CharSet)
  | other (a : CharSet)
  deriving Repr

/-- A set contains a character. -/
def CharSet.contains (c : Char) : CharSet → Bool
  | range first last => first ≤ c && c ≤ last
  | digit => c.isDigit
  | word => c.isAlphanum || c == '_'
  | blank => isBlank c
  | line => c == '\n'
  | union a b => contains c a || contains c b
  | other a => !contains c a

/-- A set without members. -/
def CharSet.none : CharSet := .range '\x01' '\x00'

/-- A pattern. -/
inductive Pattern where
  | empty
  | one (s : CharSet)
  | start
  | finish
  | both (a b : Pattern)
  | either (a b : Pattern)
  | many (a : Pattern)
  deriving Repr

namespace Pattern

/-- What is left after any number of steps, each of which consumes something. -/
def closure (step : List Char → List (List Char)) : Nat → List Char → List (List Char)
  | 0, cs => [cs]
  | n + 1, cs => cs :: ((step cs).filter fun rest => rest.length < cs.length).flatMap (closure step n)

/-- **What may be left behind a piece that matches.** `whole` is the length of the whole text. -/
def ends (whole : Nat) : Pattern → List Char → List (List Char)
  | empty, cs => [cs]
  | one s, c :: cs => if s.contains c then [cs] else []
  | one _, [] => []
  | start, cs => if cs.length = whole then [cs] else []
  | finish, cs => if cs.isEmpty || cs == ['\n'] then [cs] else []
  | both a b, cs => (ends whole a cs).flatMap (ends whole b)
  | either a b, cs => ends whole a cs ++ ends whole b cs
  | many a, cs => closure (ends whole a) cs.length cs

/-- Some rest of a text begins with a piece that matches. -/
def occurs (p : Pattern) (whole : Nat) : List Char → Bool
  | [] => !(p.ends whole []).isEmpty
  | c :: cs => !(p.ends whole (c :: cs)).isEmpty || occurs p whole cs

/-- **A text contains a piece that matches.** -/
def isFoundIn (p : Pattern) (s : String) : Bool := p.occurs s.length s.toList

/-! ## Reading -/

/-- A pattern a number of times. -/
def times (a : Pattern) : Nat → Pattern
  | 0 => empty
  | n + 1 => both a (times a n)

/-- A pattern at most a number of times. -/
def atMost (a : Pattern) : Nat → Pattern
  | 0 => empty
  | n + 1 => either (both a (atMost a n)) empty

/-- The set of an escaped letter. -/
def escapedSet (c : Char) : CharSet :=
  match c with
  | 'd' => .digit
  | 'D' => .other .digit
  | 'w' => .word
  | 'W' => .other .word
  | 's' => .blank
  | 'S' => .other .blank
  | 'n' => .range '\n' '\n'
  | 't' => .range '\t' '\t'
  | c => .range c c

/-- The members of a class in brackets, up to the closing one. -/
def readMembers (acc : CharSet) : List Char → Option (CharSet × List Char)
  | ']' :: rest => some (acc, rest)
  | '\\' :: c :: rest => readMembers (.union acc (escapedSet c)) rest
  | a :: '-' :: b :: rest =>
    if b == ']' then some (.union (.union acc (.range a a)) (.range '-' '-'), rest)
    else readMembers (.union acc (.range a b)) rest
  | c :: rest => readMembers (.union acc (.range c c)) rest
  | [] => none

/-- A class in brackets. -/
def readClass : List Char → Option (CharSet × List Char)
  | '^' :: ']' :: rest => (readMembers (.range ']' ']') rest).map fun (s, rest) => (.other s, rest)
  | '^' :: rest => (readMembers .none rest).map fun (s, rest) => (.other s, rest)
  | ']' :: rest => readMembers (.range ']' ']') rest
  | rest => readMembers .none rest

/-- The digits at the front as number. -/
def readCount (cs : List Char) : Option Nat × List Char :=
  let digits := cs.takeWhile Char.isDigit
  ((String.ofList digits).toNat?, cs.dropWhile Char.isDigit)

/-- A pattern with a count in braces behind it; none if the braces hold no count. -/
def readCounted (a : Pattern) (cs : List Char) : Option (Pattern × List Char) :=
  let (least, rest) := readCount cs
  match least, rest with
  | some n, '\x7d' :: rest => some (a.times n, rest)
  | least, ',' :: rest =>
    match readCount rest with
    | (none, '\x7d' :: rest) => some (both (a.times (least.getD 0)) (many a), rest)
    | (some m, '\x7d' :: rest) => some (both (a.times (least.getD 0)) (a.atMost (m - least.getD 0)), rest)
    | _ => none
  | _, _ => none

/-- A pattern with the quantifiers behind it. -/
def readQuantifiers : Nat → Pattern → List Char → Pattern × List Char
  | 0, a, cs => (a, cs)
  | n + 1, a, cs =>
    match cs with
    | '*' :: '?' :: rest | '*' :: rest => readQuantifiers n (many a) rest
    | '+' :: '?' :: rest | '+' :: rest => readQuantifiers n (both a (many a)) rest
    | '?' :: '?' :: rest | '?' :: rest => readQuantifiers n (either a empty) rest
    | '\x7b' :: rest => match readCounted a rest with
      | some (b, rest) => readQuantifiers n b rest
      | none => (a, cs)
    | cs => (a, cs)

mutual

/-- Alternatives, up to the end or a closing bracket. `fuel` bounds the number of pieces. -/
def readAlternatives : Nat → List Char → Option (Pattern × List Char)
  | 0, _ => none
  | fuel + 1, cs => do
    let (a, rest) ← readPieces fuel empty cs
    match rest with
    | '|' :: rest =>
      let (b, rest) ← readAlternatives fuel rest
      return (either a b, rest)
    | rest => return (a, rest)

/-- Pieces one after another. -/
def readPieces : Nat → Pattern → List Char → Option (Pattern × List Char)
  | 0, _, _ => none
  | fuel + 1, acc, cs =>
    match cs with
    | [] => some (acc, [])
    | '|' :: _ | ')' :: _ => some (acc, cs)
    | cs => do
      let (a, rest) ← readPiece fuel cs
      let (a, rest) := readQuantifiers rest.length a rest
      readPieces fuel (both acc a) rest

/-- A single piece. -/
def readPiece : Nat → List Char → Option (Pattern × List Char)
  | 0, _ => none
  | fuel + 1, cs =>
    match cs with
    | '(' :: '?' :: ':' :: rest | '(' :: rest => do
      let (a, rest) ← readAlternatives fuel rest
      match rest with
      | ')' :: rest => return (a, rest)
      | _ => none
    | '[' :: rest => (readClass rest).map fun (s, rest) => (one s, rest)
    | '\\' :: c :: rest => some (one (escapedSet c), rest)
    | '.' :: rest => some (one (.other .line), rest)
    | '^' :: rest => some (start, rest)
    | '$' :: rest => some (finish, rest)
    | '*' :: _ | '+' :: _ | '?' :: _ => none
    | c :: rest => some (one (.range c c), rest)
    | [] => none

end

/-- **Reads a pattern;** none if it is not written correctly. -/
def ofText? (s : String) : Option Pattern :=
  match readAlternatives (4 * s.length + 4) s.toList with
  | some (p, []) => some p
  | _ => none

end Pattern

end RobustLP.Text
