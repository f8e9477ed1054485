import RobustLP.Value.Reading
import RobustLP.Decimal.Fixed

/-!
# Templates

A template is a text with directives: a percent sign, optional flags, a width, a precision, and a letter that says how a value
is written; two percent signs stand for one. `Template.pieces` takes a template apart; `Template.fill` writes the values in
place of the directives, one after another or by name.

A width pads with blanks in front, with the flag `-` behind, and with the flag `0` a number with zeros behind its sign. The
precision is the greatest length of a text, the least number of digits of an integer, and for a double the number of places
or of significant digits.
-/

namespace RobustLP.Text.Template

open Decimal

/-! ## Pieces -/

/-- A width or precision: none, a number, or the next value. -/
inductive Extent where
  | absent
  | given (n : Nat)
  | next
  deriving DecidableEq, Repr

/-- The flags of a directive. -/
structure Flags where
  left : Bool
  zero : Bool
  plus : Bool
  blank : Bool
  alternate : Bool
  deriving DecidableEq, Repr

/-- A directive: how the next value, or the one of a name, is written. -/
structure Directive where
  name : Option String
  flags : Flags
  width : Extent
  precision : Extent
  letter : Char
  deriving DecidableEq, Repr

/-- A piece of a template. -/
inductive Piece where
  | literal (c : Char)
  | directive (d : Directive)
  /-- a directive without letter -/
  | broken
  deriving DecidableEq, Repr

/-- The flags at the front. -/
def flagsOf (cs : List Char) : Flags :=
  { left := cs.contains '-', zero := cs.contains '0', plus := cs.contains '+', blank := cs.contains ' '
    alternate := cs.contains '#' }

/-- A flag. -/
def isFlag (c : Char) : Bool := c == '-' || c == '0' || c == '+' || c == ' ' || c == '#'

/-- A letter for the length of a number, which says nothing here. -/
def isLengthMark (c : Char) : Bool := c == 'h' || c == 'l' || c == 'L'

/-- A name up to its closing bracket; brackets may be nested. -/
def readName (acc : List Char) : (depth : Nat) → List Char → Option (String × List Char)
  | 0, ')' :: rest => some (String.ofList acc.reverse, rest)
  | depth + 1, ')' :: rest => readName (')' :: acc) depth rest
  | depth, '(' :: rest => readName ('(' :: acc) (depth + 1) rest
  | depth, c :: rest => readName (c :: acc) depth rest
  | _, [] => none

/-- An extent at the front. -/
def readExtent : List Char → Extent × List Char
  | '*' :: rest => (.next, rest)
  | cs =>
    let (digits, rest) := Decimal.spanDigits cs
    (if digits.isEmpty then .absent else .given (Decimal.ofDigits digits), rest)

/-- A precision at the front; a point alone stands for none at all. -/
def readPrecision : List Char → Extent × List Char
  | '.' :: rest => match readExtent rest with
    | (.absent, rest) => (.given 0, rest)
    | found => found
  | cs => (.absent, cs)

/-- A directive behind its percent sign. -/
def readDirective (cs : List Char) : Option (Directive × List Char) := do
  let (name, cs) ← match cs with
    | '(' :: rest => (readName [] 0 rest).map fun (n, rest) => (some n, rest)
    | cs => some (none, cs)
  let flags := flagsOf (cs.takeWhile isFlag)
  let (width, cs) := readExtent (cs.dropWhile isFlag)
  let (precision, cs) := readPrecision cs
  let cs := match cs with
    | c :: rest => if isLengthMark c then rest else cs
    | [] => []
  match cs with
  | letter :: rest => some ({ name, flags, width, precision, letter }, rest)
  | [] => none

/-- The pieces of a template. Every piece uses up a character, so that its length bounds their number. -/
def piecesUpTo : Nat → List Char → List Piece
  | 0, _ => []
  | _ + 1, [] => []
  | n + 1, '%' :: '%' :: rest => .literal '%' :: piecesUpTo n rest
  | n + 1, '%' :: rest => match readDirective rest with
    | some (d, rest) => .directive d :: piecesUpTo n rest
    | none => [.broken]
  | n + 1, c :: rest => .literal c :: piecesUpTo n rest

/-- **The pieces of a template.** -/
def pieces (template : String) : List Piece := piecesUpTo template.length template.toList

/-! ## Values -/

/-- A signed text is padded to a width; zeros go between the sign and the rest. -/
def pad (flags : Flags) (width : Nat) (sign body : String) : String :=
  let missing := width - (sign.length + body.length)
  if flags.left then sign ++ body ++ blanks missing
  else if flags.zero then sign ++ zeros missing ++ body
  else blanks missing ++ sign ++ body

/-- The sign of a number. -/
def signOf (flags : Flags) (negative : Bool) : String :=
  if negative then "-" else if flags.plus then "+" else if flags.blank then " " else ""

/-- The integer that a directive for integers takes: a double is cut off. -/
def integerOf : Value → Except Fault Int
  | .int n => .ok n
  | .bool b => .ok (if b then 1 else 0)
  | .float x => match truncate? x with
    | some n => .ok n
    | none => .error (if x.isNaN then .badValue else .overflow)
  | _ => .error .badType

/-- The integer that a directive for digits of another base takes. -/
def wholeOf : Value → Except Fault Int
  | .int n => .ok n
  | .bool b => .ok (if b then 1 else 0)
  | _ => .error .badType

/-- An integer in a base, with a mark for the base in its alternate form. -/
def integerText (flags : Flags) (width precision base : Nat) (mark : String) (n : Int) : String :=
  let digits := String.ofList (Nat.toDigits base n.natAbs)
  let digits := zeros (precision - digits.length) ++ digits
  pad flags width (signOf flags (n < 0) ++ if flags.alternate then mark else "") digits

/-- Removes the final zeros of a fraction, and a point that is left behind. -/
def dropFraction (text : String) : String :=
  if text.toList.contains '.' then
    String.ofList (((text.toList.reverse.dropWhile (· == '0')).dropWhile (· == '.')).reverse)
  else text

/-- A magnitude in its general form: `count` significant digits, positional while the exponent allows. -/
def generalRatio (alternate : Bool) (count num den : Nat) : String :=
  let count := max count 1
  let (_, place) := significant count num den
  let trim (text : String) := if alternate then text else dropFraction text
  if -4 ≤ place && place < count then
    trim (fixedRatio (count - 1 - place).toNat num den)
  else
    let text := scientificRatio (count - 1) num den
    let digits := text.toList.takeWhile (· != 'e')
    trim (String.ofList digits) ++ String.ofList (text.toList.dropWhile (· != 'e'))

/-- A number with a point in front of its exponent, also where nothing follows the point. -/
def withPoint (text : String) : String :=
  if text.toList.contains '.' then text
  else String.ofList (text.toList.takeWhile (· != 'e') ++ '.' :: text.toList.dropWhile (· != 'e'))

/-- A double, through a layout of its magnitude. -/
def floatText (flags : Flags) (width : Nat) (capital : Bool) (layout : Nat → Nat → String) (x : Float) : String :=
  let (negative, body) := match Parts.ofFloat x with
    | .nan => (false, "nan")
    | .infinite negative => (negative, "inf")
    | .finite negative m e =>
      let (num, den) := powTwo e
      let text := layout (m * num) den
      (negative, if flags.alternate then withPoint text else text)
  pad flags width (signOf flags negative) (if capital then body.toUpper else body)

/-- A text without other than printable characters of the first hundred and twenty-eight. -/
def asciiOnly (s : String) : String :=
  String.ofList (s.toList.flatMap fun c =>
    let n := c.toNat
    if n < 0x80 then [c]
    else if n < 0x100 then '\\' :: 'x' :: hexDigits 2 n
    else if n < 0x10000 then '\\' :: 'u' :: hexDigits 4 n
    else '\\' :: 'U' :: hexDigits 8 n)

/-- A text cut to a precision and padded. -/
def cutText (flags : Flags) (width : Nat) (precision : Option Nat) (s : String) : String :=
  let s := match precision with
    | some n => String.ofList (s.toList.take n)
    | none => s
  pad { flags with zero := false } width "" s

/-- The character that a value stands for. -/
def characterOf : Value → Except Fault String
  | .int n =>
    if 0 ≤ n && n < 0x110000 then .ok (Char.ofNat n.toNat).toString else .error .overflow
  | .bool b => .ok (Char.ofNat (if b then 1 else 0)).toString
  | .text s => if s.length = 1 then .ok s else .error .badType
  | _ => .error .badType

/-- **A value in place of a directive.** -/
def write (letter : Char) (flags : Flags) (width : Nat) (precision : Option Nat) (v : Value) : Except Fault String := do
  let places := precision.getD 6
  match letter with
  | 's' => return cutText flags width precision v.display
  | 'r' => return cutText flags width precision v.shown
  | 'a' => return cutText flags width precision (asciiOnly v.shown)
  | 'c' => return cutText flags width none (← characterOf v)
  | 'd' | 'i' | 'u' => return integerText flags width (precision.getD 0) 10 "" (← integerOf v)
  | 'x' => return integerText flags width (precision.getD 0) 16 "0x" (← wholeOf v)
  | 'X' => return (integerText flags width (precision.getD 0) 16 "0x" (← wholeOf v)).toUpper
  | 'o' => return integerText flags width (precision.getD 0) 8 "0o" (← wholeOf v)
  | 'f' | 'F' => return floatText flags width (letter == 'F') (fixedRatio places) (← numberOf v)
  | 'e' | 'E' => return floatText flags width (letter == 'E') (scientificRatio places) (← numberOf v)
  | 'g' | 'G' => return floatText flags width (letter == 'G') (generalRatio flags.alternate places) (← numberOf v)
  | _ => throw .badValue
where
  /-- The double that a directive for doubles takes. -/
  numberOf (v : Value) : Except Fault Float :=
    match v with
    | .text _ => .error .badType
    | v => v.toFloat.mapError ReadingError.fault

/-! ## Filling -/

/-- The values for a template: one after another, or the entries of a single dictionary. -/
structure Arguments where
  values : List Value
  entries : Option (List (Value × Value)) := none

/-- The next value. -/
def next (values : List Value) : Except Fault (Value × List Value) :=
  match values with
  | v :: rest => .ok (v, rest)
  | [] => .error .badType

/-- The number of an extent, and the values behind it. -/
def measure (e : Extent) (values : List Value) : Except Fault (Option Int × List Value) :=
  match e with
  | .absent => .ok (none, values)
  | .given n => .ok (some n, values)
  | .next => do
    match ← next values with
    | (.int n, rest) => return (some n, rest)
    | (.bool b, rest) => return (some (if b then 1 else 0), rest)
    | _ => throw .badType

/-- The value of a directive. -/
def valueFor (args : Arguments) (name : Option String) (values : List Value) : Except Fault (Value × List Value) :=
  match name with
  | none => next values
  | some n => match args.entries with
    | none => .error .badType
    | some entries => match (Value.dict entries).valueAt? n with
      | some v => .ok (v, values)
      | none => .error .noKey

/-- Writes the pieces one after another; values must not be left over. -/
def fillPieces (args : Arguments) : List Piece → List Value → Except Fault String
  | [], values => if values.isEmpty || args.entries.isSome then .ok "" else .error .badType
  | .literal c :: rest, values => do return c.toString ++ (← fillPieces args rest values)
  | .broken :: _, _ => .error .badValue
  | .directive d :: rest, values => do
    let (width, values) ← measure d.width values
    let (precision, values) ← measure d.precision values
    let (v, values) ← valueFor args d.name values
    let flags := { d.flags with left := d.flags.left || width.any (· < 0) }
    let text ← write d.letter flags (width.getD 0).natAbs (precision.map Int.toNat) v
    return text ++ (← fillPieces args rest values)

/-- **A template with values in place of its directives.** -/
def fill (template : String) (args : Arguments) : Except Fault String :=
  fillPieces args (pieces template) args.values

end RobustLP.Text.Template
