import RobustLP.Error
import RobustLP.Scalar.Double
import RobustLP.Text.Characters
import RobustLP.Value

/-!
# Reading numbers

Numbers are read from values: from numbers, from truth values, and from texts. In a text, the margins at both ends are
dropped, the digits of all scripts count, and a single underscore may stand between two digits.

* A double is written with an optional fraction and an optional exponent, or as `inf`, `infinity` or `nan` in any
  case.
* An integer is written with digits only; a double is cut to an integer.
-/

namespace RobustLP

namespace Decimal

/-- Removes the underscores between digits; none when an underscore stands elsewhere. -/
def dropUnderscores : (afterDigit : Bool) → List Char → Option (List Char)
  | _, [] => some []
  | afterDigit, '_' :: rest =>
    match rest with
    | d :: _ => if afterDigit && d.isDigit then dropUnderscores false rest else none
    | [] => none
  | _, c :: rest => (dropUnderscores c.isDigit rest).map (c :: ·)

/-- A text made ready for reading: trimmed, with ASCII digits and without underscores. -/
def normalizeNumber (s : String) : Option (List Char) :=
  dropUnderscores false ((Text.trimMargins s.toList).map Text.toAsciiDigit)

/-- Splits off a sign; true for a minus. -/
def splitSign : List Char → Bool × List Char
  | '-' :: rest => (true, rest)
  | '+' :: rest => (false, rest)
  | cs => (false, cs)

/-- The number that decimal digits stand for. -/
def ofDigits (cs : List Char) : Nat := cs.foldl (fun n c => 10 * n + (c.toNat - 0x30)) 0

/-- The digits at the front and the rest. -/
def spanDigits (cs : List Char) : List Char × List Char := (cs.takeWhile Char.isDigit, cs.dropWhile Char.isDigit)

/-- The exponent at the end of a decimal number; zero when there is none. -/
def readExponent : List Char → Option Int
  | [] => some 0
  | c :: rest =>
    if c = 'e' || c = 'E' then
      let (negative, digits) := splitSign rest
      if digits.isEmpty || !digits.all Char.isDigit then none
      else some (if negative then -(ofDigits digits : Int) else ofDigits digits)
    else none

/-- The magnitude of a decimal number: digits with at most one point, and an exponent. -/
def readMagnitude (cs : List Char) : Option (Nat × Int) :=
  let (whole, rest) := spanDigits cs
  let (fraction, rest) := match rest with
    | '.' :: rest => spanDigits rest
    | rest => ([], rest)
  if whole.isEmpty && fraction.isEmpty then none
  else (readExponent rest).map fun e => (ofDigits (whole ++ fraction), e - fraction.length)

/-- The double nearest to `± digits · 10 ^ exponent`; infinite beyond the range. -/
def nearest (negative : Bool) (digits : Nat) (exponent : Int) : Float :=
  let magnitude :=
    if digits = 0 then 0
    else
      let place : Int := (toString digits).length + exponent
      if 400 < place then infinity
      else if place < -400 then 0
      else
        let (num, den) := powTen exponent
        (ofRatio? false (digits * num) den).getD infinity
  if negative then -magnitude else magnitude

/-- **The double a text is read as.** -/
def readFloat? (s : String) : Option Float := do
  let cs ← normalizeNumber s
  let (negative, body) := splitSign cs
  let word := String.ofList (body.map Char.toLower)
  if word == "inf" || word == "infinity" then return if negative then -infinity else infinity
  if word == "nan" then return undefined
  let (digits, exponent) ← readMagnitude body
  return nearest negative digits exponent

/-- **The integer a text is read as.** -/
def readInt? (s : String) : Option Int := do
  let cs ← normalizeNumber s
  let (negative, digits) := splitSign cs
  if digits.isEmpty || !digits.all Char.isDigit then none
  else
    let n : Int := ofDigits digits
    return if negative then -n else n

end Decimal

namespace Value

open Decimal

/-- A value read as a double. -/
def toFloat : Value → Except ReadingError Float
  | float x => .ok x
  | bool b => .ok (if b then 1 else 0)
  | int n => match ofInt? n with
    | some x => .ok x
    | Option.none => .error .tooLarge
  | text s => match readFloat? s with
    | some x => .ok x
    | Option.none => .error (.notDecimal s)
  | v => .error (.noNumber v.typeName)

/-- A value read as an integer. -/
def toInt : Value → Except ReadingError Int
  | int n => .ok n
  | bool b => .ok (if b then 1 else 0)
  | float x => match truncate? x with
    | some n => .ok n
    | Option.none => .error (if x.isNaN then .undefined else .infinite)
  | text s => match readInt? s with
    | some n => .ok n
    | Option.none => .error (.notInteger s)
  | v => .error (.noInteger v.typeName)

/-- A value as factor or summand beside doubles: only numbers and truth values are. -/
def operand : Value → Except Fault Float
  | float x => .ok x
  | bool b => .ok (if b then 1 else 0)
  | int n => match ofInt? n with
    | some x => .ok x
    | Option.none => .error .overflow
  | _ => .error .badType

/-- Reading as a double, as an error of the library. -/
def readFloat (v : Value) : Except Error Float := v.toFloat.mapError .reading

/-- A value in a truth context. -/
def truth : Value → Bool
  | none => false
  | bool b => b
  | int n => n != 0
  | float x => x != 0
  | text s => !s.isEmpty
  | list xs => !xs.isEmpty
  | tuple xs => !xs.isEmpty
  | dict xs => !xs.isEmpty
  | _ => true

end Value

end RobustLP
