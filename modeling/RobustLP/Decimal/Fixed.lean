import RobustLP.Decimal.Shortest

/-!
# Decimals with a fixed number of places

Both layouts round the exact binary value, a half to the even neighbour: `fixed 3` keeps three places
after the point, `scientific 4` keeps four places after the leading digit and writes the exponent.
-/

namespace RobustLP.Decimal

/-- The digits of `n` with at least `width` of them. -/
def padded (width n : Nat) : String :=
  let text := toString n
  zeros (width - text.length) ++ text

/-- `num / den` with `places` digits after the point. -/
def fixedRatio (places num den : Nat) : String :=
  let scaled := roundDiv (num * tenTo places) den
  let whole := toString (scaled / tenTo places)
  if places = 0 then whole else whole ++ "." ++ padded places (scaled % tenTo places)

/-- Finds the place of the leading digit of `num / den`, starting from a guess. -/
def settlePlace (num den : Nat) (guess : Int) : Nat → Int
  | 0 => guess
  | tries + 1 =>
    let (a, b) := powTen guess
    let (c, d) := powTen (guess + 1)
    if num * b < den * a then settlePlace num den (guess - 1) tries
    else if den * c ≤ num * d then settlePlace num den (guess + 1) tries
    else guess

/-- The digits and the place of `num / den` rounded to `count` significant digits. -/
def significant (count num den : Nat) : Nat × Int :=
  if num = 0 then (0, 0)
  else
    let bit : Int := (num.log2 : Int) - den.log2
    let place := settlePlace num den (Int.fdiv (bit * 30103) 100000) 4
    let (a, b) := powTen (place - (count - 1 : Nat))
    let rounded := roundDiv (num * b) (den * a)
    if rounded < tenTo count then (rounded, place) else (rounded / 10, place + 1)

/-- A non-negative ratio with `places` digits after the leading one. -/
def scientificRatio (places num den : Nat) : String :=
  let (digits, place) := significant (places + 1) num den
  let text := padded (places + 1) digits
  let rest := (text.drop 1).copy
  (text.take 1).copy ++ (if rest.isEmpty then "" else "." ++ rest) ++ "e" ++ exponentText place

/-- Writes a double through a layout of its magnitude. -/
def withSign (layout : Nat → Nat → String) (x : Float) : String :=
  match Parts.ofFloat x with
  | .nan => "nan"
  | .infinite negative => if negative then "-inf" else "inf"
  | .finite negative m e =>
    let (num, den) := powTwo e
    (if negative then "-" else "") ++ layout (m * num) den

/-- **A double with `places` digits after the point.** -/
def fixed (places : Nat) (x : Float) : String := withSign (fixedRatio places) x

/-- **A double with one digit before and `places` digits after the point, and an exponent.** -/
def scientific (places : Nat) (x : Float) : String := withSign (scientificRatio places) x

/-- As `scientific`, a blank taking the place of a missing sign. -/
def scientificSpaced (places : Nat) (x : Float) : String :=
  let text := scientific places x
  if text.startsWith "-" then text else " " ++ text

/-- Blanks in front, up to a width. -/
def alignRight (width : Nat) (text : String) : String :=
  String.ofList (List.replicate (width - text.length) ' ') ++ text

/-- Blanks behind, up to a width. -/
def alignLeft (width : Nat) (text : String) : String :=
  text ++ String.ofList (List.replicate (width - text.length) ' ')

end RobustLP.Decimal
