import RobustLP.Decimal.Binary

/-!
# The shortest decimal that reads back

A finite double is written with the fewest digits for which the written number, read again, is that
double. For one digit, two digits, and so on, the two neighbours of the value on that decimal grid are
tried; the first grid on which one of them lies within the interval of reals that round to the double
wins, and of two hits the nearer one.

## Layout

Numbers whose leading digit stands at a place from 10⁻⁴ to 10¹⁵ are written positionally and always show
a fraction (`2.0`); all others have an exponent of at least two digits (`1e-05`, `1e+16`).
`clamped` writes integral values as integers, with all their digits.
-/

namespace RobustLP.Decimal

/-! ## Choosing the digits -/

/-- A decimal `digits · 10 ^ exponent`. -/
structure Digits where
  digits : Nat
  exponent : Int
  deriving DecidableEq, Repr

/-- Compares `a · 2 ^ p` with `b · 10 ^ k`. -/
def comparePowers (a : Nat) (p : Int) (b : Nat) (k : Int) : Ordering :=
  let (n2, d2) := powTwo p
  let (n10, d10) := powTen k
  compare (a * n2 * d10) (b * n10 * d2)

/-- The decimal `d · 10 ^ k` is read back as the double `m · 2 ^ e`: it lies between the midpoints to the two
neighbouring doubles, which belong to the interval when `m` is even. -/
def readsBack (m : Nat) (e : Int) (d : Nat) (k : Int) : Bool :=
  let narrow := m = twoTo 52 && e > -1074
  let (low, lowExp) := if narrow then (4 * m - 1, e - 2) else (2 * m - 1, e - 1)
  let below := comparePowers low lowExp d k
  let above := comparePowers (2 * m + 1) (e - 1) d k
  if m % 2 = 0 then below != .gt && above != .lt else below == .lt && above == .gt

/-- The place of the leading digit of `m · 2 ^ e`, found from the place of its leading bit. -/
def leadingPlace (m : Nat) (e : Int) : Int :=
  let bit : Int := (m.log2 : Int) + e
  let guess : Int := Int.fdiv (bit * 30103) 100000
  if comparePowers m e 1 (guess + 1) != .lt then guess + 1
  else if comparePowers m e 1 guess == .lt then guess - 1
  else guess

/-- Tries the two neighbours of `m · 2 ^ e` on the grid of multiples of `10 ^ k`. -/
def tryGrid (m : Nat) (e k : Int) : Option Digits :=
  let (n2, d2) := powTwo e
  let (n10, d10) := powTen k
  let num := m * n2 * d10
  let den := n10 * d2
  let below := num / den
  let hitBelow := below != 0 && readsBack m e below k
  let hitAbove := readsBack m e (below + 1) k
  match hitBelow, hitAbove with
  | true, true => some ⟨roundDiv num den, k⟩
  | true, false => some ⟨below, k⟩
  | false, true => some ⟨below + 1, k⟩
  | false, false => none

/-- Removes the final zeros of a decimal. -/
def Digits.stripZeros (d : Digits) : Digits :=
  if h : d.digits ≠ 0 ∧ d.digits % 10 = 0 then
    Digits.stripZeros ⟨d.digits / 10, d.exponent + 1⟩
  else d
termination_by d.digits
decreasing_by exact Nat.div_lt_self (Nat.pos_of_ne_zero h.1) (by decide)

/-- The shortest decimal that reads back as `m · 2 ^ e`; the exact value should no grid of up to seventeen
digits do. -/
def shortest (m : Nat) (e : Int) : Digits :=
  let place := leadingPlace m e
  match (List.range 17).findSome? fun n => tryGrid m e (place - (n : Nat)) with
  | some d => d.stripZeros
  | none => if 0 ≤ e then ⟨m * twoTo e.toNat, 0⟩ else ⟨m * Nat.pow 5 (-e).toNat, e⟩

/-! ## Laying them out -/

/-- Zeros. -/
def zeros (n : Nat) : String := String.ofList (List.replicate n '0')

/-- An exponent with its sign and at least two digits. -/
def exponentText (e : Int) : String :=
  let digits := toString e.natAbs
  (if e < 0 then "-" else "+") ++ zeros (2 - digits.length) ++ digits

/-- The text of a decimal without sign. -/
def Digits.layout (d : Digits) : String :=
  let text := toString d.digits
  let n : Int := text.length
  let place := n + d.exponent - 1
  if place < -4 || 16 ≤ place then
    let rest := (text.drop 1).copy
    (text.take 1).copy ++ (if rest.isEmpty then "" else "." ++ rest) ++ "e" ++ exponentText place
  else if 0 ≤ d.exponent then text ++ zeros d.exponent.toNat ++ ".0"
  else if 0 ≤ place then
    let whole := (place + 1).toNat
    (text.take whole).copy ++ "." ++ (text.drop whole).copy
  else "0." ++ zeros (-place - 1).toNat ++ text

/-- **The shortest text that reads back.** -/
def plain (x : Float) : String :=
  match Parts.ofFloat x with
  | .nan => "nan"
  | .infinite negative => if negative then "-inf" else "inf"
  | .finite negative m e =>
    (if negative then "-" else "") ++ if m = 0 then "0.0" else (shortest m e).layout

/-- Integral values as integers, all others in their shortest text. -/
def clamped (x : Float) : String :=
  match truncate? x with
  | some n => if isIntegral x then toString n else plain x
  | none => plain x

end RobustLP.Decimal
