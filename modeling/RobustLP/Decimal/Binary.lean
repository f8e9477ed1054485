/-!
# Doubles taken apart and put together

A finite double is a sign, a natural number and a power of two. This module reads that form off
the bits and, in the other direction, finds the double nearest to a quotient of natural numbers.

## Rounding

`roundDiv` is the one place where a quotient is rounded: to the nearest integer, a half to the even
neighbour. Numbers beyond the range of doubles are refused (`ofRatio?` answers `none`), so that the
caller decides between an error and an infinity.
-/

namespace RobustLP.Decimal

/-! ## Rounded quotients -/

/-- The integer nearest to `num / den`; a half goes to the even neighbour. -/
def roundDiv (num den : Nat) : Nat :=
  let q := num / den
  let r := num % den
  if 2 * r < den then q
  else if den < 2 * r then q + 1
  else if q % 2 = 0 then q else q + 1

/-- A quotient without remainder is not rounded. -/
theorem roundDiv_mul_right (q : Nat) {den : Nat} (h : 0 < den) : roundDiv (q * den) den = q := by
  simp [roundDiv, Nat.mul_div_cancel _ h, h]

/-- Rounding moves a quotient by less than one. -/
theorem div_le_roundDiv (num den : Nat) : num / den ≤ roundDiv num den := by
  unfold roundDiv
  simp only
  split
  · exact Nat.le_refl _
  · split
    · exact Nat.le_succ _
    · split
      · exact Nat.le_refl _
      · exact Nat.le_succ _

theorem roundDiv_le_succ (num den : Nat) : roundDiv num den ≤ num / den + 1 := by
  unfold roundDiv
  simp only
  split
  · exact Nat.le_succ _
  · split
    · exact Nat.le_refl _
    · split
      · exact Nat.le_succ _
      · exact Nat.le_refl _

/-! ## Powers -/

/-- A power of two. -/
def twoTo (n : Nat) : Nat := Nat.pow 2 n

/-- A power of ten. -/
def tenTo (n : Nat) : Nat := Nat.pow 10 n

/-! ## The parts of a double -/

/-- A double taken apart; a finite one is `± mantissa · 2 ^ exponent`. -/
inductive Parts where
  | nan
  | infinite (negative : Bool)
  | finite (negative : Bool) (mantissa : Nat) (exponent : Int)
  deriving DecidableEq, Repr

/-- The parts that 64 bits stand for. -/
def Parts.ofBits (bits : Nat) : Parts :=
  let negative := bits / twoTo 63 % 2 == 1
  let biased : Nat := bits / twoTo 52 % twoTo 11
  let fraction : Nat := bits % twoTo 52
  if biased = 2047 then
    if fraction = 0 then .infinite negative else .nan
  else if biased = 0 then .finite negative fraction (-1074)
  else .finite negative (twoTo 52 + fraction) ((biased : Int) - 1075)

/-- The parts of a double. -/
def Parts.ofFloat (x : Float) : Parts := .ofBits x.toBits.toNat

/-- A power of two with any exponent, as numerator and denominator. -/
def powTwo (e : Int) : Nat × Nat :=
  if 0 ≤ e then (twoTo e.toNat, 1) else (1, twoTo (-e).toNat)

/-- A power of ten with any exponent, as numerator and denominator. -/
def powTen (e : Int) : Nat × Nat :=
  if 0 ≤ e then (tenTo e.toNat, 1) else (1, tenTo (-e).toNat)

/-- The exact value of a finite double. -/
def toRat? (x : Float) : Option Rat :=
  match Parts.ofFloat x with
  | .finite negative m e =>
    let (num, den) := powTwo e
    let q := mkRat ((m * num : Nat) : Int) den
    some (if negative then -q else q)
  | _ => none

/-- Neither infinite nor undefined. -/
def isFinite (x : Float) : Bool := x.isFinite

/-! ## The nearest double -/

/-- The bits of the double nearest to `num / den`, with the sign bit clear; none when that is beyond
the largest double. -/
def nearestBits? (num den : Nat) : Option Nat :=
  if num = 0 then some 0
  else
    let scaled (q : Int) : Nat × Nat :=
      let (a, b) := powTwo q
      (num * b, den * a)
    let guess : Int := (num.log2 : Int) - (den.log2 : Int) - 53
    let (a, b) := scaled guess
    let exact := if a / b < twoTo 53 then guess else guess + 1
    let q := max exact (-1074)
    let (a, b) := scaled q
    let m := roundDiv a b
    if m < twoTo 52 then some m
    else
      let bits := (q + 1075).toNat * twoTo 52 + (m - twoTo 52)
      if bits < 2047 * twoTo 52 then some bits else none

/-- The double nearest to `± num / den`; none when that is beyond the largest double. -/
def ofRatio? (negative : Bool) (num den : Nat) : Option Float :=
  (nearestBits? num den).map fun bits =>
    Float.ofBits (UInt64.ofNat (bits + if negative then twoTo 63 else 0))

/-- The double nearest to an integer; none when that is beyond the largest double. -/
def ofInt? (n : Int) : Option Float :=
  match ofRatio? false n.natAbs 1 with
  | some x => some (if n < 0 then -x else x)
  | none => none

/-- The double nearest to a rational number; none when that is beyond the largest double. -/
def ofRat? (q : Rat) : Option Float :=
  ofRatio? (q < 0) q.num.natAbs q.den

/-- Positive infinity. -/
def infinity : Float := Float.ofBits 0x7FF0000000000000

/-- The undefined number. -/
def undefined : Float := Float.ofBits 0x7FF8000000000000

/-- The integer a finite double is, dropping its fraction. -/
def truncate? (x : Float) : Option Int :=
  match Parts.ofFloat x with
  | .finite negative m e =>
    let (num, den) := powTwo e
    let n : Int := ((m * num / den : Nat) : Int)
    some (if negative then -n else n)
  | _ => none

/-- A finite double without a fraction. -/
def isIntegral (x : Float) : Bool :=
  match Parts.ofFloat x with
  | .finite _ m e =>
    let (num, den) := powTwo e
    m * num % den = 0
  | _ => false

end RobustLP.Decimal
