import RobustLP.Scalar
import RobustLP.Decimal.Binary

/-!
# The exact sum of doubles

A list of doubles is summed without intermediate rounding. The running sum is kept as *partials*: doubles of
increasing magnitude whose exact sum is the exact sum so far and no two of which share a bit position. Adding a
number replaces each partial by the rounding error of the addition (`twoSum`), and the last carry becomes the
largest partial. At the end the partials are added from the largest down, and the one rounding that remains is
corrected to the even neighbour.

## Failures

A carry that becomes infinite although the number added was finite is an overflow, even if the whole sum would be
finite. Infinite and undefined numbers are set aside and added among themselves; opposite infinities have no sum.
-/

namespace RobustLP.Decimal

/-- The rounded sum of two doubles and its rounding error. -/
def twoSum (x y : Float) : Float × Float :=
  let (big, small) := if x.abs < y.abs then (y, x) else (x, y)
  let high := big + small
  (high, small - (high - big))

/-- Adds a number to the partials, smallest first; answers the new partials without the last carry, and the carry. -/
def addPartials (x : Float) : List Float → List Float × Float
  | [] => ([], x)
  | p :: rest =>
    let (high, low) := twoSum x p
    let (partials, carry) := addPartials high rest
    (if low != 0 then low :: partials else partials, carry)

/-- The state of a sum: the partials, and the sums of the numbers that are not finite. -/
structure Partials where
  partials : List Float := []
  infinite : Float := 0
  special : Float := 0

/-- Adds one number. -/
def Partials.add (s : Partials) (x : Float) : Except Fault Partials :=
  let (partials, carry) := addPartials x s.partials
  if carry == 0 then .ok { s with partials }
  else if carry.isFinite then .ok { s with partials := partials ++ [carry] }
  else if x.isFinite then .error .overflow
  else .ok { partials := []
             infinite := if x.isInf then s.infinite + x else s.infinite
             special := s.special + x }

/-- Adds up partials, largest first, as long as nothing is lost. Answers the sum, the first rounding error and what
has not been added. -/
def collapse (high : Float) : List Float → Float × Float × List Float
  | [] => (high, 0, [])
  | p :: rest =>
    let sum := high + p
    let low := p - (sum - high)
    if low != 0 then (sum, low, rest) else collapse sum rest

/-- The double nearest to the sum of partials. -/
def roundPartials (partials : List Float) : Float :=
  match partials.reverse with
  | [] => 0
  | top :: rest =>
    let (high, low, left) := collapse top rest
    match left with
    | [] => high
    | next :: _ =>
      if (low < 0 && next < 0) || (low > 0 && next > 0) then
        let twice := low * 2
        let moved := high + twice
        if moved - high == twice then moved else high
      else high

/-- **The sum of a list of doubles, rounded once.** -/
def exactSum (xs : List Float) : Except Fault Float := do
  let s ← xs.foldlM Partials.add {}
  if s.special != 0 then
    if s.infinite.isNaN then .error .badValue else .ok s.special
  else .ok (roundPartials s.partials)

end RobustLP.Decimal
