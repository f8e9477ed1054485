import RobustLP.Value.Reading
import RobustLP.Error

/-!
# Closeness

Two numbers are close when their difference vanishes at a number of decimal places (`Decimal.closeTo`), or when it is
within an absolute or a relative tolerance (`Tolerance.admits`). The second notion extends to structures: two structures
are close when they have the same shape and their leaves are close (`Tolerance.compare`), otherwise the first difference
is reported with the path that leads to it.
-/

namespace RobustLP

/-! ## Decimal places -/

/-- A double rounds to zero at a number of decimal places; half a unit does. -/
def Decimal.vanishes (places : Int) (x : Float) : Bool :=
  match toRat? x with
  | none => false
  | some q =>
    let (num, den) := powTen (-places)
    let size := if q < 0 then -q else q
    decide (2 * size ≤ mkRat num den)

/-- Two doubles are equal, or their difference rounds to zero. -/
def Decimal.closeTo (places : Int) (x y : Float) : Bool := x == y || vanishes places (x - y).abs

/-! ## Tolerances -/

/-- How far apart two close numbers may be: absolutely, or relative to the larger magnitude. -/
structure Tolerance where
  absolute : Option Value := none
  relative : Option Value := none

namespace Tolerance

/-- The tolerance for which neither limit was given. -/
def standard : Tolerance := { relative := some (.float 1e-7) }

/-- The limit that stands for a number of decimal places: an integer for none or less. -/
def ofPlaces (places : Value) : Except Fault Value :=
  match places with
  | .int n => .ok (if n ≤ 0 then .int (Decimal.tenTo n.natAbs) else .float (Decimal.nearest false 1 (-n)))
  | .bool b => .ok (if b then .float (Decimal.nearest false 1 (-1)) else .int 1)
  | .float x => .ok (.float (Float.pow 10 (-x)))
  | _ => .error .badType

/-- The tolerance that arguments ask for. Places and an absolute limit exclude each other. -/
def ofArguments (places absolute relative : Option Value) : Except Error Tolerance := do
  match places, absolute with
  | some _, some _ => throw .tolerancesConflict
  | some p, none => return { absolute := some (← (ofPlaces p).mapError .fault), relative }
  | none, none => return if relative.isNone then standard else { relative }
  | none, absolute => return { absolute, relative }

/-- The larger of two doubles; the first one unless the second is larger. -/
def larger (x y : Float) : Float := if x < y then y else x

/-- A difference is at most a limit. An integer is compared as it is, however large. -/
def atMost (difference : Float) (limit : Value) : Except Fault Bool :=
  match limit with
  | .int n => .ok ((Decimal.toRat? difference).any fun q => decide (q ≤ (n : Rat)))
  | limit => do return decide (difference ≤ (← limit.operand))

/-- A difference is within the limits for two doubles. -/
def withinLimits (t : Tolerance) (x y : Float) : Except Fault Bool := do
  let difference := (x - y).abs
  let withinAbsolute ← match t.absolute with
    | some a => atMost difference a
    | none => pure false
  if withinAbsolute then return true
  match t.relative with
  | some r => return decide (difference ≤ (← r.operand) * larger x.abs y.abs)
  | none => return false

/-- Two doubles are close. -/
def admits (t : Tolerance) (x y : Float) : Except Fault Bool :=
  if x == y || (x.isNaN && y.isNaN) then .ok true else t.withinLimits x y

/-! ## Structures -/

/-- What tells two structures apart. -/
inductive Difference where
  | keys (left right : List String)
  | lengths (left right : Nat)
  | unequal (left right : String)
  | apart (left right : String)
  deriving DecidableEq, Repr

/-- A difference in words. -/
def Difference.text : Difference → String
  | keys a b => s!"keys differ ({(Value.list (a.map .text)).shown} != {(Value.list (b.map .text)).shown})"
  | lengths m n => s!"lengths differ ({m} != {n})"
  | unequal a b => s!"{a} != {b}"
  | apart a b => s!"{a} !~= {b}"

/-- The elements of a sequence. -/
def elements? : Value → Option (List Value)
  | .list xs => some xs
  | .tuple xs => some xs
  | .array xs => some (xs.map .float)
  | _ => none

/-- The value under a key. -/
def at? (key : Value) : List (Value × Value) → Option Value
  | [] => none
  | (k, v) :: rest => if key.same k then some v else at? key rest

/-- The texts of keys, sorted. -/
def keyTexts (entries : List (Value × Value)) : List String :=
  (entries.map fun e => e.1.shown).mergeSort fun a b => a ≤ b

/-- Two dictionaries have the same keys. -/
def sameKeys (xs ys : List (Value × Value)) : Bool :=
  xs.length == ys.length && xs.all fun e => (at? e.1 ys).isSome

/-- Compares two values that are no containers of one shape. -/
def compareLeaves (t : Tolerance) (path : String) (a b : Value) : Except Fault (Option (String × Difference)) :=
  match a, b with
  | .none, .none => .ok none
  | a, b =>
    match a.toFloat, b.toFloat with
    | .error .tooLarge, _ => .error .overflow
    | .ok _, .error .tooLarge => .error .overflow
    | .ok x, .ok y => do return if ← t.admits x y then none else some (path, .apart a.shown b.shown)
    | _, _ => .ok (some (path, .unequal a.shown b.shown))

/-- Compares a text with anything. -/
def compareText (path : String) (a b : Value) : Option (String × Difference) :=
  if a.same b then none else some (path, .unequal a.shown b.shown)

mutual

/-- **The first difference of two structures, with the path that leads to it;** none if they are close. -/
def compare (t : Tolerance) (path : String) (a b : Value) : Except Fault (Option (String × Difference)) :=
  match a with
  | .dict xs =>
    match b with
    | .dict ys =>
      if sameKeys xs ys then compareEntries t path xs ys else .ok (some (path, .keys (keyTexts xs) (keyTexts ys)))
    | .text s => .ok (compareText path (.dict xs) (.text s))
    | b => compareLeaves t path (.dict xs) b
  | .text s => .ok (compareText path (.text s) b)
  | .list xs =>
    match b with
    | .text s => .ok (compareText path (.list xs) (.text s))
    | b => match elements? b with
      | some ys => if xs.length = ys.length then compareAll t path 0 xs ys
          else .ok (some (path, .lengths xs.length ys.length))
      | none => compareLeaves t path (.list xs) b
  | .tuple xs =>
    match b with
    | .text s => .ok (compareText path (.tuple xs) (.text s))
    | b => match elements? b with
      | some ys => if xs.length = ys.length then compareAll t path 0 xs ys
          else .ok (some (path, .lengths xs.length ys.length))
      | none => compareLeaves t path (.tuple xs) b
  | a =>
    match b with
    | .text s => .ok (compareText path a (.text s))
    | b => compareLeaves t path a b

/-- Compares two sequences of one length entry by entry. -/
def compareAll (t : Tolerance) (path : String) (i : Nat) (as bs : List Value) :
    Except Fault (Option (String × Difference)) :=
  match as with
  | [] => .ok none
  | a :: as =>
    match bs with
    | [] => .ok none
    | b :: bs => do
      match ← compare t (path ++ "[" ++ toString i ++ "]") a b with
      | some d => return some d
      | none => compareAll t path (i + 1) as bs

/-- Compares two dictionaries with the same keys, in the order of the first one. -/
def compareEntries (t : Tolerance) (path : String) (xs ys : List (Value × Value)) :
    Except Fault (Option (String × Difference)) :=
  match xs with
  | [] => .ok none
  | (k, v) :: rest => do
    match at? k ys with
    | none => throw .noKey
    | some w =>
      match ← compare t (path ++ "[" ++ k.shown ++ "]") v w with
      | some d => return some d
      | none => compareEntries t path rest ys

end

/-- A limit as it is shown. -/
def limitText : Option Value → String
  | some v => v.display
  | none => "None"

/-- What is said of a difference. -/
def report (t : Tolerance) (note : Option String) (found : String × Difference) : String :=
  let text := s!"{found.1}: {found.2.text}\n    (compared with abs={limitText t.absolute}, rel={limitText t.relative})"
  match note with
  | some n => text ++ " : " ++ n
  | none => text

/-- Asserts that two structures are close. -/
def check (t : Tolerance) (note : Option String) (a b : Value) : Except Error Unit := do
  match ← (t.compare "first" a b).mapError .fault with
  | none => return ()
  | some found => throw (.assertion (t.report note found))

end Tolerance

end RobustLP
