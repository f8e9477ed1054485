/-!
# Characters of all scripts

* White space: `isBlank` holds the white space of all scripts, `isMargin` what of it may surround a number, `isAsciiBlank` the six
  ASCII characters at which text is wrapped.
* Decimal digits: each script that writes decimal numbers has its ten digits at ten successive code points. `zeroDigits` lists the
  code points of the zeros; the value of a digit is its distance from its zero.
* Letter case: capital and small letters of the Latin (with Latin-1), Greek, Cyrillic and Armenian scripts, and the few letters of
  other places that fold into ASCII. Other characters are left as they are.
-/

namespace RobustLP.Text

/-! ## White space -/

/-- White space of any script. -/
def isBlank (c : Char) : Bool :=
  let n := c.toNat
  (0x9 ≤ n && n ≤ 0xd) || (0x1c ≤ n && n ≤ 0x20) || n == 0x85 || n == 0xa0 || n == 0x1680
    || (0x2000 ≤ n && n ≤ 0x200a) || n == 0x2028 || n == 0x2029 || n == 0x202f || n == 0x205f || n == 0x3000

/-- Tab, line feed, vertical tab, form feed, carriage return and the blank. -/
def isAsciiBlank (c : Char) : Bool := (0x9 ≤ c.toNat && c.toNat ≤ 0xd) || c == ' '

/-- Every character that is ASCII white space is white space. -/
theorem isBlank_of_isAsciiBlank {c : Char} (h : isAsciiBlank c) : isBlank c := by
  simp only [isAsciiBlank, Bool.or_eq_true, beq_iff_eq] at h
  rcases h with h | h
  · simp [isBlank, h]
  · subst h; decide

/-- Drops white space at the front. -/
def trimLeft (s : String) : String := String.ofList (s.toList.dropWhile isBlank)

/-- White space that may surround a number: the four separators of records (0x1c to 0x1f) are not among it. -/
def isMargin (c : Char) : Bool := isBlank c && !(0x1c ≤ c.toNat && c.toNat ≤ 0x1f)

/-- Drops the margins at both ends of a list of characters. -/
def trimMargins (cs : List Char) : List Char :=
  ((cs.dropWhile isMargin).reverse.dropWhile isMargin).reverse

/-- Blanks. -/
def blanks (n : Nat) : String := String.ofList (List.replicate n ' ')

/-- A character repeated. -/
def rule (c : Char) (n : Nat) : String := String.ofList (List.replicate n c)

/-- Joins texts with a separator. -/
def joinWith (sep : String) (parts : List String) : String := String.intercalate sep parts

/-- Splits at line feeds. -/
def lines (s : String) : List String := (s.splitOn "\n")

/-! ## Decimal digits -/

/-- The zeros of the decimal digits of all scripts. -/
def zeroDigits : List Nat :=
  [0x30, 0x660, 0x6f0, 0x7c0, 0x966, 0x9e6, 0xa66, 0xae6, 0xb66, 0xbe6,
   0xc66, 0xce6, 0xd66, 0xde6, 0xe50, 0xed0, 0xf20, 0x1040, 0x1090, 0x17e0,
   0x1810, 0x1946, 0x19d0, 0x1a80, 0x1a90, 0x1b50, 0x1bb0, 0x1c40, 0x1c50, 0xa620,
   0xa8d0, 0xa900, 0xa9d0, 0xa9f0, 0xaa50, 0xabf0, 0xff10, 0x104a0, 0x10d30, 0x11066,
   0x110f0, 0x11136, 0x111d0, 0x112f0, 0x11450, 0x114d0, 0x11650, 0x116c0, 0x11730, 0x118e0,
   0x11950, 0x11c50, 0x11d50, 0x11da0, 0x16a60, 0x16ac0, 0x16b50, 0x1d7ce, 0x1d7d8, 0x1d7e2,
   0x1d7ec, 0x1d7f6, 0x1e140, 0x1e2f0, 0x1e950, 0x1fbf0]

/-- The value of a decimal digit of any script. -/
def digitValue? (c : Char) : Option Nat :=
  (zeroDigits.find? fun z => z ≤ c.toNat && c.toNat < z + 10).map (c.toNat - ·)

/-- The digit of a value below ten. -/
def asciiDigit (n : Nat) : Char := Char.ofNat (0x30 + n)

/-- The ASCII form of a decimal digit; other characters stay. -/
def toAsciiDigit (c : Char) : Char :=
  match digitValue? c with
  | some n => asciiDigit n
  | none => c

/-- The ASCII digits are digits. -/
theorem digitValue?_asciiDigit {n : Nat} (h : n < 10) : digitValue? (asciiDigit n) = some n := by
  have hall : ∀ k ∈ List.range 10, digitValue? (asciiDigit k) = some k := by decide
  exact hall n (List.mem_range.mpr h)

/-! ## Letter case -/

/-- Ranges of capital letters, each with the distance to its small letters. -/
def capitalRanges : List (Nat × Nat × Nat) :=
  [(0x41, 0x5a, 32), (0xc0, 0xd6, 32), (0xd8, 0xde, 32), (0x391, 0x3a1, 32), (0x3a3, 0x3ab, 32), (0x400, 0x40f, 80),
    (0x410, 0x42f, 32), (0x531, 0x556, 48)]

/-- Ranges in which capital letters at even or odd places are followed by their small letters. -/
def pairedRanges : List (Nat × Nat) :=
  [(0x100, 0x12f), (0x132, 0x137), (0x14a, 0x177), (0x460, 0x481), (0x48a, 0x4bf), (0x4d0, 0x52f), (0x1e00, 0x1e95)]

/-- The same, where capitals stand at odd places. -/
def oddPairedRanges : List (Nat × Nat) := [(0x139, 0x148), (0x179, 0x17e), (0x4c1, 0x4ce)]

/-- A number lies in one of several ranges. -/
def inAnyRange (ranges : List (Nat × Nat)) (n : Nat) : Bool := ranges.any fun r => r.1 ≤ n && n ≤ r.2

/-- The small letter of a letter. -/
def lowerChar (c : Char) : Char :=
  let n := c.toNat
  if n = 0x212a then 'k'
  else if n = 0x212b then Char.ofNat 0xe5
  else if n = 0x178 then Char.ofNat 0xff
  else match capitalRanges.find? fun r => r.1 ≤ n && n ≤ r.2.1 with
    | some (_, _, shift) => Char.ofNat (n + shift)
    | none =>
      if (inAnyRange pairedRanges n && n % 2 = 0) || (inAnyRange oddPairedRanges n && n % 2 = 1) then Char.ofNat (n + 1)
      else c

/-- A text in small letters. -/
def lower (s : String) : String := String.ofList (s.toList.map lowerChar)

/-- A character as capital among the letters of ASCII; the long `s` is an `s`, and the dotless `i` an `i`. -/
def asciiUpperChar (c : Char) : Char :=
  if c.toNat = 0x17f then 'S' else if c.toNat = 0x131 then 'I' else c.toUpper

/-- A text whose letters of ASCII are capitals. -/
def asciiUpper (s : String) : String := String.ofList (s.toList.map asciiUpperChar)

end RobustLP.Text
