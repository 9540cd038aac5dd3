import WorkspaceLink.Text.Basic

/-!
Magnitudes of numbers. Of a decimal number the first digits count, as many as 64 bits hold. They
are rounded to double precision, and so is the power of ten that scales them; a number is out of
range if their product rounds past the largest double-precision number.
-/

namespace WorkspaceLink

/-- A whole number scaled by a power of ten. -/
structure Magnitude where
  mantissa : Nat
  exponent : Int
deriving DecidableEq

namespace Magnitude

/-- A number with one more digit at its end. -/
def appendDigit (n : Nat) (c : Char) : Nat :=
  10 * n + (c.toNat - 48)

/-- Mantissas are below this bound. -/
def mantissaLimit : Nat := 0x10000000000000000

/-- Adds digits to a mantissa while it stays below its bound. Gives the mantissa and the number of
digits left over. -/
def addDigits (mantissa : Nat) : Text → Nat × Nat
  | [] => (mantissa, 0)
  | c :: s =>
    let longer := appendDigit mantissa c
    if longer < mantissaLimit then addDigits longer s else (mantissa, s.length + 1)

/-- The magnitude of a number with these digits before and after its decimal point and this
exponent. Digits that do not fit the mantissa are dropped. -/
def ofDecimal (int frac : Text) (exponent : Int) : Magnitude :=
  let (whole, dropped) := addDigits 0 int
  let (mantissa, unused) := addDigits whole frac
  ⟨mantissa, exponent + dropped - (frac.length - unused : Nat)⟩

/-- A number rounded to 53 bits, a half to the even neighbour. -/
def toDouble (n : Nat) : Nat :=
  let unit := Nat.pow 2 (n.log2 - 52)
  let lower := n / unit
  let rest := 2 * (n % unit)
  if unit < rest ∨ (rest = unit ∧ lower % 2 = 1) then (lower + 1) * unit else lower * unit

/-- Numbers from here on round past the largest double-precision number. -/
def rangeLimit : Nat := Nat.pow 2 1024 - Nat.pow 2 970

/-- The greatest power of ten in range. -/
def exponentLimit : Nat := 308

/-- Whether a number is out of range. Division brings none out of range. -/
def isOutOfRange (m : Magnitude) : Bool :=
  match m.exponent with
  | .negSucc _ => false
  | .ofNat e =>
    m.mantissa ≠ 0 &&
      (exponentLimit < e || rangeLimit ≤ toDouble m.mantissa * toDouble (Nat.pow 10 e))

end Magnitude

end WorkspaceLink
