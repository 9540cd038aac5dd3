import WorkspaceLink.Text.Basic

/-!
Decimal numerals: how counts are written, how they are set in a column, and how a count is read
within a bound.
-/

namespace WorkspaceLink.Text

/-- The decimal numeral of a natural number. -/
def ofNat (n : Nat) : Text :=
  Nat.toDigits 10 n

/-- The decimal numeral of an integer, with a minus sign if it is negative. -/
def ofInt : Int → Text
  | .ofNat n => ofNat n
  | .negSucc n => '-' :: ofNat (n + 1)

/-- The numeral of `n`, set to the right in a field of at least `width` characters. -/
def padded (width n : Nat) : Text :=
  (ofNat n).leftpad width ' '

/-- The value of an ASCII digit. -/
def digit? (c : Char) : Option Nat :=
  if '0' ≤ c ∧ c ≤ '9' then some (c.toNat - 48) else none

/-- The value of a nonempty run of ASCII digits. -/
def digits? (s : Text) : Option Nat :=
  if s.isEmpty then none
  else s.foldl (fun acc c => acc.bind fun n => (digit? c).map fun d => 10 * n + d) (some 0)

/-- Reads a count below `bound`: digits, which a single plus sign may precede. -/
def natBelow? (bound : Nat) (s : Text) : Option Nat :=
  (digits? (if s.head? = some '+' then s.tail else s)).filter (· < bound)

end WorkspaceLink.Text
