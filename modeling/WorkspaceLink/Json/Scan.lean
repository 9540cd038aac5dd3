import WorkspaceLink.Json.Basic
import WorkspaceLink.Json.Magnitude
import WorkspaceLink.Text.Utf8

/-!
Scanning: from a text to the JSON value that it spells, as far as it spells one, and the text
after it.
-/

namespace WorkspaceLink.Json

def isSpace (c : Char) : Bool :=
  c == ' ' || c == '\n' || c == '\t' || c == '\r'

/-- A text without the blanks that it begins with. -/
def skipSpace (s : Text) : Text :=
  s.dropWhile isSpace

/-- A value and the text after it; there is none when reading stopped inside the value. -/
abbrev Scanned := Json × Option Text

/-- Reading stops here, with the same fault whether the value is wanted or passed over. -/
def stopped (f : Fault) : Scanned :=
  (.broken f f, none)

/-! ### Strings -/

/-- A part of a string: a character as it stands, or a code unit given by an escape. -/
inductive StringUnit where
  | char (c : Char)
  | code (unit : Nat)

def hexValue? (c : Char) : Option Nat :=
  if '0' ≤ c ∧ c ≤ '9' then some (c.toNat - 48)
  else if 'a' ≤ c ∧ c ≤ 'f' then some (c.toNat - 87)
  else if 'A' ≤ c ∧ c ≤ 'F' then some (c.toNat - 55)
  else none

def hexUnit? (a b c d : Char) : Option Nat := do
  return (((← hexValue? a) * 16 + (← hexValue? b)) * 16 + (← hexValue? c)) * 16 + (← hexValue? d)

/-- The character that a letter stands for after a backslash. -/
def escapeOf? (c : Char) : Option Char :=
  match c with
  | '"' => some '"'
  | '\\' => some '\\'
  | '/' => some '/'
  | 'b' => some '\x08'
  | 'f' => some '\x0c'
  | 'n' => some '\n'
  | 'r' => some '\r'
  | 't' => some '\t'
  | _ => none

/-- The fault of an escape that fewer than four characters follow: the text ends too early, unless
four bytes of it are left and they cannot be digits. -/
def shortEscapeFault (rest : Text) : Fault :=
  if 4 ≤ rest.byteCount then .malformed else .ended

/-- The parts of a string up to its closing quote, and the text after that. -/
def scanUnits : Text → List StringUnit × Except Fault Text
  | [] => ([], .error .ended)
  | '"' :: rest => ([], .ok rest)
  | '\\' :: 'u' :: a :: b :: c :: d :: rest =>
    match hexUnit? a b c d with
    | some unit =>
      let (units, fin) := scanUnits rest
      (.code unit :: units, fin)
    | none => ([], .error .malformed)
  | '\\' :: 'u' :: rest => ([], .error (shortEscapeFault rest))
  | '\\' :: c :: rest =>
    match escapeOf? c with
    | some e =>
      let (units, fin) := scanUnits rest
      (.char e :: units, fin)
    | none => ([], .error .malformed)
  | ['\\'] => ([], .error .ended)
  | c :: rest =>
    if c.toNat < 0x20 then ([], .error .malformed)
    else
      let (units, fin) := scanUnits rest
      (.char c :: units, fin)

/-- A code unit that begins a surrogate pair. -/
def isHighSurrogate (n : Nat) : Bool :=
  0xD800 ≤ n && n < 0xDC00

/-- A code unit that ends a surrogate pair. -/
def isLowSurrogate (n : Nat) : Bool :=
  0xDC00 ≤ n && n < 0xE000

/-- The characters that the parts of a string spell. Surrogates must come in pairs, except that the
last part of a string that is not `closed` may still wait for its other half. -/
def unitChars? (closed : Bool) : List StringUnit → Option Text
  | [] => some []
  | .char c :: units => (unitChars? closed units).map (c :: ·)
  | [.code n] =>
    if isHighSurrogate n then if closed then none else some []
    else if isLowSurrogate n then none
    else some [Char.ofNat n]
  | .code n :: .char c :: units =>
    if isHighSurrogate n || isLowSurrogate n then none
    else (unitChars? closed units).map fun s => Char.ofNat n :: c :: s
  | .code n :: .code m :: units =>
    if isHighSurrogate n then
      if isLowSurrogate m then
        (unitChars? closed units).map
          (Char.ofNat (0x10000 + (n - 0xD800) * 0x400 + (m - 0xDC00)) :: ·)
      else none
    else if isLowSurrogate n then none
    else (unitChars? closed (.code m :: units)).map (Char.ofNat n :: ·)

/-- The string value after its opening quote. -/
def scanString (s : Text) : Scanned :=
  match scanUnits s with
  | (units, .ok rest) =>
    match unitChars? true units with
    | some chars => (.string chars, some rest)
    | none => (.garbled, some rest)
  | (units, .error f) =>
    (.broken (if (unitChars? false units).isSome then f else .malformed) f, none)

/-! ### Numbers -/

def digitsValue (ds : Text) : Nat :=
  ds.foldl Magnitude.appendDigit 0

/-- The digits that a text begins with, and what follows them. -/
def takeDigits (s : Text) : Text × Text :=
  (s.takeWhile Char.isDigit, s.dropWhile Char.isDigit)

/-- Reading stops where a digit is wanted. A number cut off by the end of the text has ended too
early, but counts as malformed when it is passed over. -/
def digitWanted (rest : Text) : Scanned :=
  if rest.isEmpty then (.broken .ended .malformed, none) else stopped .malformed

/-- The value of a number with these integer and fraction digits and this exponent. -/
def decimalValue (int frac : Text) (exponent : Int) : Json :=
  if (Magnitude.ofDecimal int frac exponent).isOutOfRange then .garbled else .fraction

/-- A number after its exponent mark. -/
def scanExponent (int frac rest : Text) : Scanned :=
  let negative := rest.head? = some '-'
  let (ds, after) := takeDigits (if negative ∨ rest.head? = some '+' then rest.tail else rest)
  if ds.isEmpty then digitWanted after
  else
    let e : Int := digitsValue ds
    (decimalValue int frac (if negative then -e else e), some after)

/-- A number after its decimal point. -/
def scanFraction (int rest : Text) : Scanned :=
  let (frac, after) := takeDigits rest
  if frac.isEmpty then digitWanted after
  else match after with
    | 'e' :: more | 'E' :: more => scanExponent int frac more
    | _ => (decimalValue int frac 0, some after)

/-- Integers below this bound, and their negatives, need at most 64 bits with the sign. -/
def integerLimit : Nat := 0x8000000000000000

/-- The value of an integer: minus zero and what needs more than 64 bits are no integers. -/
def integerValue (negative : Bool) (int : Text) : Json :=
  let n := digitsValue int
  if negative then
    if n = 0 ∨ integerLimit < n then decimalValue int [] 0 else .number (-n)
  else if 2 * integerLimit ≤ n then decimalValue int [] 0
  else .number n

/-- A number after its sign. -/
def scanNumber (negative : Bool) (s : Text) : Scanned :=
  let (int, after) := takeDigits s
  match int with
  | [] => digitWanted after
  | '0' :: _ :: _ => stopped .malformed
  | _ =>
    match after with
    | '.' :: more => scanFraction int more
    | 'e' :: more | 'E' :: more => scanExponent int [] more
    | _ => (integerValue negative int, some after)

/-! ### Values -/

/-- A word of the grammar: it stops where a letter differs or the text ends. -/
def scanWord (value : Json) : Text → Text → Scanned
  | [], rest => (value, some rest)
  | _ :: _, [] => stopped .ended
  | w :: ws, c :: rest => if w = c then scanWord value ws rest else stopped .malformed

mutual

/-- The value that a text begins with. `fuel` bounds the number of steps. -/
def scanValue (fuel : Nat) (s : Text) : Scanned :=
  match fuel with
  | 0 => stopped .malformed
  | fuel + 1 =>
    match skipSpace s with
    | [] => stopped .ended
    | 'n' :: rest => scanWord .null "ull" rest
    | 't' :: rest => scanWord (.bool true) "rue" rest
    | 'f' :: rest => scanWord (.bool false) "alse" rest
    | '"' :: rest => scanString rest
    | '-' :: rest => scanNumber true rest
    | '[' :: rest =>
      let (items, fault, after) := scanItems fuel true rest
      (.array items fault, after)
    | '\x7b' :: rest =>
      let (members, fault, after) := scanMembers fuel true rest
      (.object members fault, after)
    | c :: rest => if c.isDigit then scanNumber false (c :: rest) else stopped .malformed

/-- The items of an array up to its closing bracket; a comma precedes each but the first. -/
def scanItems (fuel : Nat) (first : Bool) (s : Text) :
    List Json × Option Fault × Option Text :=
  match fuel with
  | 0 => ([], some .malformed, none)
  | fuel + 1 =>
    match skipSpace s with
    | [] => ([], some .ended, none)
    | ']' :: rest => ([], none, some rest)
    | c :: rest =>
      if first then scanItem fuel (c :: rest)
      else if c = ',' then
        if (skipSpace rest).head? = some ']' then ([.broken .malformed .malformed], none, none)
        else scanItem fuel rest
      else ([], some .malformed, none)

/-- An item of an array and those after it. -/
def scanItem (fuel : Nat) (s : Text) : List Json × Option Fault × Option Text :=
  match fuel with
  | 0 => ([], some .malformed, none)
  | fuel + 1 =>
    match scanValue fuel s with
    | (v, none) => ([v], none, none)
    | (v, some rest) =>
      let (vs, fault, after) := scanItems fuel false rest
      (v :: vs, fault, after)

/-- The members of an object up to its closing brace; a comma precedes each but the first. -/
def scanMembers (fuel : Nat) (first : Bool) (s : Text) :
    List (Option Text × Json) × Option Fault × Option Text :=
  match fuel with
  | 0 => ([], some .malformed, none)
  | fuel + 1 =>
    match skipSpace s with
    | [] => ([], some .ended, none)
    | '\x7d' :: rest => ([], none, some rest)
    | c :: rest =>
      if first then scanMember fuel (c :: rest)
      else if c = ',' then scanMember fuel (skipSpace rest)
      else ([], some .malformed, none)

/-- A member of an object and those after it. A member whose colon is missing keeps its key, and
stops there. -/
def scanMember (fuel : Nat) (s : Text) :
    List (Option Text × Json) × Option Fault × Option Text :=
  match fuel with
  | 0 => ([], some .malformed, none)
  | fuel + 1 =>
    match s with
    | [] => ([], some .ended, none)
    | '"' :: text =>
      match scanString text with
      | (.broken read skip, _) =>
        if read = skip then ([], some read, none) else ([(none, .broken skip skip)], none, none)
      | (key, after) =>
        let name := match key with
          | .string k => some k
          | _ => none
        match skipSpace (after.getD []) with
        | ':' :: rest =>
          match scanValue fuel rest with
          | (v, none) => ([(name, v)], none, none)
          | (v, some rest) =>
            let (vs, fault, after) := scanMembers fuel false rest
            ((name, v) :: vs, fault, after)
        | [] => ([(name, .broken .ended .ended)], none, none)
        | _ :: _ => ([(name, .broken .malformed .malformed)], none, none)
    | _ :: _ => ([], some .malformed, none)

end

/-- The value that a text begins with and the text after it. -/
def scan (s : Text) : Scanned :=
  scanValue (3 * s.length + 3) s

end WorkspaceLink.Json
