import WorkspaceLink.Text.Decimal

/-!
JSON as it is read from left to right. A text may stop making sense in the middle; the value read
so far is then kept, with a mark where reading stopped, so that whoever reads it meets its first
problem first.
-/

namespace WorkspaceLink

/-- Why a text cannot be read as a value: it breaks the grammar, it ends too early, or what it
says does not fit the value wanted. -/
inductive Fault where
  | malformed | ended | unfit
deriving DecidableEq, Inhabited

def Fault.message : Fault → Text
  | malformed => "invalid JSON"
  | ended => "unexpected end of input"
  | unfit => "unexpected value"

/-- A JSON value as far as its text makes sense. An array or object that is not closed ends with a
fault. A key is absent where its text spells no characters. -/
inductive Json where
  | null
  | bool (b : Bool)
  /-- An integer of at most 64 bits. -/
  | number (n : Int)
  /-- A number that is no such integer. -/
  | fraction
  | string (s : Text)
  | array (items : List Json) (fault : Option Fault)
  | object (members : List (Option Text × Json)) (fault : Option Fault)
  /-- A string with half of a surrogate pair, or a number out of range: nothing to be read, but
  it can be passed over. -/
  | garbled
  /-- Where the text stops making sense: the fault met by reading and the one met by passing
  over. -/
  | broken (read skip : Fault)
deriving Inhabited

namespace Json

/-- An array that is closed. -/
def list (items : List Json) : Json :=
  .array items none

/-- An object that is closed. -/
def record (members : List (String × Json)) : Json :=
  .object (members.map fun (k, v) => (some k.toList, v)) none

/-- A natural number as a value. -/
def nat (n : Nat) : Json :=
  .number n

/-- How a character is written in a string: quotes, backslashes and controls are escaped. -/
def escaped (c : Char) : Text :=
  if c = '"' then ['\\', '"']
  else if c = '\\' then ['\\', '\\']
  else if c = '\x08' then ['\\', 'b']
  else if c = '\x0c' then ['\\', 'f']
  else if c = '\n' then ['\\', 'n']
  else if c = '\r' then ['\\', 'r']
  else if c = '\t' then ['\\', 't']
  else if c.toNat < 0x20 then ['\\', 'u'] ++ (Nat.toDigits 16 c.toNat).leftpad 4 '0'
  else [c]

def quote (s : Text) : Text :=
  '"' :: s.flatMap escaped ++ ['"']

mutual

/-- The shortest text of a value, without blanks. What cannot be read is written `null`. -/
def compact : Json → Text
  | null => "null"
  | bool true => "true"
  | bool false => "false"
  | number n => .ofInt n
  | fraction => "null"
  | string s => quote s
  | array items _ => '[' :: compactItems items ++ [']']
  | object members _ => '\x7b' :: compactMembers members ++ ['\x7d']
  | garbled => "null"
  | broken _ _ => "null"

/-- The items of an array with commas between them. -/
def compactItems : List Json → Text
  | [] => []
  | [v] => compact v
  | v :: w :: vs => compact v ++ ',' :: compactItems (w :: vs)

/-- The members of an object with commas between them. -/
def compactMembers : List (Option Text × Json) → Text
  | [] => []
  | [(k, v)] => quote (k.getD []) ++ ':' :: compact v
  | (k, v) :: w :: vs => quote (k.getD []) ++ ':' :: compact v ++ ',' :: compactMembers (w :: vs)

end

end Json

end WorkspaceLink
