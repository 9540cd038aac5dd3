import WorkspaceLink.Text.Printable

/-!
Quoted text: a text between double quotes, with quotes, backslashes and unprintable characters
written as escapes.
-/

namespace WorkspaceLink.Text

def hex (n : Nat) : Text :=
  Nat.toDigits 16 n

/-- How a character is written between quotes. -/
def quotedChar (c : Char) : Text :=
  if c = '\x00' then ['\\', '0']
  else if c = '\t' then ['\\', 't']
  else if c = '\n' then ['\\', 'n']
  else if c = '\r' then ['\\', 'r']
  else if c = '"' ∨ c = '\\' then ['\\', c]
  else if isPrintable c then [c]
  else ['\\', 'u', '\x7b'] ++ hex c.toNat ++ ['\x7d']

def quoted (s : Text) : Text :=
  '"' :: s.flatMap quotedChar ++ ['"']

end WorkspaceLink.Text
