import WorkspaceLink.Position
import WorkspaceLink.Text.Utf8

/-!
Document URIs. A file's URI is its path after `file://`; on the way back, percent escapes are
replaced by the bytes that they stand for.
-/

namespace WorkspaceLink

abbrev Path := Text

def hexDigit? (b : UInt8) : Option UInt8 :=
  if 0x30 ≤ b ∧ b ≤ 0x39 then some (b - 0x30)
  else if 0x61 ≤ b ∧ b ≤ 0x66 then some (b - 0x61 + 10)
  else if 0x41 ≤ b ∧ b ≤ 0x46 then some (b - 0x41 + 10)
  else none

/-- Bytes with each percent sign that two hexadecimal digits follow replaced, together with them,
by the byte that they spell. Other percent signs stay. -/
def unescapeBytes : List UInt8 → List UInt8
  | [] => []
  | b :: bs =>
    if b = 0x25 then
      match bs with
      | h :: l :: rest =>
        match hexDigit? h, hexDigit? l with
        | some hi, some lo => (hi * 16 + lo) :: unescapeBytes rest
        | _, _ => b :: unescapeBytes (h :: l :: rest)
      | short => b :: short
    else b :: unescapeBytes bs

def percentDecode (s : Text) : Text :=
  if s.contains '%' then Text.decodeLossy (unescapeBytes (Text.utf8 s)) else s

/-- A character that can stand in the scheme of a URI. -/
def isSchemeChar (c : Char) : Bool :=
  c.isAlphanum || c == '+' || c == '-' || c == '.'

/-- A URI without its scheme; a text without one as it is. -/
def stripUriScheme (s : Text) : Text :=
  match Text.cut? "://" s with
  | some (scheme, rest) => if !scheme.isEmpty && scheme.all isSchemeChar then rest else s
  | none => s

namespace DocumentUri

/-- What stands before the path in the URI of a file. -/
def fileScheme : Text := "file://"

def ofPath (path : Path) : DocumentUri :=
  ⟨fileScheme ++ path⟩

/-- The path of the file that a URI names. -/
def toPath (uri : DocumentUri) : Path :=
  percentDecode ((Text.afterFront? fileScheme uri.text).getD uri.text)

end DocumentUri

end WorkspaceLink
