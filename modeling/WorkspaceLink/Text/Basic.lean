/-!
Texts as lists of characters: affixes, cuts at the first separator, and runs of characters dropped
from either end.
-/

namespace WorkspaceLink

/-- A text is the list of its characters. -/
abbrev Text := List Char

instance : Coe String Text := ⟨String.toList⟩

namespace Text

/-- What follows `front` in `s`, if `s` begins with it. -/
def afterFront? (front s : Text) : Option Text :=
  front.isPrefixOf? s

/-- The parts of a text before and after the first occurrence of `sep`. -/
def cut? (sep : Text) : Text → Option (Text × Text)
  | [] => if sep.isEmpty then some ([], []) else none
  | c :: s =>
    match afterFront? sep (c :: s) with
    | some rest => some ([], rest)
    | none => (cut? sep s).map fun (before, rest) => (c :: before, rest)

/-- `s` without the characters at its end that satisfy `p`. -/
def dropEndWhile (p : Char → Bool) (s : Text) : Text :=
  (s.reverse.dropWhile p).reverse

/-- `s` with every occurrence of `a` changed to `b`. -/
def exchange (a b : Char) (s : Text) : Text :=
  s.map fun c => if c = a then b else c

/-- A text with each carriage return before a newline removed. -/
def normalizeNewlines : Text → Text
  | '\r' :: '\n' :: s => '\n' :: normalizeNewlines s
  | c :: s => c :: normalizeNewlines s
  | [] => []

/-- The lines of a text: its pieces between newlines, so that a final newline starts an empty
last line. -/
def lines (s : Text) : List Text :=
  s.splitOn '\n'

/-- Lines put together with a newline between neighbours. -/
def ofLines (ls : List Text) : Text :=
  ['\n'].intercalate ls

/-- Lines put together with a newline after each. -/
def terminated (ls : List Text) : Text :=
  ls.flatMap (· ++ ['\n'])

/-- Texts put together with `sep` between neighbours. -/
def joined (sep : Text) (parts : List Text) : Text :=
  sep.intercalate parts

end Text

end WorkspaceLink
