import WorkspaceLink.Scope.SourceText
import WorkspaceLink.Text.Blank

/-!
Extension of a range to a closing bracket. Some servers end the range of a definition on the line
that opens its body; such a range is extended to the bracket that closes the body.
-/

namespace WorkspaceLink

namespace Bracket

/-- The bracket that closes an opening bracket. -/
def closerOf? (c : Char) : Option Char :=
  match c with
  | '(' => some ')'
  | '[' => some ']'
  | '{' => some '}'
  | '<' => some '>'
  | _ => none

/-- Reads a line with these closing brackets wanted, the next one first and then the rest. Gives
the column after the bracket that closes the last of them, or what is still wanted. A closing
bracket that is not the next one wanted is passed over. -/
def closeInLine (next : Char) (rest : List Char) (column : Nat) :
    Text → Nat ⊕ (Char × List Char)
  | [] => .inr (next, rest)
  | c :: s =>
    match closerOf? c with
    | some closer => closeInLine closer (next :: rest) (column + 1) s
    | none =>
      if c = next then
        match rest with
        | [] => .inl (column + 1)
        | after :: others => closeInLine after others (column + 1) s
      else closeInLine next rest (column + 1) s

/-- The position after the bracket that closes the last of those wanted, in lines from number
`n` on. -/
def closeInLines (next : Char) (rest : List Char) (n : Nat) : List Text → Option Position
  | [] => none
  | l :: ls =>
    match closeInLine next rest 0 l with
    | .inl column => some ⟨n, column⟩
    | .inr (next, rest) => closeInLines next rest (n + 1) ls

end Bracket

/-- The closing bracket that belongs to the last character of a line but for blanks. -/
def SourceText.trailingCloser? (source : SourceText) (n : Nat) : Option Char := do
  let l ← source.line? n
  let c ← l.trimEnd.getLast?
  Bracket.closerOf? c

/-- A range extended past the bracket that closes the one at the end of its last line. The range
stays if its last line ends with no opening bracket, or if the text ends before it is closed. The
new end is no further along its line than the last coordinate. -/
def Range.extendToCloser (source : SourceText) (r : Range) : Range :=
  match source.trailingCloser? r.stop.line with
  | none => r
  | some closer =>
    let n := r.stop.line + 1
    match Bracket.closeInLines closer [] n (source.lines.drop n) with
    | some p => ⟨r.start, ⟨p.line, min p.character lastCoord⟩⟩
    | none => r

end WorkspaceLink
