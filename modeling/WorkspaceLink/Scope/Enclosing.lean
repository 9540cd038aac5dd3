import WorkspaceLink.Symbol

/-!
The symbol around a position. A symbol that contains the position gives way to its children; among
unrelated symbols the narrower wins, and of equally narrow ones the first.
-/

namespace WorkspaceLink

/-- Whether a range covers fewer lines than another or, on as many lines, fewer characters. -/
def Range.isNarrower (a b : Range) : Bool :=
  a.lineSpan < b.lineSpan || (a.lineSpan == b.lineSpan && a.charSpan < b.charSpan)

namespace DocumentSymbol

/-- The narrower of two candidates; the first, unless the second is strictly narrower. -/
def narrower? : Option DocumentSymbol → Option DocumentSymbol → Option DocumentSymbol
  | none, b => b
  | a, none => a
  | some a, some b => if b.range.isNarrower a.range then some b else some a

mutual

/-- The symbol around a position in one tree. -/
def at? (p : Position) : DocumentSymbol → Option DocumentSymbol
  | ⟨name, detail, kind, range, selectionRange, children⟩ =>
    if range.contains p then
      some ((enclosing? p children).getD ⟨name, detail, kind, range, selectionRange, children⟩)
    else none

/-- The symbol around a position in a forest. -/
def enclosing? (p : Position) : List DocumentSymbol → Option DocumentSymbol
  | [] => none
  | s :: forest => narrower? (at? p s) (enclosing? p forest)

end

end DocumentSymbol

end WorkspaceLink
