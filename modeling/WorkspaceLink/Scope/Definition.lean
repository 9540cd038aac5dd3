import WorkspaceLink.Scope.Bracket
import WorkspaceLink.Scope.Enclosing

/-!
Full definitions: the whole lines of the symbol around a position, extended to the bracket that
closes its last line.
-/

namespace WorkspaceLink

/-- The text of a definition and the range that it was taken from, which starts at the beginning
of a line. -/
structure Definition where
  text : Text
  range : Range
deriving DecidableEq

def SourceText.definitionAt (source : SourceText) (symbols : List DocumentSymbol) (p : Position) :
    Except ScopeError Definition :=
  match DocumentSymbol.enclosing? p symbols with
  | none => .error (.noEnclosingSymbol p)
  | some symbol => do
    let _ ← source.line symbol.range.stop.line
    let range := Range.extendToCloser source ⟨⟨symbol.range.start.line, 0⟩, symbol.range.stop⟩
    let text ← source.linesBetween range.start.line range.stop.line
    .ok ⟨text, range⟩

end WorkspaceLink
