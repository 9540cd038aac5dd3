import WorkspaceLink.DocumentUri
import WorkspaceLink.Report.Client

/-!
The symbols report: the symbols of a file as an indented tree.
-/

namespace WorkspaceLink

namespace SymbolsReport

/-- The lines of a symbol as they are printed after its name. -/
def lineSuffix (r : Range) : Text :=
  if r.start.line = r.stop.line then " (Line " ++ .ofNat (r.start.line + 1) ++ ")"
  else " (Lines " ++ .ofNat (r.start.line + 1) ++ "-" ++ .ofNat (r.stop.line + 1) ++ ")"

/-- The line of one symbol, indented by two spaces a level. -/
def symbolLine (numbered : Bool) (level : Nat) (name : Text) (kind : SymbolKind) (range : Range) :
    Text :=
  List.replicate (2 * level) ' ' ++ kind.label ++ " " ++ name ++
    (if numbered then lineSuffix range else []) ++ ['\n']

mutual

/-- The lines of a symbol and of the symbols nested in it. -/
def treeText (numbered : Bool) (level : Nat) : DocumentSymbol → Text
  | ⟨name, _, kind, range, _, children⟩ =>
    symbolLine numbered level name kind range ++ forestText numbered (level + 1) children

/-- The lines of symbols side by side. -/
def forestText (numbered : Bool) (level : Nat) : List DocumentSymbol → Text
  | [] => []
  | s :: ss => treeText numbered level s ++ forestText numbered level ss

end

/-- Makes the report on a file and gives its text. -/
def make (client : LanguageClient) (path : Path) (numbered : Bool) : Reporting Text := do
  Reporting.need (client.openFile path)
  let response ← Reporting.need (client.documentSymbols (.ofPath path))
  if response.isEmpty then return "No symbols found in " ++ path
  return "Symbols in " ++ path ++ "\n\n" ++ forestText numbered 0 response.toForest

end SymbolsReport

end WorkspaceLink
