import WorkspaceLink.Report.Definition
import WorkspaceLink.Text.Blank

/-!
The diagnostics report: what the server finds in a file, each finding with the line or the whole
definition that it is about.
-/

namespace WorkspaceLink

namespace DiagnosticsReport

/-- A line longer than this is clipped. -/
def contextLimit : Nat := 80

/-- The marks of what is clipped away. -/
def ellipsis : Text := "..."

/-- A line without the blanks at its ends, clipped around a column if it is long. -/
def clip (l : Text) (column : Nat) : Text :=
  let l := l.trim
  if l.length ≤ contextLimit then l
  else
    let l := if contextLimit / 2 < column then ellipsis ++ l.drop (column - contextLimit / 2) else l
    if contextLimit < l.length then l.take contextLimit ++ ellipsis else l

/-- The line that a diagnostic is about. -/
def lineContext? (source : SourceText) (d : Diagnostic) : Option Text :=
  (source.line? d.range.start.line).map fun l => clip l d.range.start.character

/-- The definition that a diagnostic is in. -/
def definitionContext? (source : SourceText) (forest : List DocumentSymbol) (numbered : Bool)
    (d : Diagnostic) : Option Text :=
  match source.definitionAt forest d.range.start with
  | .ok definition =>
    if numbered then some (definition.text.numbered (coordSucc definition.range.start.line))
    else some definition.text
  | .error _ => none

/-- What a report on diagnostics is made of: the file, its text if it can be read, and its symbols
if whole definitions are to be shown. -/
structure Context where
  source : Option SourceText
  forest : Option (List DocumentSymbol)
  numbered : Bool

/-- The code that is shown with a diagnostic. -/
def context? (c : Context) (d : Diagnostic) : Option Text := do
  let source ← c.source
  let definition := c.forest.bind fun forest => definitionContext? source forest c.numbered d
  definition <|> lineContext? source d

/-- The details of a diagnostic: its source and its code. -/
def details (d : Diagnostic) : List Text :=
  (match d.source with
    | some s => if s.isEmpty then [] else ["Source: " ++ s]
    | none => []) ++
  (match d.code with
    | some code => ["Code: " ++ code.toText]
    | none => [])

def entryLines (c : Context) (number : Nat) (d : Diagnostic) : List Text :=
  let severity : Text := match d.severity with
    | some s => s.label
    | none => "UNKNOWN"
  let title := .ofNat number ++ ". [" ++ severity ++ "] " ++
    ReferencesReport.printPosition d.range.start ++ " - " ++ d.message
  let details := details d
  let code := (context? c d).getD []
  [title] ++ (if details.isEmpty then [] else ["   " ++ Text.joined ", " details]) ++
    (if code.isEmpty then [] else ["   > " ++ code.trimEnd])

/-- Makes the report on a file and gives its text. Symbols that cannot be had count as none. -/
def make (client : LanguageClient) (files : FileTree) (path : Path)
    (includeContext numbered : Bool) : Reporting Text := do
  Reporting.need (client.openFile path)
  let diagnostics ← Reporting.need (client.diagnostics (.ofPath path))
  if diagnostics.isEmpty then return "No diagnostics found for " ++ path
  let source := (SourceText.read files path).toOption
  let forest ← if includeContext then
      ExceptT.lift do
        let response ← Reporting.try? (client.documentSymbols (.ofPath path))
        return some (response.getD .empty).toForest
    else pure none
  let entries := diagnostics.mapIdx fun i d => entryLines ⟨source, forest, numbered⟩ (i + 1) d
  return Text.terminated
    (("Diagnostics for " ++ path ++ " (" ++ .ofNat diagnostics.length ++ " issues)") ::
      entries.flatten)

end DiagnosticsReport

end WorkspaceLink
