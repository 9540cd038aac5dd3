import WorkspaceLink.DocumentUri
import WorkspaceLink.Report.Client

/-!
The hover report: what the server shows about a position.
-/

namespace WorkspaceLink

namespace HoverReport

/-- The text of a hover, with the name of its markup before it if there is one. -/
def text (hover : Option Hover) : Text :=
  let shown : Text := match hover.filter (!·.contents.value.isEmpty) with
    | none => "No hover information available for this position"
    | some h =>
      let kind := h.contents.kind
      if kind.isEmpty then h.contents.value
      else "Kind: " ++ kind ++ "\n\n" ++ h.contents.value
  ("Hover Information\n" : Text) ++ shown

/-- Makes the report on a position, whose line and column are counted from one, and gives its text.
Zero counts as one. -/
def make (client : LanguageClient) (path : Path) (line column : Nat) : Reporting Text := do
  Reporting.need (client.openFile path)
  let hover ← Reporting.need (client.hover (.ofPath path) ⟨line - 1, column - 1⟩)
  return text hover

end HoverReport

end WorkspaceLink
