import WorkspaceLink.Report.References
import WorkspaceLink.Scope.Definition

/-!
The definition report: the full source of every definition of a name.
-/

namespace WorkspaceLink

/-- A definition found for a symbol. -/
structure FoundDefinition where
  symbol : SymbolInformation
  definition : Definition

/-- What is to be reported about the definitions of a name. -/
structure DefinitionReport where
  name : Text
  found : List FoundDefinition

namespace DefinitionReport

/-- Whether a symbol goes by a name: it has the name or, if it is a method, its qualified name ends
in a dot and the name. -/
def goesBy (name : Text) (s : SymbolInformation) : Bool :=
  s.name = name || (s.kind = .method && ('.' :: name).isSuffixOf s.name)

/-- The definition of a symbol; there is none if its file or its symbols cannot be had. -/
def load (client : LanguageClient) (files : FileTree) (s : SymbolInformation) :
    Asked (Option FoundDefinition) := do
  let response ← Reporting.try? (client.documentSymbols s.location.uri)
  return do
    let forest := (← response).toForest
    let source ← ReferencesReport.sourceOf? files s.location.uri
    let definition ← (source.definitionAt forest s.location.range.start).toOption
    return ⟨s, definition⟩

def make (client : LanguageClient) (files : FileTree) (name : Text) :
    Reporting DefinitionReport := do
  let symbols ← Reporting.need (client.workspaceSymbols name)
  let found ← ExceptT.lift (Asked.each (load client files) (symbols.filter (goesBy name)))
  return ⟨name, found.filterMap id⟩

def definitionText (numbered : Bool) (f : FoundDefinition) : Text :=
  let container : List Text := match f.symbol.containerName with
    | some c => if c.isEmpty then [] else ["Container Name: " ++ c]
    | none => []
  let start := coordSucc f.definition.range.start.line
  let heading : List Text :=
    ["Symbol: " ++ f.symbol.name, "File: " ++ f.symbol.location.uri.toPath,
      "Kind: " ++ f.symbol.kind.name] ++ container ++
      ["Location: Lines " ++ Text.ofNat start ++ "-" ++
        Text.ofNat (coordSucc f.definition.range.stop.line)]
  Text.terminated heading ++
    (if numbered then f.definition.text.numbered start else f.definition.text)

def text (numbered : Bool) (r : DefinitionReport) : Text :=
  if r.found.isEmpty then r.name ++ " not found"
  else Text.joined "\n\n" (r.found.map (definitionText numbered))

end DefinitionReport

end WorkspaceLink
