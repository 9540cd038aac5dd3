import WorkspaceLink.Report.Client
import WorkspaceLink.Scope.Grouping
import WorkspaceLink.Scope.SourceFile
import WorkspaceLink.Scope.Window

/-!
The references report: all references to a name, by file and by scope.
-/

namespace WorkspaceLink

structure FileSection where
  uri : DocumentUri
  count : Nat
  scopes : List Scope

/-- What is to be reported about the references to a name. -/
inductive ReferencesReport where
  /-- The name is not defined. -/
  | undefined (name : Text)
  /-- The name has so many definitions, and no references. -/
  | unused (name : Text) (definitions : Nat)
  /-- The references, by file in the order of URIs. -/
  | used (name : Text) (total : Nat) (files : List FileSection)

namespace ReferencesReport

/-- The places where a name is defined, each once. A symbol without a range is no definition. -/
def definitions (name : Text) (symbols : List SymbolInformation) : List Location :=
  ((symbols.filter fun s => s.name = name && !s.location.range.isZero).map (·.location)).eraseDups

/-- The URIs of references, each once, in ascending order. -/
def uris (references : List Location) : List DocumentUri :=
  (references.map (·.uri)).eraseDups.mergeSort fun a b => (compare a b).isLE

/-- The positions of the references in one file, in ascending order. -/
def positionsIn (uri : DocumentUri) (references : List Location) : List Position :=
  Position.sort ((references.filter (·.uri = uri)).map (·.range.start))

/-- The text of the file that a URI names, if it can be read. -/
def sourceOf? (files : FileTree) (uri : DocumentUri) : Option SourceText :=
  (SourceText.read files uri.toPath).toOption

/-- The references in one file by scope. Without the symbols of the file they get windows. -/
def section? (client : LanguageClient) (files : FileTree) (settings : RenderSettings)
    (references : List Location) (uri : DocumentUri) : Asked FileSection := do
  let response ← Reporting.try? (client.documentSymbols uri)
  let positions := positionsIn uri references
  let scopes := groupReferences ((response.getD .empty).toForest) (sourceOf? files uri) positions
    settings
  return ⟨uri, positions.length, scopes⟩

/-- Makes the report. Definitions whose references cannot be had contribute none. -/
def make (client : LanguageClient) (files : FileTree) (settings : RenderSettings) (name : Text) :
    Reporting ReferencesReport := do
  let symbols ← Reporting.need (client.workspaceSymbols name)
  let found := definitions name symbols
  if found.isEmpty then return .undefined name
  let answers ← ExceptT.lift (Asked.each
    (fun d => Reporting.try? (client.references d.uri d.range.start)) found)
  let references := answers.flatMap (·.getD [])
  if references.isEmpty then return .unused name found.length
  let sections ← ExceptT.lift (Asked.each (section? client files settings references)
    (uris references))
  return .used name references.length sections

def printPosition (p : Position) : Text :=
  "L" ++ .ofNat (coordSucc p.line) ++ ":C" ++ .ofNat (coordSucc p.character)

/-- A list cut into pieces of `n + 1` elements, but for the last, which may be shorter. `fuel`
bounds the number of pieces. -/
def chunks {α : Type} (n : Nat) : Nat → List α → List (List α)
  | 0, _ => []
  | _, [] => []
  | fuel + 1, a :: as => (a :: as.take n) :: chunks n fuel (as.drop n)

/-- The lines that list the positions of a scope's references. -/
def positionLines (settings : RenderSettings) (ps : List Position) : List Text :=
  (chunks (max settings.referencesPerLine 1 - 1) ps.length ps).map fun chunk =>
    "    References: " ++ Text.joined ", " (chunk.map printPosition)

def scopeLines (settings : RenderSettings) (numbered : Bool) (s : Scope) : List Text :=
  s.header :: positionLines settings s.references ++
    [(Window.format numbered
      (Window.render settings s.text (coordSucc s.id.startLine) s.highlights)).indented]

def sectionText (settings : RenderSettings) (numbered : Bool) (f : FileSection) : Text :=
  Text.ofLines (("File: " ++ f.uri.toPath ++ " (" ++ .ofNat f.count ++ " references)") ::
    f.scopes.flatMap (scopeLines settings numbered))

def text (settings : RenderSettings) (numbered : Bool) : ReferencesReport → Text
  | .undefined name => "Symbol definition not found for: " ++ name
  | .unused name n =>
    "No references found for symbol: " ++ name ++ " (definition found at " ++ .ofNat n ++
      " location(s))"
  | .used name total files =>
    Text.ofLines
      ["Symbol: " ++ name ++ " (" ++ .ofNat total ++ " references in " ++ .ofNat files.length ++
          " files)",
        Text.joined "\n\n" (files.map (sectionText settings numbered))]

end ReferencesReport

end WorkspaceLink
