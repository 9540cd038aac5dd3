import WorkspaceLink.Scope.Enclosing
import WorkspaceLink.Scope.SourceText
import WorkspaceLink.Settings

/-!
References by scope. Each reference in a file belongs to the symbol around it; a reference outside
every symbol gets a window of the lines near it. References whose scopes cover the same lines
share one scope, which the first of them shapes.
-/

namespace WorkspaceLink

/-- The lines of a scope, which tell it from the other scopes of its file. -/
structure ScopeId where
  startLine : Nat
  endLine : Nat
deriving DecidableEq

namespace ScopeId

def ofRange (r : Range) : ScopeId :=
  ⟨r.start.line, r.stop.line⟩

/-- Whether a scope starts before another or, where both start together, does not end after it. -/
def le (a b : ScopeId) : Bool :=
  a.startLine < b.startLine || (a.startLine == b.startLine && a.endLine ≤ b.endLine)

end ScopeId

/-- What a scope is: a symbol, or a window around the first reference found in it. -/
inductive ScopeKind where
  | symbol (name : Text) (kind : SymbolKind)
  | context (anchorLine : Nat)
deriving DecidableEq

/-- A scope with the references in it, in the order in which they were given. -/
structure Scope where
  id : ScopeId
  kind : ScopeKind
  text : Text
  references : List Position
deriving DecidableEq

namespace Scope

/-- What a symbol's scope shows when its file cannot be read. -/
def contentUnavailable : Text := "[File content unavailable]"

def header (s : Scope) : Text :=
  let lines : Text := "lines " ++ .ofNat (coordSucc s.id.startLine) ++ "-" ++
    .ofNat (coordSucc s.id.endLine) ++ ", " ++ .ofNat s.references.length ++ " references"
  match s.kind with
  | .symbol name kind => "  " ++ kind.label ++ " " ++ name ++ " (" ++ lines ++ ")"
  | .context anchor =>
    "  Scope: Context near L" ++ .ofNat (coordSucc anchor) ++ " (" ++ lines ++ ")"

/-- The lines of the references, counted from the first line of the scope. -/
def highlights (s : Scope) : List Nat :=
  s.references.filterMap fun p =>
    if s.id.startLine ≤ p.line then some (p.line - s.id.startLine) else none

/-- The text of a symbol's scope. -/
def textOfSymbol (source : Option SourceText) (symbol : DocumentSymbol) : Text :=
  match source with
  | none => contentUnavailable
  | some source =>
    match source.textOf symbol.range with
    | .ok text => text
    | .error _ => "Error fetching text for symbol '" ++ symbol.name ++ "'"

/-- The scope of one reference by itself. A reference outside every symbol has none if the file
cannot be read or lacks the line. -/
def ofReference? (symbols : List DocumentSymbol) (source : Option SourceText)
    (settings : RenderSettings) (p : Position) : Option Scope :=
  match DocumentSymbol.enclosing? p symbols with
  | some s =>
    some ⟨.ofRange s.range, .symbol s.name s.kind, textOfSymbol source s, [p]⟩
  | none =>
    match source with
    | none => none
    | some source =>
      match source.contextWindow p.line settings.fallbackContextLines with
      | .ok (text, window) => some ⟨.ofRange window, .context p.line, text, [p]⟩
      | .error _ => none

/-- Adds a reference's scope to scopes in ascending order of lines: to the scope of the same lines
if there is one. -/
def insert (s : Scope) : List Scope → List Scope
  | [] => [s]
  | t :: ts =>
    if t.id = s.id then { t with references := t.references ++ s.references } :: ts
    else if t.id.le s.id then t :: insert s ts
    else s :: t :: ts

end Scope

/-- The scopes of the references of a file, in ascending order of their lines. -/
def groupReferences (symbols : List DocumentSymbol) (source : Option SourceText)
    (references : List Position) (settings : RenderSettings) : List Scope :=
  (references.filterMap (Scope.ofReference? symbols source settings)).foldl
    (fun scopes s => s.insert scopes) []

end WorkspaceLink
