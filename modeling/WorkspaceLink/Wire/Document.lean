import WorkspaceLink.Diagnostic
import WorkspaceLink.Json.Reader
import WorkspaceLink.Symbol

/-!
The JSON of what servers say about documents: positions, symbols, diagnostics and hover texts.
Optional fields that are absent are not written.
-/

namespace WorkspaceLink

open Json Json.Reader

/-- A member that is written only if its value is there. -/
def optionalMember {α : Type} (name : String) (value : Option α) (write : α → Json) :
    List (String × Json) :=
  match value with
  | some a => [(name, write a)]
  | none => []

namespace Position

def toJson (p : Position) : Json :=
  .record [("line", .nat p.line), ("character", .nat p.character)]

structure Fields where
  line : Option Nat := none
  character : Option Nat := none

def put (levels : Nat) (name : String) (f : Fields) (v : Json) : Except Fault Fields :=
  match name with
  | "line" => do return { f with line := some (← natBelow coordBound levels v) }
  | _ => do return { f with character := some (← natBelow coordBound levels v) }

def reader : Reader Position := fun levels j => do
  let f ← fields ["line", "character"] put {} levels j
  return ⟨← required f.line, ← required f.character⟩

end Position

namespace Range

def toJson (r : Range) : Json :=
  .record [("start", r.start.toJson), ("end", r.stop.toJson)]

structure Fields where
  start : Option Position := none
  stop : Option Position := none

def put (levels : Nat) (name : String) (f : Fields) (v : Json) : Except Fault Fields :=
  match name with
  | "start" => do return { f with start := some (← Position.reader levels v) }
  | _ => do return { f with stop := some (← Position.reader levels v) }

def reader : Reader Range := fun levels j => do
  let f ← fields ["start", "end"] put {} levels j
  return ⟨← required f.start, ← required f.stop⟩

end Range

namespace DocumentUri

def toJson (uri : DocumentUri) : Json :=
  .string uri.text

def reader : Reader DocumentUri := fun levels j => do
  return ⟨← Json.Reader.text levels j⟩

end DocumentUri

namespace Location

def toJson (l : Location) : Json :=
  .record [("uri", l.uri.toJson), ("range", l.range.toJson)]

structure Fields where
  uri : Option DocumentUri := none
  range : Option Range := none

def put (levels : Nat) (name : String) (f : Fields) (v : Json) : Except Fault Fields :=
  match name with
  | "uri" => do return { f with uri := some (← DocumentUri.reader levels v) }
  | _ => do return { f with range := some (← Range.reader levels v) }

def reader : Reader Location := fun levels j => do
  let f ← fields ["uri", "range"] put {} levels j
  return ⟨← required f.uri, ← required f.range⟩

end Location

namespace SymbolKind

def toJson (k : SymbolKind) : Json :=
  .nat k.toNumber

def reader : Reader SymbolKind := fun levels j =>
  (natBelow 256 levels j).map ofNumber

end SymbolKind

namespace DocumentSymbol

mutual

def toJson : DocumentSymbol → Json
  | ⟨name, detail, kind, range, selectionRange, children⟩ =>
    .record ([("name", .string name)] ++ optionalMember "detail" detail .string ++
      [("kind", kind.toJson), ("range", range.toJson), ("selectionRange", selectionRange.toJson)] ++
      (if children.isEmpty then [] else [("children", .list (allToJson children))]))

def allToJson : List DocumentSymbol → List Json
  | [] => []
  | s :: ss => toJson s :: allToJson ss

end

structure Fields where
  name : Option Text := none
  detail : Option Text := none
  kind : Option SymbolKind := none
  range : Option Range := none
  selectionRange : Range := .zero
  children : List DocumentSymbol := []

/-- Reads one field; `child` reads the symbols nested in this one. -/
def put (child : Reader DocumentSymbol) (levels : Nat) (name : String) (f : Fields) (v : Json) :
    Except Fault Fields :=
  match name with
  | "name" => do return { f with name := some (← text levels v) }
  | "detail" => do return { f with detail := ← optional text levels v }
  | "kind" => do return { f with kind := some (← SymbolKind.reader levels v) }
  | "range" => do return { f with range := some (← Range.reader levels v) }
  | "selectionRange" => do return { f with selectionRange := ← Range.reader levels v }
  | _ => do return { f with children := ← list child levels v }

/-- Reads a symbol with its children, down to a depth that the levels of nesting left do not
allow for. -/
def readerTo : Nat → Reader DocumentSymbol
  | 0 => fun _ _ => .error .malformed
  | depth + 1 => fun levels j => do
    let f ← fields ["name", "detail", "kind", "range", "selectionRange", "children"]
      (put (readerTo depth)) {} levels j
    return ⟨← required f.name, f.detail, ← required f.kind, ← required f.range, f.selectionRange,
      f.children⟩

def reader : Reader DocumentSymbol := fun levels j =>
  readerTo (levels + 1) levels j

end DocumentSymbol

namespace SymbolInformation

def toJson (s : SymbolInformation) : Json :=
  .record ([("name", .string s.name), ("kind", s.kind.toJson), ("location", s.location.toJson)] ++
    optionalMember "containerName" s.containerName .string)

structure Fields where
  name : Option Text := none
  kind : Option SymbolKind := none
  location : Option Location := none
  containerName : Option Text := none

def put (levels : Nat) (name : String) (f : Fields) (v : Json) : Except Fault Fields :=
  match name with
  | "name" => do return { f with name := some (← text levels v) }
  | "kind" => do return { f with kind := some (← SymbolKind.reader levels v) }
  | "location" => do return { f with location := some (← Location.reader levels v) }
  | _ => do return { f with containerName := ← optional text levels v }

def reader : Reader SymbolInformation := fun levels j => do
  let f ← fields ["name", "kind", "location", "containerName"] put {} levels j
  return ⟨← required f.name, ← required f.kind, ← required f.location, f.containerName⟩

end SymbolInformation

namespace SymbolResponse

def toJson : SymbolResponse → Json
  | .nested symbols => .list (DocumentSymbol.allToJson symbols)
  | .flat symbols => .list (symbols.map SymbolInformation.toJson)

/-- Reads a response as a tree if it fits, and as a flat list else. -/
def reader : Reader SymbolResponse :=
  firstOf
    [fun levels j => (list DocumentSymbol.reader levels j).map .nested,
      fun levels j => (list SymbolInformation.reader levels j).map .flat]

end SymbolResponse

namespace Severity

def toJson (s : Severity) : Json :=
  .nat s.toNumber

def reader : Reader Severity :=
  filterMap (natBelow 256) ofNumber?

end Severity

namespace DiagnosticCode

def toJson : DiagnosticCode → Json
  | .number n => .number n
  | .string s => .string s

def reader : Reader DiagnosticCode :=
  firstOf
    [fun levels j => (intBetween (-(integerLimit : Int)) integerLimit levels j).map .number,
      fun levels j => (text levels j).map .string]

end DiagnosticCode

namespace Diagnostic

def toJson (d : Diagnostic) : Json :=
  .record ([("range", d.range.toJson)] ++ optionalMember "severity" d.severity Severity.toJson ++
    optionalMember "code" d.code DiagnosticCode.toJson ++
    optionalMember "source" d.source .string ++ [("message", .string d.message)])

structure Fields where
  range : Option Range := none
  severity : Option Severity := none
  code : Option DiagnosticCode := none
  source : Option Text := none
  message : Option Text := none

def put (levels : Nat) (name : String) (f : Fields) (v : Json) : Except Fault Fields :=
  match name with
  | "range" => do return { f with range := some (← Range.reader levels v) }
  | "severity" => do return { f with severity := ← optional Severity.reader levels v }
  | "code" => do return { f with code := ← optional DiagnosticCode.reader levels v }
  | "source" => do return { f with source := ← optional text levels v }
  | _ => do return { f with message := some (← text levels v) }

def reader : Reader Diagnostic := fun levels j => do
  let f ← fields ["range", "severity", "code", "source", "message"] put {} levels j
  return ⟨← required f.range, f.severity, f.code, f.source, ← required f.message⟩

end Diagnostic

namespace MarkupContent

def toJson (m : MarkupContent) : Json :=
  .record [("kind", .string m.kind), ("value", .string m.value)]

structure Fields where
  kind : Text := []
  value : Option Text := none

def put (levels : Nat) (name : String) (f : Fields) (v : Json) : Except Fault Fields :=
  match name with
  | "kind" => do return { f with kind := ← text levels v }
  | _ => do return { f with value := some (← text levels v) }

def reader : Reader MarkupContent := fun levels j => do
  let f ← fields ["kind", "value"] put {} levels j
  return ⟨f.kind, ← required f.value⟩

end MarkupContent

namespace Hover

def toJson (h : Hover) : Json :=
  .record ([("contents", h.contents.toJson)] ++ optionalMember "range" h.range Range.toJson)

structure Fields where
  contents : Option MarkupContent := none
  range : Option Range := none

def put (levels : Nat) (name : String) (f : Fields) (v : Json) : Except Fault Fields :=
  match name with
  | "contents" => do return { f with contents := some (← MarkupContent.reader levels v) }
  | _ => do return { f with range := ← optional Range.reader levels v }

def reader : Reader Hover := fun levels j => do
  let f ← fields ["contents", "range"] put {} levels j
  return ⟨← required f.contents, f.range⟩

end Hover

end WorkspaceLink
