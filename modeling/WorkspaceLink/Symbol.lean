import WorkspaceLink.Position

/-!
Symbols of a document as servers report them: a tree of symbols, or a flat list with the name of
each symbol's container.
-/

namespace WorkspaceLink

/-- What a symbol is. Numbers outside the protocol's list are kept. -/
inductive SymbolKind where
  | file | module | «namespace» | package | «class» | method | property | field | constructor
  | enum | interface | function | «variable» | constant | string | number | boolean | array
  | object | key | null | enumMember | struct | event | operator | typeParameter
  | unknown (number : Nat)
deriving DecidableEq, Inhabited

namespace SymbolKind

/-- The kinds that have a name, in the order of their numbers, with their names. -/
def named : List (SymbolKind × String) :=
  [(file, "File"), (module, "Module"), («namespace», "Namespace"), (package, "Package"),
    («class», "Class"), (method, "Method"), (property, "Property"), (field, "Field"),
    (constructor, "Constructor"), (enum, "Enum"), (interface, "Interface"),
    (function, "Function"), («variable», "Variable"), (constant, "Constant"), (string, "String"),
    (number, "Number"), (boolean, "Boolean"), (array, "Array"), (object, "Object"), (key, "Key"),
    (null, "Null"), (enumMember, "EnumMember"), (struct, "Struct"), (event, "Event"),
    (operator, "Operator"), (typeParameter, "TypeParameter")]

def ofNumber (n : Nat) : SymbolKind :=
  match n with
  | 0 => unknown 0
  | k + 1 => (named[k]?.map (·.1)).getD (unknown (k + 1))

def toNumber : SymbolKind → Nat
  | unknown n => n
  | k => named.findIdx (·.1 = k) + 1

def name (k : SymbolKind) : Text :=
  (named.lookup k).getD "Unknown"

/-- The name of a kind in brackets. -/
def label (k : SymbolKind) : Text :=
  '[' :: k.name ++ [']']

end SymbolKind

/-- A symbol with the symbols nested in it. -/
structure DocumentSymbol where
  name : Text
  detail : Option Text
  kind : SymbolKind
  range : Range
  selectionRange : Range
  children : List DocumentSymbol
deriving Inhabited

namespace DocumentSymbol

/-- A symbol without children, selected as a whole. -/
def leaf (name : Text) (kind : SymbolKind) (range : Range) : DocumentSymbol :=
  ⟨name, none, kind, range, range, []⟩

end DocumentSymbol

structure SymbolInformation where
  name : Text
  kind : SymbolKind
  location : Location
  containerName : Option Text
deriving DecidableEq, Inhabited

/-- The answer to a request for the symbols of a document. -/
inductive SymbolResponse where
  | nested (symbols : List DocumentSymbol)
  | flat (symbols : List SymbolInformation)

namespace SymbolResponse

def empty : SymbolResponse := .nested []

def isEmpty : SymbolResponse → Bool
  | .nested symbols => symbols.isEmpty
  | .flat symbols => symbols.isEmpty

/-- The symbols as a forest; those of a flat list are roots without children. -/
def toForest : SymbolResponse → List DocumentSymbol
  | .nested symbols => symbols
  | .flat symbols => symbols.map fun s => .leaf s.name s.kind s.location.range

end SymbolResponse

end WorkspaceLink
