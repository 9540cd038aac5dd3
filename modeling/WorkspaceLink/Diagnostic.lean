import WorkspaceLink.Position
import WorkspaceLink.Text.Decimal

/-!
Diagnostics and hover texts.
-/

namespace WorkspaceLink

inductive Severity where
  | error | warning | information | hint
deriving DecidableEq, Inhabited

namespace Severity

def toNumber : Severity → Nat
  | error => 1
  | warning => 2
  | information => 3
  | hint => 4

def ofNumber? : Nat → Option Severity
  | 1 => some error
  | 2 => some warning
  | 3 => some information
  | 4 => some hint
  | _ => none

def label : Severity → Text
  | error => "ERROR"
  | warning => "WARNING"
  | information => "INFO"
  | hint => "HINT"

end Severity

/-- What a server calls the rule behind a diagnostic. -/
inductive DiagnosticCode where
  | number (n : Int)
  | string (s : Text)
deriving DecidableEq

def DiagnosticCode.toText : DiagnosticCode → Text
  | .number n => .ofInt n
  | .string s => s

/-- A finding of the server about a document. -/
structure Diagnostic where
  range : Range
  severity : Option Severity
  code : Option DiagnosticCode
  source : Option Text
  message : Text
deriving DecidableEq

/-- A text with the name of the markup that it is written in, which may be empty. -/
structure MarkupContent where
  kind : Text
  value : Text
deriving DecidableEq

/-- What a server shows about a position. -/
structure Hover where
  contents : MarkupContent
  range : Option Range
deriving DecidableEq

end WorkspaceLink
