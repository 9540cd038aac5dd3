import WorkspaceLink.Position
import WorkspaceLink.Text.Decimal

/-!
Source texts by line. A text is cut into lines once; ranges then select from it. Characters past
the end of a line count as its end, so that a range from a stale document selects something.
-/

namespace WorkspaceLink

/-- Why a scope or its text cannot be found. -/
inductive ScopeError where
  | read (path : Text) (cause : Text)
  /-- The text, which has `total` lines, has no such line, or the lines are in the wrong order. -/
  | lineOutOfRange (line total : Nat)
  | noEnclosingSymbol (position : Position)
deriving DecidableEq

namespace ScopeError

/-- What is said about an error. Lines and columns are counted from one. -/
def message : ScopeError → Text
  | read path cause => "failed to read file " ++ path ++ ": " ++ cause
  | lineOutOfRange line total =>
    "line " ++ .ofNat (coordSucc line) ++ " is out of range (text has " ++ .ofNat total ++ " lines)"
  | noEnclosingSymbol p =>
    "no symbol encloses L" ++ .ofNat (coordSucc p.line) ++ ":C" ++ .ofNat (coordSucc p.character)

def isNotFound : ScopeError → Bool
  | noEnclosingSymbol _ => true
  | _ => false

def path? : ScopeError → Option Text
  | read path _ => some path
  | _ => none

end ScopeError

/-- A text cut into lines. -/
structure SourceText where
  lines : List Text
deriving DecidableEq

namespace SourceText

/-- The lines of a file's content. A newline at the end starts an empty last line. -/
def ofContent (content : Text) : SourceText :=
  ⟨content.normalizeNewlines.lines⟩

def lineCount (source : SourceText) : Nat :=
  source.lines.length

/-- The line with a number, counted from zero. -/
def line? (source : SourceText) (n : Nat) : Option Text :=
  source.lines[n]?

/-- The line with a number, which must exist. -/
def line (source : SourceText) (n : Nat) : Except ScopeError Text :=
  match source.line? n with
  | some l => .ok l
  | none => .error (.lineOutOfRange n source.lineCount)

/-- The lines from `first` to `last`. -/
def slice (source : SourceText) (first last : Nat) : List Text :=
  (source.lines.drop first).take (last + 1 - first)

def textOf (source : SourceText) (r : Range) : Except ScopeError Text := do
  let first ← source.line r.start.line
  let last ← source.line r.stop.line
  if r.stop.line < r.start.line then
    .error (.lineOutOfRange r.stop.line source.lineCount)
  else if r.start.line = r.stop.line then
    .ok ((first.take r.stop.character).drop r.start.character)
  else
    let inner := source.slice (r.start.line + 1) (r.stop.line - 1)
    .ok (Text.ofLines (first.drop r.start.character :: inner ++ [last.take r.stop.character]))

/-- The whole lines from `first` to `last`. -/
def linesBetween (source : SourceText) (first last : Nat) : Except ScopeError Text := do
  let _ ← source.line last
  if last < first then .error (.lineOutOfRange first source.lineCount)
  else .ok (Text.ofLines (source.slice first last))

/-- The whole lines at most `radius` away from a line, and the range that they cover. -/
def contextWindow (source : SourceText) (n radius : Nat) : Except ScopeError (Text × Range) := do
  let _ ← source.line n
  let first := n - radius
  let last := min (coordAfter n radius) (source.lineCount - 1)
  let text ← source.linesBetween first last
  .ok (text, ⟨⟨first, 0⟩, ⟨last, min ((source.line? last).getD []).length lastCoord⟩⟩)

end SourceText

end WorkspaceLink
