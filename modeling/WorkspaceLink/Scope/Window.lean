import WorkspaceLink.Settings
import WorkspaceLink.Position
import WorkspaceLink.Text.Blank
import WorkspaceLink.Text.Decimal

/-!
Windows on code. A long text is cut down to its head, its tail and the lines near the highlighted
ones; each run of dropped lines leaves a mark that says how many they were.
-/

namespace WorkspaceLink

/-- An entry of a window. -/
inductive RenderedLine where
  /-- A line of the text, with its number in the file counted from one. -/
  | code (text : Text) (number : Nat) (highlighted : Bool)
  /-- A run of dropped lines. -/
  | skipped (count : Nat)
deriving DecidableEq

/-- How many lines of the text an entry stands for. -/
def RenderedLine.sourceLines : RenderedLine → Nat
  | .code _ _ _ => 1
  | .skipped n => n

namespace Window

/-- Whether line `i` of a text of `total` lines is kept. -/
def keeps (settings : RenderSettings) (total : Nat) (highlights : List Nat) (i : Nat) : Bool :=
  total ≤ settings.maxLines || i < settings.headLines || total - settings.tailLines ≤ i ||
    highlights.any fun h =>
      h < total && h - settings.contextLines ≤ i && i ≤ h + settings.contextLines

/-- The mark for a number of lines dropped so far. -/
def marks (dropped : Nat) : List RenderedLine :=
  if dropped = 0 then [] else [.skipped dropped]

/-- The entries for the lines from index `i` on, with `dropped` lines before them to be marked. -/
def entries (keep highlighted : Nat → Bool) (firstLine i dropped : Nat) :
    List Text → List RenderedLine
  | [] => marks dropped
  | l :: ls =>
    if keep i then
      marks dropped ++ .code l (min (firstLine + i) lastCoord) (highlighted i) ::
        entries keep highlighted firstLine (i + 1) 0 ls
    else entries keep highlighted firstLine (i + 1) (dropped + 1) ls

/-- The window on a text. `firstLine` is the number of its first line in the file, counted from
one; `highlights` are counted from the first line of the text. -/
def render (settings : RenderSettings) (text : Text) (firstLine : Nat) (highlights : List Nat) :
    List RenderedLine :=
  let lines := text.lines
  entries (keeps settings lines.length highlights) highlights.contains firstLine 0 0 lines

def formatLine (numbered : Bool) : RenderedLine → Text
  | .skipped n => "    ... " ++ .ofNat n ++ " lines skipped ..."
  | .code text number highlighted =>
    if numbered then
      .padded 5 number ++ (if highlighted then ">" else "|") ++ " " ++ text
    else (if highlighted then "> " else "  ") ++ text

/-- A window as it is printed, one entry a line. -/
def format (numbered : Bool) (entries : List RenderedLine) : Text :=
  Text.terminated (entries.map (formatLine numbered))

end Window

/-- A text with its line numbers, set in a column as wide as the last of them. -/
def Text.numbered (s : Text) (firstLine : Nat) : Text :=
  let lines := s.lines
  let width := (Text.ofNat (min (firstLine + (lines.length - 1)) lastCoord)).length
  Text.terminated (lines.mapIdx fun i l => Text.padded width (firstLine + i) ++ "| " ++ l)

/-- A text without the blanks at its end, each line indented by four spaces. -/
def Text.indented (s : Text) : Text :=
  Text.ofLines (s.trimEnd.lines.map (("    " : Text) ++ ·))

end WorkspaceLink
