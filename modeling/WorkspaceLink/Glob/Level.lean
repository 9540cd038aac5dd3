import WorkspaceLink.Text.Basic

/-!
Single-level globs: `*` and `?` stand for characters other than the slash, brackets for one
character of a class, and `**` as a whole component for any run of components. All other
characters stand for themselves.
-/

namespace WorkspaceLink

namespace Glob

/-- A part of a glob. -/
inductive Token where
  | char (c : Char)
  | anyChar
  | anyRun
  | anyComponents
  | class (negated : Bool) (ranges : List (Char × Char))
deriving DecidableEq

/-- The ranges of a character class. A hyphen between two characters makes them a range. -/
def classRanges : Text → List (Char × Char)
  | a :: '-' :: b :: s => (a, b) :: classRanges s
  | a :: s => (a, a) :: classRanges s
  | [] => []

/-- Where a glob is being read: outside brackets, perhaps at the start of a component, or inside
brackets with the characters read so far in reverse. -/
inductive Place where
  | component (start : Bool)
  | brackets (negated : Bool) (body : Text)

/-- The parts of a glob. There are none if brackets are not closed or hold nothing, or if a run of
stars is neither a single star nor a whole component of two. -/
def tokens? : Place → Text → Option (List Token)
  | .component _, [] => some []
  | .component _, '?' :: s => (tokens? (.component false) s).map (.anyChar :: ·)
  | .component _, '*' :: '*' :: '*' :: _ => none
  | .component start, ['*', '*'] => if start then some [.anyComponents] else none
  | .component start, '*' :: '*' :: c :: s =>
    if start ∧ c = '/' then (tokens? (.component true) s).map (.anyComponents :: ·) else none
  | .component _, '*' :: s => (tokens? (.component false) s).map (.anyRun :: ·)
  | .component _, '[' :: '!' :: s => tokens? (.brackets true []) s
  | .component _, '[' :: s => tokens? (.brackets false []) s
  | .component _, c :: s => (tokens? (.component (c = '/')) s).map (.char c :: ·)
  | .brackets _ _, [] => none
  | .brackets negated body, c :: s =>
    if c = ']' ∧ body ≠ [] then
      (tokens? (.component false) s).map (.class negated (classRanges body.reverse) :: ·)
    else tokens? (.brackets negated (c :: body)) s

/-- Whether a part that stands for one character stands for this one. -/
def Token.accepts (c : Char) : Token → Bool
  | .char d => c == d
  | .anyChar => c != '/'
  | .class negated ranges => c != '/' && (ranges.any fun (a, b) => a ≤ c && c ≤ b) != negated
  | _ => false

/-- What is left of a text after some of its characters, none of them a slash. -/
def afterRun : Text → List Text
  | [] => [[]]
  | c :: s => (c :: s) :: if c = '/' then [] else afterRun s

/-- What follows each slash of a text. -/
def afterSlashes : Text → List Text
  | [] => []
  | c :: s => if c = '/' then s :: afterSlashes s else afterSlashes s

/-- The trailing runs of components of a path: the path itself and what follows each slash. -/
def trailingPaths (path : Text) : List Text :=
  path :: afterSlashes path

/-- What may be left of a text after the characters that a part stands for. -/
def Token.rests (s : Text) : Token → List Text
  | .anyRun => afterRun s
  | .anyComponents => [] :: trailingPaths s
  | t =>
    match s with
    | [] => []
    | c :: s => if t.accepts c then [s] else []

/-- What may be left of one of several texts after the characters that the parts stand for in
turn. -/
def leftOver (left : List Text) : List Token → List Text
  | [] => left
  | t :: ts => leftOver (left.flatMap fun s => t.rests s).eraseDups ts

/-- Whether the parts of a glob stand for a text as a whole. -/
def matchTokens (ts : List Token) (path : Text) : Bool :=
  (leftOver [path] ts).contains []

/-- Whether a glob stands for a path. A glob that cannot be read stands for none. -/
def matchesLevel (glob path : Text) : Bool :=
  match tokens? (.component true) glob with
  | some ts => matchTokens ts path
  | none => false

end Glob

end WorkspaceLink
