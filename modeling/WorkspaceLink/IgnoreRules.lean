import WorkspaceLink.Glob.Depth
import WorkspaceLink.Path
import WorkspaceLink.Text.Blank

/-!
Ignore files. Each line is a rule; the last rule that speaks about a path decides, and where none
does, the directories that the path lies in are asked in turn, innermost first.
-/

namespace WorkspaceLink

/-- A rule of an ignore file. -/
structure IgnoreRule where
  glob : List IgnoreToken
  /-- Whether the rule takes paths back in. -/
  keeps : Bool
  onlyDirs : Bool

abbrev IgnoreRules := List IgnoreRule

namespace IgnoreRule

/-- The glob that a rule's text stands for. A text without a slash may match at any depth, and one
that ends in `/**` matches what lies in a directory but not the directory. -/
def fullGlob (anchored : Bool) (glob : Text) : Text :=
  let doubleStar := (Text.afterFront? "**/" glob).isSome || glob == "**".toList
  let full : Text := if anchored || glob.contains '/' || doubleStar then glob else "**/" ++ glob
  if ("/**".toList).isSuffixOf full then full ++ "/*" else full

/-- The rule for a text after any marks at its beginning. A slash at its end, which may be escaped,
asks for directories. -/
def ofGlob? (keeps anchored : Bool) (text : Text) : Option IgnoreRule := do
  let onlyDirs := text.getLast? == some '/'
  let text := if onlyDirs then text.dropLast else text
  let text := if onlyDirs && text.getLast? == some '\\' then text.dropLast else text
  let glob ← IgnoreGlob.tokens? (fullGlob anchored text)
  if IgnoreGlob.isTooDeep glob then none else some ⟨glob, keeps, onlyDirs⟩

/-- The rule on a line, which may hold none; `none` means that the line cannot be read. A line that
begins with `#` is a comment, `!` takes paths back in, and a slash at the beginning anchors the
rule at the root. -/
def ofLine? (line : Text) : Option (Option IgnoreRule) :=
  let line := if ("\\ ".toList).isSuffixOf line then line else line.trimEnd
  match line with
  | [] => some none
  | '#' :: _ => some none
  | '\\' :: '!' :: s => (ofGlob? false false ('!' :: s)).map some
  | '\\' :: '#' :: s => (ofGlob? false false ('#' :: s)).map some
  | '!' :: '/' :: s => (ofGlob? true true s).map some
  | '!' :: s => (ofGlob? true false s).map some
  | '/' :: s => (ofGlob? false true s).map some
  | s => (ofGlob? false false s).map some

/-- Whether a rule speaks about a path. -/
def speaksAbout (rule : IgnoreRule) (path : Path) (isDir : Bool) : Bool :=
  (!rule.onlyDirs || isDir) && IgnoreGlob.matchTokens rule.glob path

end IgnoreRule

namespace IgnoreRules

/-- The rules in a file, unless a line of it cannot be read. A byte order mark at its beginning
does not count. -/
def ofContent? (content : Text) : Option IgnoreRules := do
  let content := Text.normalizeNewlines (content.dropWhile (· == Char.ofNat 0xFEFF))
  let rules ← (Text.lines content).mapM IgnoreRule.ofLine?
  return rules.filterMap id

/-- What the rules say about a path by itself: whether it is ignored, if any speaks about it. -/
def verdict? (rules : IgnoreRules) (path : Path) (isDir : Bool) : Option Bool :=
  (rules.reverse.find? (·.speaksAbout path isDir)).map (!·.keeps)

/-- The text of a path without `./` at its beginning. -/
def withoutHere (path : Path) : Path :=
  (Text.afterFront? "./" path).getD path

/-- The path that rules are asked about for a path below a root. Where such a path of several
components begins with the text of the root itself, it counts as a path that the root still has to
be taken off, together with a slash after it; the root `.` is never taken off. -/
def localPath (root path : Path) : Path :=
  let path := withoutHere path
  let root := withoutHere root
  if Path.same root ['.'] || !path.contains '/' then path
  else match Text.afterFront? root path with
    | some rest => (Text.afterFront? "/" rest).getD rest
    | none => path

/-- Whether a path below the root is ignored: as the rules say about it or, where they say
nothing, about the innermost directory around it that they speak about. -/
def ignores (rules : IgnoreRules) (root path : Path) (isDir : Bool) : Bool :=
  let path := localPath root path
  match rules.verdict? path isDir with
  | some ignored => ignored
  | none => ((Path.ancestors path).findSome? (rules.verdict? · true)).getD false

end IgnoreRules

end WorkspaceLink
