import WorkspaceLink.DocumentUri
import WorkspaceLink.Glob.Level
import WorkspaceLink.Watch.Registration

/-!
Watch patterns. Braces are expanded first; a leading `**/` then matches against every trailing run
of components, any other `**` splits the pattern into a head and a tail, and what is left is a
single-level glob. Patterns that cannot be read match nothing.
-/

namespace WorkspaceLink

namespace Glob

/-- The alternatives of a brace group, read after its opening brace, and the text after the group;
there are none if the group is not closed. Commas and braces of inner groups, of which `depth` are
open, belong to the alternative that they stand in. -/
def alternatives? (depth : Nat) : Text → Option (List Text × Text)
  | [] => none
  | c :: s =>
    let keep (r : Option (List Text × Text)) : Option (List Text × Text) :=
      r.map fun (pieces, rest) => (pieces.modifyHead (c :: ·), rest)
    if c = '{' then keep (alternatives? (depth + 1) s)
    else if c = '}' then
      if depth = 0 then some ([[]], s) else keep (alternatives? (depth - 1) s)
    else if c = ',' ∧ depth = 0 then
      (alternatives? depth s).map fun (pieces, rest) => ([] :: pieces, rest)
    else keep (alternatives? depth s)

/-- The patterns that come of choosing one alternative in each of at most `n` brace groups, from
the left; none if a group is not closed. -/
def expansions : Nat → Text → List Text
  | 0, pattern => [pattern]
  | n + 1, pattern =>
    match Text.cut? "\x7b" pattern with
    | none => [pattern]
    | some (before, rest) =>
      match alternatives? 0 rest with
      | none => []
      | some (pieces, after) =>
        pieces.flatMap fun piece => expansions n (before ++ piece ++ after)

/-- What follows the star in a pattern that asks for no more than an extension. -/
def extensionSuffix? : Text → Option Text
  | '*' :: '.' :: s => if s.any ("*?[]\x7b\x7d/".toList.contains ·) then none else some ('.' :: s)
  | _ => none

/-- Whether a pattern without brace groups matches a path. -/
def matchesPlain (pattern path : Text) : Bool :=
  match Text.afterFront? "**/" pattern with
  | some rest =>
    match extensionSuffix? rest with
    | some suffix => suffix.isSuffixOf path
    | none => (trailingPaths path).any fun sub => rest.isSuffixOf sub || matchesLevel rest sub
  | none =>
    match Text.cut? "**" pattern with
    | some (head, tail) =>
      match Text.afterFront? head path with
      | none => false
      | some rest =>
        tail.isEmpty || tail.isSuffixOf path ||
          (trailingPaths rest).any (matchesLevel ((Text.afterFront? "/" tail).getD tail))
    | none =>
      match extensionSuffix? pattern with
      | some suffix => suffix.isSuffixOf path
      | none => matchesLevel pattern path

def matchesGlob (pattern path : Text) : Bool :=
  (expansions (pattern.count '{') pattern).any (matchesPlain · path)

def toSlashes (path : Text) : Text :=
  path.exchange '\\' '/'

/-- A path relative to a base directory; there is none if the path lies outside. -/
def relativeTo? (path base : Text) : Option Text :=
  let base := base.dropEndWhile (· == '/')
  if base.isEmpty then some (path.dropWhile (· == '/'))
  else match Text.afterFront? base path with
    | some [] => some []
    | some ('/' :: rest) => some rest
    | _ => none

/-- The last component of a path, which may be empty. -/
def lastComponent (path : Text) : Text :=
  (trailingPaths path).getLast?.getD path

end Glob

/-- Whether a registration's pattern matches an absolute path. With a base, the path must lie in
it and is made relative to it; without one, the file name alone may match as well. -/
def GlobSpec.matches (spec : GlobSpec) (path : Path) : Bool :=
  let path := Glob.toSlashes path
  match spec.base.filter (!·.isEmpty) with
  | some base =>
    match Glob.relativeTo? path (Glob.toSlashes (stripUriScheme base)) with
    | some rel => Glob.matchesGlob spec.pattern rel
    | none => false
  | none =>
    Glob.matchesGlob spec.pattern path || Glob.matchesGlob spec.pattern (Glob.lastComponent path)

end WorkspaceLink
