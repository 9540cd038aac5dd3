import WorkspaceLink.FileTree
import WorkspaceLink.IgnoreRules
import WorkspaceLink.Settings

/-!
Exclusion: which directories are never watched or walked, and which files are never opened or
reported. Rules come from the settings and from the ignore file of the workspace, which is read
once.
-/

namespace WorkspaceLink

/-- The rules of exclusion for a workspace. Extensions are in lower case and without a dot. -/
structure ExclusionPolicy where
  root : Path
  dirs : List Text
  extensions : List Text
  maxFileSize : Nat
  ignore : Option IgnoreRules

namespace ExclusionPolicy

def lower (s : Text) : Text :=
  s.map Char.toLower

/-- Whether a name begins with a dot and is more than dots for a directory. -/
def isHidden (name : Text) : Bool :=
  name.head? == some '.' && name != ['.'] && name != ['.', '.']

/-- The rules in the ignore file with a name at the root; there are none if it is no file or cannot
be read. -/
def loadIgnoreFile (t : FileTree) (root : Path) (name : Text) : Option IgnoreRules :=
  if name.isEmpty then none
  else (t.readText (Path.join root name)).toOption.bind IgnoreRules.ofContent?

/-- The policy for a workspace as it is now. -/
def ofSettings (t : FileTree) (root : Path) (s : ExclusionSettings) : ExclusionPolicy :=
  { root
    dirs := s.dirs
    extensions := (s.extensions ++ s.binaryExtensions).map fun e => lower (e.dropWhile (· == '.'))
    maxFileSize := s.maxFileSize
    ignore := loadIgnoreFile t root s.ignoreFile }

def excludesDirName (policy : ExclusionPolicy) (name : Text) : Bool :=
  isHidden name || policy.dirs.contains name

/-- Whether the ignore file ignores a path below the root. -/
def isIgnored (policy : ExclusionPolicy) (path : Path) (isDir : Bool) : Bool :=
  match policy.ignore, Path.relativeTo? path policy.root with
  | some rules, some rel => !rel.isEmpty && rules.ignores policy.root rel isDir
  | _, _ => false

/-- Whether a directory is neither watched nor walked. -/
def excludesDir (policy : ExclusionPolicy) (path : Path) : Bool :=
  !Path.same path policy.root &&
    (policy.isIgnored path true || (Path.fileName? path).any policy.excludesDirName)

/-- The name that a component of a path stands for. -/
def componentText : Path.Component → Text
  | .root => ['/']
  | .here => ['.']
  | .parent => ['.', '.']
  | .name n => n

/-- Whether a path lies, below the root, in a directory whose name is excluded. -/
def hasExcludedAncestor (policy : ExclusionPolicy) (path : Path) : Bool :=
  match (Path.relativeTo? path policy.root).bind Path.parent? with
  | some dir => (Path.components dir).any fun c => policy.excludesDirName (componentText c)
  | none => false

/-- Whether a file is excluded by its path alone, be it there or not. -/
def excludesPath (policy : ExclusionPolicy) (path : Path) : Bool :=
  policy.isIgnored path false ||
    match Path.fileName? path with
    | none => true
    | some name =>
      isHidden name || name.getLast? == some '~' ||
        (Path.extension? path).any (fun e => policy.extensions.contains (lower e)) ||
        policy.hasExcludedAncestor path

/-- Whether a file is excluded by its path or its size; one that is not there is excluded. -/
def excludesFile (policy : ExclusionPolicy) (t : FileTree) (path : Path) : Bool :=
  policy.excludesPath path ||
    match t.size? path with
    | some size => policy.maxFileSize < size
    | none => true

end ExclusionPolicy

end WorkspaceLink
