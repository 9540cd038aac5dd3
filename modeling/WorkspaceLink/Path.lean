import WorkspaceLink.DocumentUri

/-!
File paths by component. Repeated slashes, a slash at the end and components `.` do not count,
except that a relative path may begin with `.`. Two paths are the same if their components are.
-/

namespace WorkspaceLink

namespace Path

inductive Component where
  | root
  | here
  | parent
  | name (text : Text)
deriving DecidableEq

/-- A piece between slashes that is no component. -/
def isNoise (piece : Text) : Bool :=
  piece.isEmpty || piece == ['.']

/-- The component that a piece between slashes is. -/
def ofPiece (piece : Text) : Component :=
  if piece = ['.', '.'] then .parent else .name piece

/-- A path cut up: its first component, if that is the root or `.`, and the pieces after it. -/
def cutUp (path : Path) : Option Component × List Text :=
  match path.splitOn '/' with
  | [] => (none, [])
  | piece :: pieces =>
    if piece.isEmpty ∧ !pieces.isEmpty then (some .root, pieces)
    else if piece = ['.'] then (some .here, pieces)
    else (none, piece :: pieces)

def components (path : Path) : List Component :=
  let (first, pieces) := cutUp path
  first.toList ++ (pieces.filter (!isNoise ·)).map ofPiece

/-- Whether two texts are the same path. -/
def same (a b : Path) : Bool :=
  components a == components b

theorem same_iff {a b : Path} : same a b = true ↔ components a = components b :=
  beq_iff_eq

theorem same_comm (a b : Path) : same a b = same b a :=
  BEq.comm

/-- The name of the file or directory that a path ends in. -/
def fileName? (path : Path) : Option Text :=
  match (components path).getLast? with
  | some (.name n) => some n
  | _ => none

/-- What follows the last dot of the file name. A dot at the beginning makes a hidden name and no
extension. -/
def extension? (path : Path) : Option Text := do
  let name ← fileName? path
  let (before, after) := (name.reverse.span (· != '.'))
  match after with
  | _ :: stem => if stem.isEmpty then none else some before.reverse
  | [] => none

/-- Pieces without the noise after the last component. -/
def trimNoise (pieces : List Text) : List Text :=
  (pieces.reverse.dropWhile isNoise).reverse

/-- The path with a first component and pieces after it. -/
def ofPieces (first : Option Component) (pieces : List Text) : Path :=
  match first with
  | some .root => '/' :: ['/'].intercalate pieces
  | some _ => ['/'].intercalate (['.'] :: pieces)
  | none => ['/'].intercalate pieces

/-- A path without its last component. The root and the empty path have none. -/
def parent? (path : Path) : Option Path :=
  let (first, pieces) := cutUp path
  match (trimNoise pieces).reverse with
  | _ :: before => some (ofPieces first (trimNoise before.reverse))
  | [] => if first = some .here then some [] else none

/-- The pieces after the first `n` components. -/
def dropPieces : Nat → List Text → List Text
  | 0, pieces => pieces
  | _ + 1, [] => []
  | n + 1, piece :: pieces =>
    if isNoise piece then dropPieces (n + 1) pieces else dropPieces n pieces

/-- The rest of a path after the components of `base`, if it begins with them. -/
def relativeTo? (path base : Path) : Option Path :=
  let n := (components base).length
  if (components base).isPrefixOf (components path) then
    let (first, pieces) := cutUp path
    let after (n : Nat) : Path :=
      ['/'].intercalate (trimNoise ((dropPieces n pieces).dropWhile isNoise))
    match n, first with
    | 0, first => some (ofPieces first (trimNoise pieces))
    | n + 1, some _ => some (after n)
    | n, none => some (after n)
  else none

def isAbsolute (path : Path) : Bool :=
  path.head? == some '/'

/-- A path taken relative to a directory; an absolute path stays. -/
def join (dir path : Path) : Path :=
  if isAbsolute path then path
  else if dir.isEmpty || dir.getLast? == some '/' then dir ++ path
  else dir ++ '/' :: path

/-- The directories that a path lies in, innermost first. `n` bounds their number. -/
def parents : Nat → Path → List Path
  | 0, _ => []
  | n + 1, path =>
    match parent? path with
    | some p => p :: parents n p
    | none => []

/-- The directories that a path lies in, innermost first. -/
def ancestors (path : Path) : List Path :=
  parents (components path).length path

end Path

end WorkspaceLink
