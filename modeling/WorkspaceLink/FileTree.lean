import WorkspaceLink.Path
import WorkspaceLink.Text.Decimal

/-!
File systems as trees of directories, files and symbolic links. Paths are followed from the root,
through links; a relative path leads nowhere.
-/

namespace WorkspaceLink

/-- A file, a symbolic link, or a directory with its entries by name. -/
inductive FileNode where
  | file (content : ByteArray)
  | link (target : Path)
  | dir (entries : List (Text × FileNode))
deriving Inhabited

/-- Why a path leads nowhere, or to something of the wrong kind. -/
inductive FileError where
  | notFound | notADirectory | isADirectory | tooManyLinks | nameTooLong | invalidPath
  | invalidContent
  /-- Any other failure of the system, by what it says. -/
  | other (cause : Text)
deriving DecidableEq

namespace FileError

def kind : FileError → Text
  | notFound => "NotFound"
  | notADirectory => "NotADirectory"
  | isADirectory => "IsADirectory"
  | tooManyLinks => "FilesystemLoop"
  | nameTooLong => "InvalidFilename"
  | invalidPath => "InvalidInput"
  | invalidContent => "InvalidData"
  | other _ => "Other"

def message : FileError → Text
  | notFound => "No such file or directory (os error 2)"
  | notADirectory => "Not a directory (os error 20)"
  | isADirectory => "Is a directory (os error 21)"
  | tooManyLinks => "Too many levels of symbolic links (os error 40)"
  | nameTooLong => "File name too long (os error 36)"
  | invalidPath => "file name contained an unexpected NUL byte"
  | invalidContent => "stream did not contain valid UTF-8"
  | other cause => cause

end FileError

namespace FileNode

/-- The entry of a directory with a name. -/
def entry? (name : Text) : FileNode → Option FileNode
  | .dir entries => entries.lookup name
  | _ => none

/-- The node at the end of a list of names, links not followed. -/
def at? : List Text → FileNode → Option FileNode
  | [], node => some node
  | name :: names, node => (node.entry? name).bind (at? names)

/-- A directory's entries with one of them replaced, or added at the end. -/
def putEntry (name : Text) (node : FileNode) : List (Text × FileNode) → List (Text × FileNode)
  | [] => [(name, node)]
  | (n, old) :: entries =>
    if n = name then (n, node) :: entries else (n, old) :: putEntry name node entries

/-- A node with another put at the end of a list of names; directories that are missing on the way
are made. Nothing is put below a file or link. -/
def put (new : FileNode) : List Text → FileNode → FileNode
  | [], _ => new
  | name :: names, .dir entries =>
    let old := (entries.lookup name).getD (.dir [])
    .dir (putEntry name (put new names old) entries)
  | _ :: _, node => node

/-- A node without the one at the end of a list of names. -/
def remove : List Text → FileNode → FileNode
  | [], node => node
  | [name], .dir entries => .dir (entries.filter (·.1 ≠ name))
  | name :: names, .dir entries =>
    match entries.lookup name with
    | some child => .dir (putEntry name (remove names child) entries)
    | none => .dir entries
  | _, node => node

end FileNode

/-- A file system, given by its root directory. -/
structure FileTree where
  top : FileNode
deriving Inhabited

namespace FileTree

def empty : FileTree := ⟨.dir []⟩

/-- Follows pieces of a path from the directory with the names `dir`. `onLink` goes on from a
directory with the pieces of a link's target and those after it. -/
def followPieces (top : FileNode)
    (onLink : List Text → List Text → Except FileError (List Text)) :
    List Text → List Text → Except FileError (List Text)
  | dir, [] => .ok dir
  | dir, piece :: pieces =>
    if Path.isNoise piece then followPieces top onLink dir pieces
    else if piece = ['.', '.'] then followPieces top onLink dir.dropLast pieces
    else if 255 < Text.byteCount piece then .error .nameTooLong
    else
      match top.at? (dir ++ [piece]) with
      | none => .error .notFound
      | some (.dir _) => followPieces top onLink (dir ++ [piece]) pieces
      | some (.file _) => if pieces.isEmpty then .ok (dir ++ [piece]) else .error .notADirectory
      | some (.link target) =>
        onLink (if Path.isAbsolute target then [] else dir) (target.splitOn '/' ++ pieces)

/-- Follows pieces of a path through at most `links` links. -/
def follow (top : FileNode) : Nat → List Text → List Text → Except FileError (List Text)
  | 0 => followPieces top fun _ _ => .error .tooManyLinks
  | links + 1 => followPieces top (follow top links)

/-- So many links may be followed on the way to a file. -/
def linkLimit : Nat := 40

/-- A path that has this many bytes or more is too long. -/
def pathLimit : Nat := 4096

/-- The names on the way from the root to what a path leads to. -/
def resolve (t : FileTree) (path : Path) : Except FileError (List Text) :=
  if path.contains '\x00' then .error .invalidPath
  else if pathLimit ≤ Text.byteCount path then .error .nameTooLong
  else if Path.isAbsolute path then follow t.top linkLimit [] (path.splitOn '/')
  else .error .notFound

/-- What a path leads to. -/
def find (t : FileTree) (path : Path) : Except FileError FileNode := do
  match t.top.at? (← t.resolve path) with
  | some node => .ok node
  | none => .error .notFound

def exists? (t : FileTree) (path : Path) : Bool :=
  (t.find path).toOption.isSome

def isFile (t : FileTree) (path : Path) : Bool :=
  match t.find path with
  | .ok (.file _) => true
  | _ => false

def isDir (t : FileTree) (path : Path) : Bool :=
  match t.find path with
  | .ok (.dir _) => true
  | _ => false

def dirSize : Nat := 4096

/-- The size in bytes of what a path leads to. -/
def size? (t : FileTree) (path : Path) : Option Nat :=
  match t.find path with
  | .ok (.file content) => some content.size
  | .ok _ => some dirSize
  | .error _ => none

/-- The text in the file that a path leads to. -/
def readText (t : FileTree) (path : Path) : Except FileError Text := do
  match ← t.find path with
  | .file content =>
    match Text.decode? content.toList with
    | some text => .ok text
    | none => .error .invalidContent
  | _ => .error .isADirectory

/-- The path of names from the root. -/
def pathOf (names : List Text) : Path :=
  '/' :: ['/'].intercalate names

/-- The path without links, `.` and `..` that leads to the same place. -/
def canonical (t : FileTree) (path : Path) : Except FileError Path :=
  (t.resolve path).map pathOf

def names (path : Path) : List Text :=
  (path.splitOn '/').filter (!Path.isNoise ·)

/-- The pieces of a path before its last name, and that name. -/
def splitName? (path : Path) : Option (List Text × Text) :=
  match (names path).reverse with
  | [] => none
  | last :: before => if last = ['.', '.'] then none else some (before.reverse, last)

/-- The names on the way from the root to the entry that a path ends in, be it there or not. A link
there is not followed. -/
def place? (t : FileTree) (path : Path) : Option (List Text) :=
  (splitName? path).bind fun (before, last) =>
    ((follow t.top linkLimit [] before).toOption).map (· ++ [last])

def isLink (t : FileTree) (path : Path) : Bool :=
  match (t.place? path).bind (FileNode.at? · t.top) with
  | some (.link _) => true
  | _ => false

/-- Follows pieces of a path from the directory with the names `dir` and makes the directories that
are missing on the way. Gives what the root holds then, and the names on the way unless something
other than a directory is in it. -/
def makeWay (top : FileNode) (dir : List Text) : List Text → FileNode × Option (List Text)
  | [] => (top, some dir)
  | piece :: pieces =>
    match follow top linkLimit dir [piece], top.at? (dir ++ [piece]) with
    | .ok found, _ =>
      match top.at? found with
      | some (.dir _) => makeWay top found pieces
      | _ => (top, none)
    | .error .notFound, none =>
      makeWay (FileNode.put (.dir []) (dir ++ [piece]) top) (dir ++ [piece]) pieces
    | .error _, _ => (top, none)

/-- Where a file is written under a name in a directory: at the end of the links that begin there,
of which at most `links` are followed. No file takes the place of a directory. -/
def filePlace? (top : FileNode) : Nat → List Text → Text → Option (List Text)
  | links, dir, name =>
    match links, top.at? (dir ++ [name]) with
    | _, some (.dir _) => none
    | links + 1, some (.link target) => do
      let (before, last) ← splitName? target
      let start := if Path.isAbsolute target then [] else dir
      filePlace? top links (← (follow top links start before).toOption) last
    | 0, some (.link _) => none
    | _, _ => if 255 < Text.byteCount name then none else some (dir ++ [name])

/-- A file system with a directory made, and those around it. -/
def makeDir (t : FileTree) (path : Path) : FileTree :=
  ⟨(makeWay t.top [] (path.splitOn '/')).1⟩

/-- A file system with the directories made around the entry that a path ends in, and the names on
the way to the entry's directory and its own name. -/
def makePlace (t : FileTree) (path : Path) : FileTree × Option (List Text × Text) :=
  match splitName? path with
  | none => (t, none)
  | some (before, last) =>
    let (top, dir) := makeWay t.top [] before
    (⟨top⟩, dir.map (·, last))

/-- A file system with a file written, and the directories around it made. A directory stays. -/
def write (t : FileTree) (path : Path) (content : ByteArray) : FileTree :=
  match t.makePlace path with
  | (t, none) => t
  | (t, some (dir, last)) =>
    match filePlace? t.top linkLimit dir last with
    | some place => ⟨FileNode.put (.file content) place t.top⟩
    | none => t

/-- A file system with a link made where nothing is. -/
def makeLink (t : FileTree) (path target : Path) : FileTree :=
  match t.makePlace path with
  | (t, none) => t
  | (t, some (dir, last)) =>
    if (t.top.at? (dir ++ [last])).isSome then t
    else ⟨FileNode.put (.link target) (dir ++ [last]) t.top⟩

/-- A file system without a file, a link, or a directory and all that it holds. -/
def remove (t : FileTree) (path : Path) : FileTree :=
  match t.place? path with
  | some place => ⟨t.top.remove place⟩
  | none => t

/-- Whether a node may take the place of another: a directory that of an empty directory, and
anything else that of anything but a directory. -/
def mayReplace : FileNode → FileNode → Bool
  | .dir _, .dir entries => entries.isEmpty
  | .dir _, _ => false
  | _, .dir _ => false
  | _, _ => true

/-- A file system with an entry moved, if it is there and may be there. Nothing is moved below
itself. -/
def rename (t : FileTree) (source target : Path) : FileTree :=
  match t.makePlace target with
  | (t, none) => t
  | (t, some (dir, last)) =>
    let new := dir ++ [last]
    match t.place? source with
    | none => t
    | some old =>
      match t.top.at? old with
      | none => t
      | some node =>
        if old.isPrefixOf new || !((t.top.at? new).all (mayReplace node)) then t
        else ⟨FileNode.put node new (t.top.remove old)⟩

/-! ### Walks -/

/-- What a walk meets. -/
inductive EntryKind where
  | file | dir | link
deriving DecidableEq

mutual

/-- The paths at and below a node, each with its kind. A directory below the start for which
`prune` holds is left out with all that it holds; links are not followed. -/
def walkNode (prune : Path → Bool) (path : Path) : FileNode → List (Path × EntryKind)
  | .file _ => [(path, .file)]
  | .link _ => [(path, .link)]
  | .dir entries => (path, .dir) :: walkEntries prune path entries

/-- The paths of the entries of a directory and of what lies below them. -/
def walkEntries (prune : Path → Bool) (path : Path) :
    List (Text × FileNode) → List (Path × EntryKind)
  | [] => []
  | (name, .dir inner) :: entries =>
    let child := Path.join path name
    (if prune child then [] else (child, .dir) :: walkEntries prune child inner) ++
      walkEntries prune path entries
  | (name, node) :: entries =>
    walkNode prune (Path.join path name) node ++ walkEntries prune path entries

end

/-- The paths at and below a root, unless it is gone. A root that is a link to a directory is shown
as a link, but what lies below it is walked. -/
def walk? (t : FileTree) (prune : Path → Bool) (root : Path) : Option (List (Path × EntryKind)) :=
  match t.find root with
  | .ok (.dir entries) =>
    some ((root, if t.isLink root then .link else .dir) :: walkEntries prune root entries)
  | .ok node => some (walkNode prune root node)
  | .error _ => none

end FileTree

end WorkspaceLink
