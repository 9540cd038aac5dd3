import WorkspaceLink.FileTree
import WorkspaceLink.Scope.SourceText

/-!
Source texts from files.
-/

namespace WorkspaceLink.SourceText

/-- The text of a file, whose errors name it as `shown`. -/
def readAs (t : FileTree) (shown path : Path) : Except ScopeError SourceText :=
  match t.readText path with
  | .ok content => .ok (.ofContent content)
  | .error e => .error (.read shown e.message)

/-- The text of a file. -/
def read (t : FileTree) (path : Path) : Except ScopeError SourceText :=
  readAs t path path

end WorkspaceLink.SourceText
