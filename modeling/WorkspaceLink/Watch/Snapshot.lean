import WorkspaceLink.Watch.Event
import WorkspaceLink.Text.Utf8

/-!
Snapshots of a workspace. A system that sends no events is asked from time to time what files it
has; two such listings tell what has happened between them.
-/

namespace WorkspaceLink

/-- The paths of a workspace in ascending order, each with a stamp that changes when its content
does. -/
abbrev Snapshot := List (Path × Nat)

namespace Snapshot

/-- An event about one path. -/
def event (kind : EventKind) (path : Path) : FileEvent :=
  ⟨kind, [Text.utf8 path]⟩

/-- The event that tells of a path with another stamp than before, if it has one. -/
def written (path : Path) (before after : Nat) : List FileEvent :=
  if before = after then [] else [event (.modify .data) path]

/-- The events that lead from one listing to another. -/
def events : Snapshot → Snapshot → List FileEvent
  | old, [] => old.map fun (path, _) => event .remove path
  | [], new => new.map fun (path, _) => event .create path
  | (p, before) :: old, (q, after) :: new =>
    match compare p q with
    | .lt => event .remove p :: events old ((q, after) :: new)
    | .gt => event .create q :: events ((p, before) :: old) new
    | .eq => written q before after ++ events old new
termination_by old new => old.length + new.length

end Snapshot

end WorkspaceLink
