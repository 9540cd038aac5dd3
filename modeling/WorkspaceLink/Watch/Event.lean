import WorkspaceLink.DocumentUri

/-!
Events of the file system, and the operations on files that they stand for.
-/

namespace WorkspaceLink

/-- The part of a rename that an event tells about. -/
inductive RenameMode where
  | any | source | target | both | other
deriving DecidableEq

/-- What an event says was modified. -/
inductive ModifyKind where
  | any | data | metadata
  | name (mode : RenameMode)
  | other
deriving DecidableEq

/-- What an event says happened. -/
inductive EventKind where
  | any | access | create
  | modify (kind : ModifyKind)
  | remove
  | other
deriving DecidableEq

/-- An event, with the paths that it is about as bytes. -/
structure FileEvent where
  kind : EventKind
  paths : List (List UInt8)

/-- An operation on a file that calls for something to be done. A rename leaves open whether the
path is the old name or the new one. -/
inductive FileOperation where
  | created | written | removed | renamed
deriving DecidableEq

/-- The operation that a kind of event stands for, if any. The new name of a rename is created; an
event that holds both names repeats what was told about each. -/
def EventKind.operation? : EventKind → Option FileOperation
  | create => some .created
  | modify (.name .target) => some .created
  | modify (.name .both) => none
  | modify (.name _) => some .renamed
  | modify .metadata => none
  | modify _ => some .written
  | remove => some .removed
  | access => none
  | any => none
  | other => none

/-- The operations that an event stands for, each with its path. Paths that are no text are passed
over. -/
def FileEvent.operations (e : FileEvent) : List (FileOperation × Path) :=
  match e.kind.operation? with
  | some op => (e.paths.filterMap Text.decode?).map (op, ·)
  | none => []

end WorkspaceLink
