import WorkspaceLink.Glob.Pattern

/-!
Active registrations in the order in which they were made. The first that matches a path decides
which changes to it are reported.
-/

namespace WorkspaceLink

/-- A registration with the name under which it can be dropped. -/
structure RegistryEntry where
  id : Text
  registration : WatchRegistration
deriving DecidableEq

/-- What a server does to its registrations. -/
inductive RegistryChange where
  | add (id : Text) (registrations : List WatchRegistration)
  | remove (id : Text)
deriving DecidableEq

/-- The active registrations, oldest first. -/
structure Registry where
  entries : List RegistryEntry := []
deriving DecidableEq, Inhabited

namespace Registry

/-- A registry with more registrations under a name. -/
def add (r : Registry) (id : Text) (registrations : List WatchRegistration) : Registry :=
  ⟨r.entries ++ registrations.map (⟨id, ·⟩)⟩

/-- A registry without the registrations under a name. -/
def remove (r : Registry) (id : Text) : Registry :=
  ⟨r.entries.filter (·.id ≠ id)⟩

def size (r : Registry) : Nat :=
  r.entries.length

def apply (r : Registry) : RegistryChange → Registry
  | .add id registrations => r.add id registrations
  | .remove id => r.remove id

/-- How many registrations a change adds or drops, which is its answer to the server. -/
def answer (r : Registry) (c : RegistryChange) : Nat :=
  match c with
  | .add .. => (r.apply c).size - r.size
  | .remove _ => r.size - (r.apply c).size

/-- The changes to report for a path: those that the first matching registration asks for, if one
matches, and all changes if there are no registrations. -/
def mask? (r : Registry) (path : Path) : Option WatchMask :=
  if r.entries.isEmpty then some .all
  else (r.entries.find? (·.registration.glob.matches path)).map (·.registration.mask)

end Registry

end WorkspaceLink
