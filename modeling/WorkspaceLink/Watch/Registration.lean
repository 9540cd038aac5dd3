import WorkspaceLink.Text.Basic

/-!
Registrations: which files a server wants to hear about, and about which kinds of change.
-/

namespace WorkspaceLink

/-- A change to a file that a server can be told about. -/
inductive FileChange where
  | created | changed | deleted
deriving DecidableEq, Inhabited

namespace FileChange

def toNumber : FileChange → Nat
  | created => 1
  | changed => 2
  | deleted => 3

def ofNumber? : Nat → Option FileChange
  | 1 => some created
  | 2 => some changed
  | 3 => some deleted
  | _ => none

def name : FileChange → Text
  | created => "created"
  | changed => "changed"
  | deleted => "deleted"

end FileChange

/-- The kinds of change that a registration asks for. -/
structure WatchMask where
  create : Bool
  change : Bool
  delete : Bool
deriving DecidableEq, Inhabited

namespace WatchMask

def all : WatchMask := ⟨true, true, true⟩

/-- The mask in the lowest three bits of a number; higher bits are dropped. -/
def ofBits (n : Nat) : WatchMask :=
  ⟨n.testBit 0, n.testBit 1, n.testBit 2⟩

/-- The number whose bits are a mask. -/
def bits (m : WatchMask) : Nat :=
  m.create.toNat + 2 * m.change.toNat + 4 * m.delete.toNat

theorem ofBits_bits (m : WatchMask) : ofBits m.bits = m := by
  obtain ⟨a, b, c⟩ := m
  cases a <;> cases b <;> cases c <;> decide

def wants (m : WatchMask) : FileChange → Bool
  | .created => m.create
  | .changed => m.change
  | .deleted => m.delete

/-- The mask that asks for one kind of change. -/
def only (c : FileChange) : WatchMask :=
  ⟨c = .created, c = .changed, c = .deleted⟩

end WatchMask

/-- A pattern for paths, which may be relative to a base directory. -/
structure GlobSpec where
  base : Option Text
  pattern : Text
deriving DecidableEq, Inhabited

/-- A server's wish to hear about the files of a pattern. -/
structure WatchRegistration where
  glob : GlobSpec
  kind : Option WatchMask
deriving DecidableEq, Inhabited

/-- The kinds of change that a registration asks for: all, unless it says. -/
def WatchRegistration.mask (r : WatchRegistration) : WatchMask :=
  r.kind.getD .all

end WorkspaceLink
