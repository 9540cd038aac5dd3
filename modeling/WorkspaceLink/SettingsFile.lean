import WorkspaceLink.FileTree
import WorkspaceLink.Wire.Watching

/-!
Settings files: JSON files with the settings that differ from the defaults.
-/

namespace WorkspaceLink

inductive SettingsError where
  /-- A path in the settings is no good. -/
  | invalidPath (path reason : Text)
  /-- A setting has a value that cannot be worked with. -/
  | invalidOption (option reason : Text)
  | unreadable (cause : FileError)
  | unparsable (fault : Fault)
deriving DecidableEq

namespace SettingsError

/-- The error that a fault of the settings is. -/
def ofFault (fault : SettingsFault) : SettingsError :=
  .invalidOption fault.option fault.reason

def message : SettingsError → Text
  | invalidPath path reason => "invalid path '" ++ path ++ "': " ++ reason
  | invalidOption option reason => "invalid configuration option '" ++ option ++ "': " ++ reason
  | unreadable cause => "failed to read configuration: " ++ cause.message
  | unparsable fault => "failed to parse configuration: " ++ fault.message

end SettingsError

namespace Settings

def checked (s : Settings) : Except SettingsError Settings :=
  match s.fault? with
  | some fault => .error (.ofFault fault)
  | none => .ok s

/-- The settings in a file. The file must be there, hold settings, and these must have no fault. -/
def load (t : FileTree) (path : Path) : Except SettingsError Settings := do
  let text ← (t.readText path).mapError .unreadable
  let settings ← (Json.parse reader text).mapError .unparsable
  settings.checked

end Settings

end WorkspaceLink
