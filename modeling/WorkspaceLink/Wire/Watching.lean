import WorkspaceLink.Settings
import WorkspaceLink.Watch.Registration
import WorkspaceLink.Wire.Document

/-!
The JSON of watch registrations and of settings. Settings that are not given keep their defaults.
-/

namespace WorkspaceLink

open Json Json.Reader

namespace WatchMask

def toJson (m : WatchMask) : Json :=
  .nat m.bits

def reader : Reader WatchMask := fun levels j =>
  (natBelow 256 levels j).map ofBits

end WatchMask

namespace FileChange

def toJson (c : FileChange) : Json :=
  .nat c.toNumber

def reader : Reader FileChange :=
  filterMap (natBelow 256) ofNumber?

end FileChange

namespace GlobSpec

def toJson (g : GlobSpec) : Json :=
  .record (optionalMember "basePath" g.base .string ++ [("pattern", .string g.pattern)])

structure Fields where
  base : Option Text := none
  pattern : Option Text := none

def put (levels : Nat) (name : String) (f : Fields) (v : Json) : Except Fault Fields :=
  match name with
  | "basePath" => do return { f with base := ← optional text levels v }
  | _ => do return { f with pattern := some (← text levels v) }

def reader : Reader GlobSpec := fun levels j => do
  let f ← fields ["basePath", "pattern"] put {} levels j
  return ⟨f.base, ← required f.pattern⟩

end GlobSpec

namespace WatchRegistration

def toJson (r : WatchRegistration) : Json :=
  .record ([("globPattern", r.glob.toJson)] ++ optionalMember "kind" r.kind WatchMask.toJson)

structure Fields where
  glob : Option GlobSpec := none
  kind : Option WatchMask := none

def put (levels : Nat) (name : String) (f : Fields) (v : Json) : Except Fault Fields :=
  match name with
  | "globPattern" => do return { f with glob := some (← GlobSpec.reader levels v) }
  | _ => do return { f with kind := ← optional WatchMask.reader levels v }

def reader : Reader WatchRegistration := fun levels j => do
  let f ← fields ["globPattern", "kind"] put {} levels j
  return ⟨← required f.glob, f.kind⟩

end WatchRegistration

def word : Reader Nat :=
  natBelow wordBound

namespace WatchSettings

def toJson (s : WatchSettings) : Json :=
  .record [("debounce_ms", .nat s.debounceMs), ("open_batch_size", .nat s.openBatchSize),
    ("open_batch_pause_ms", .nat s.openBatchPauseMs),
    ("open_on_register", .bool s.openOnRegister), ("verbose", .bool s.verbose)]

def put (levels : Nat) (name : String) (s : WatchSettings) (v : Json) :
    Except Fault WatchSettings :=
  match name with
  | "debounce_ms" => do return { s with debounceMs := ← word levels v }
  | "open_batch_size" => do return { s with openBatchSize := ← word levels v }
  | "open_batch_pause_ms" => do return { s with openBatchPauseMs := ← word levels v }
  | "open_on_register" => do return { s with openOnRegister := ← bool levels v }
  | _ => do return { s with verbose := ← bool levels v }

def reader : Reader WatchSettings :=
  fields ["debounce_ms", "open_batch_size", "open_batch_pause_ms", "open_on_register", "verbose"]
    put .default

end WatchSettings

namespace ExclusionSettings

def toJson (s : ExclusionSettings) : Json :=
  .record [("dirs", .list (s.dirs.map .string)), ("extensions", .list (s.extensions.map .string)),
    ("binary_extensions", .list (s.binaryExtensions.map .string)),
    ("max_file_size", .nat s.maxFileSize), ("ignore_file", .string s.ignoreFile)]

def put (levels : Nat) (name : String) (s : ExclusionSettings) (v : Json) :
    Except Fault ExclusionSettings :=
  match name with
  | "dirs" => do return { s with dirs := ← list text levels v }
  | "extensions" => do return { s with extensions := ← list text levels v }
  | "binary_extensions" => do return { s with binaryExtensions := ← list text levels v }
  | "max_file_size" => do return { s with maxFileSize := ← word levels v }
  | _ => do return { s with ignoreFile := ← text levels v }

def reader : Reader ExclusionSettings :=
  fields ["dirs", "extensions", "binary_extensions", "max_file_size", "ignore_file"] put .default

end ExclusionSettings

namespace RenderSettings

def toJson (s : RenderSettings) : Json :=
  .record [("max_lines", .nat s.maxLines), ("head_lines", .nat s.headLines),
    ("tail_lines", .nat s.tailLines), ("context_lines", .nat s.contextLines),
    ("fallback_context_lines", .nat s.fallbackContextLines),
    ("references_per_line", .nat s.referencesPerLine)]

def put (levels : Nat) (name : String) (s : RenderSettings) (v : Json) :
    Except Fault RenderSettings :=
  match name with
  | "max_lines" => do return { s with maxLines := ← word levels v }
  | "head_lines" => do return { s with headLines := ← word levels v }
  | "tail_lines" => do return { s with tailLines := ← word levels v }
  | "context_lines" => do return { s with contextLines := ← word levels v }
  | "fallback_context_lines" => do
    return { s with fallbackContextLines := ← natBelow coordBound levels v }
  | _ => do return { s with referencesPerLine := ← word levels v }

def reader : Reader RenderSettings :=
  fields ["max_lines", "head_lines", "tail_lines", "context_lines", "fallback_context_lines",
    "references_per_line"] put .default

end RenderSettings

namespace Settings

def toJson (s : Settings) : Json :=
  .record [("watch", s.watch.toJson), ("exclude", s.exclude.toJson), ("render", s.render.toJson)]

def put (levels : Nat) (name : String) (s : Settings) (v : Json) : Except Fault Settings :=
  match name with
  | "watch" => do return { s with watch := ← WatchSettings.reader levels v }
  | "exclude" => do return { s with exclude := ← ExclusionSettings.reader levels v }
  | _ => do return { s with render := ← RenderSettings.reader levels v }

def reader : Reader Settings :=
  fields ["watch", "exclude", "render"] put .default

end Settings

end WorkspaceLink
