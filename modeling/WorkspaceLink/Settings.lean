import WorkspaceLink.Text.Basic

/-!
Settings of the watcher, of exclusion and of rendering, with their defaults and the checks that a
settings file must pass.
-/

namespace WorkspaceLink

/-- Counts and durations in settings are below this bound. -/
def wordBound : Nat := 0x10000000000000000

/-- Settings of the workspace watcher. Times are in milliseconds. -/
structure WatchSettings where
  debounceMs : Nat
  openBatchSize : Nat
  openBatchPauseMs : Nat
  openOnRegister : Bool
  verbose : Bool
deriving DecidableEq

/-- Which paths the watcher leaves alone. -/
structure ExclusionSettings where
  dirs : List Text
  extensions : List Text
  binaryExtensions : List Text
  maxFileSize : Nat
  ignoreFile : Text
deriving DecidableEq

/-- Limits on rendered code. -/
structure RenderSettings where
  maxLines : Nat
  headLines : Nat
  tailLines : Nat
  contextLines : Nat
  fallbackContextLines : Nat
  referencesPerLine : Nat
deriving DecidableEq

structure Settings where
  watch : WatchSettings
  exclude : ExclusionSettings
  render : RenderSettings
deriving DecidableEq

/-- A quiet period of 300 ms, and a pause of 10 ms after every 100 files. -/
def WatchSettings.default : WatchSettings :=
  { debounceMs := 300, openBatchSize := 100, openBatchPauseMs := 10, openOnRegister := true,
    verbose := false }

/-- Build products, editor leftovers, binary formats and files over 5 MiB are left alone. -/
def ExclusionSettings.default : ExclusionSettings :=
  { dirs := [".git", "node_modules", "dist", "build", "out", "bin", ".idea", ".vscode", ".cache",
      "coverage", "target", "vendor"].map String.toList
    extensions := [".swp", ".swo", ".tmp", ".temp", ".bak", ".log", ".o", ".so", ".dylib", ".dll",
      ".a", ".exe", ".lock"].map String.toList
    binaryExtensions := [".png", ".jpg", ".jpeg", ".gif", ".bmp", ".ico", ".zip", ".tar", ".gz",
      ".rar", ".7z", ".pdf", ".mp3", ".mp4", ".mov", ".wav", ".wasm"].map String.toList
    maxFileSize := 5 * 1024 * 1024
    ignoreFile := ".gitignore" }

/-- Fifty lines are shown whole; of longer scopes the head, the tail and two lines on either side
of a reference. -/
def RenderSettings.default : RenderSettings :=
  { maxLines := 50, headLines := 5, tailLines := 3, contextLines := 2, fallbackContextLines := 5,
    referencesPerLine := 4 }

/-- The settings that hold where a settings file says nothing. -/
def Settings.default : Settings :=
  ⟨.default, .default, .default⟩

instance : Inhabited WatchSettings := ⟨.default⟩
instance : Inhabited ExclusionSettings := ⟨.default⟩
instance : Inhabited RenderSettings := ⟨.default⟩
instance : Inhabited Settings := ⟨.default⟩

/-- A setting with a value that the watcher or the renderer cannot work with. -/
inductive SettingsFault where
  | noBatch
  | noReferencesPerLine
  | windowTooSmall
deriving DecidableEq

namespace SettingsFault

def option : SettingsFault → Text
  | noBatch => "watch.open_batch_size"
  | noReferencesPerLine => "render.references_per_line"
  | windowTooSmall => "render.max_lines"

def reason : SettingsFault → Text
  | noBatch => "must be at least 1"
  | noReferencesPerLine => "must be at least 1"
  | windowTooSmall => "must be at least head_lines + tail_lines"

end SettingsFault

/-- The first fault of the settings, if they have one. -/
def Settings.fault? (s : Settings) : Option SettingsFault :=
  if s.watch.openBatchSize = 0 then some .noBatch
  else if s.render.referencesPerLine = 0 then some .noReferencesPerLine
  else if s.render.maxLines < s.render.headLines + s.render.tailLines then some .windowTooSmall
  else none

end WorkspaceLink
