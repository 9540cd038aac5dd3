import WorkspaceLink.Text.Decimal
import WorkspaceLink.Text.Quoted
import WorkspaceLink.Watch.Watcher

/-!
The bulk open walk: every file of the workspace that is watched and not excluded is opened, with a
pause after each batch of files.
-/

namespace WorkspaceLink

/-- What came of a walk: files visited, files watched among them, files opened, and files that
could not be opened. -/
structure OpenStats where
  scanned : Nat := 0
  matched : Nat := 0
  opened : Nat := 0
  failed : Nat := 0
deriving DecidableEq

namespace WatchState

variable (w : Watcher)

/-- The files of the workspace that are not excluded; none if the root is gone. -/
def candidates (s : WatchState) : List Path :=
  let entries := (s.files.walk? w.policy.excludesDir w.root).getD []
  ((entries.filter (·.2 = .file)).map (·.1)).filter fun path =>
    !w.policy.excludesFile s.files path

/-- Opens a file if it is watched and not open yet, and counts it. -/
def openCandidate (s : WatchState) (stats : OpenStats) (path : Path) : WatchState × OpenStats :=
  if (s.registry.mask? path).isNone then (s, stats)
  else
    let stats := { stats with matched := stats.matched + 1 }
    if s.client.isOpen path then (s, stats)
    else
      let stats := match s.client.nextFailure? (.open path) with
        | none => { stats with opened := stats.opened + 1 }
        | some _ => { stats with failed := stats.failed + 1 }
      (s.call s.now (.open path), stats)

/-- Visits files in turn, with a pause after each batch. -/
def openEach (s : WatchState) (stats : OpenStats) : List Path → WatchState × OpenStats
  | [] => (s, stats)
  | path :: paths =>
    let (s, stats) := s.openCandidate stats path
    let stats := { stats with scanned := stats.scanned + 1 }
    let s := if stats.scanned % max w.settings.openBatchSize 1 = 0 then
      s.advance w.settings.openBatchPauseMs else s
    openEach s stats paths

/-- Opens all files of the workspace that are watched and not excluded. -/
def openAll (s : WatchState) : WatchState × OpenStats :=
  openEach w s {} (s.candidates w)

/-- Adds registrations and, if the settings ask for it, opens the files that are now watched. -/
def register (s : WatchState) (id : Text) (registrations : List WatchRegistration) :
    WatchState × Option OpenStats :=
  let s := { s with registry := s.registry.add id registrations }
  if w.settings.openOnRegister then
    let (s, stats) := s.openAll w
    (s, some stats)
  else (s, none)

def unregister (s : WatchState) (id : Text) : WatchState :=
  { s with registry := s.registry.remove id }

/-- A watcher's state as it is shown. -/
def describe (s : WatchState) : Text :=
  "WorkspaceWatcher \x7b root: " ++ w.root.quoted ++ ", registrations: " ++
    .ofNat s.registry.size ++ ", pending: " ++ .ofNat s.debouncer.pending ++ ", .. \x7d"

end WatchState

end WorkspaceLink
