import WorkspaceLink.Proofs.Watcher.Operation
import WorkspaceLink.Watch.OpenWalk

/-! What a bulk open walk does with one of its files: it asks the client to open the file if that is
needed, counts it, and pauses if a batch ends with it. -/

namespace WorkspaceLink.WatchState

def isWatched (s : WatchState) (path : Path) : Bool :=
  (s.registry.mask? path).isSome

/-- Whether a walk asks the client to open a file. -/
def needsOpening (s : WatchState) (path : Path) : Bool :=
  s.isWatched path && !s.client.isOpen path

/-- Whether the client fails to open a file when it is next asked. -/
def failsToOpen (s : WatchState) (path : Path) : Bool :=
  (s.client.nextFailure? (.open path)).isSome

/-- Whether the visit of a file leads to a call that opens it. -/
def opensAtVisit (s : WatchState) (path : Path) : Bool :=
  s.needsOpening path && !s.failsToOpen path

/-- Whether the visit of a file leads to a call that fails. -/
def failsAtVisit (s : WatchState) (path : Path) : Bool :=
  s.needsOpening path && s.failsToOpen path

/-- The state after a walk has asked for a file, if it does so. -/
def request (s : WatchState) (path : Path) : WatchState :=
  if s.needsOpening path then s.call s.now (.open path) else s

/-- The state after the pause that a walk makes if a batch ends with the files visited so far. -/
def pauseAfter (w : Watcher) (s : WatchState) (visited : ℕ) : WatchState :=
  if visited % max w.settings.openBatchSize 1 = 0 then s.advance w.settings.openBatchPauseMs else s

/-- The statistics after the visit of a file. -/
def count (s : WatchState) (stats : OpenStats) (path : Path) : OpenStats where
  scanned := stats.scanned + 1
  matched := stats.matched + (s.isWatched path).toNat
  opened := stats.opened + (s.opensAtVisit path).toNat
  failed := stats.failed + (s.failsAtVisit path).toNat

theorem openCandidate_eq (s : WatchState) (stats : OpenStats) (path : Path) :
    s.openCandidate stats path =
      (s.request path, { s.count stats path with scanned := stats.scanned }) := by
  rw [openCandidate, request, count, opensAtVisit, failsAtVisit, needsOpening, isWatched, failsToOpen]
  cases s.registry.mask? path with
  | none => rfl
  | some mask =>
    cases s.client.isOpen path with
    | true => rfl
    | false => cases s.client.nextFailure? (.open path) <;> rfl

theorem openEach_cons (w : Watcher) (s : WatchState) (stats : OpenStats) (path : Path)
    (paths : List Path) : s.openEach w stats (path :: paths) =
      ((s.request path).pauseAfter w (stats.scanned + 1)).openEach w (s.count stats path) paths := by
  rw [openEach, openCandidate_eq]
  rfl

theorem request_frame (s : WatchState) (path : Path) :
    ∃ client, s.request path = { s with client } := by
  rw [request]
  split <;> exact ⟨_, rfl⟩

end WorkspaceLink.WatchState
