import WorkspaceLink.Exclusion
import WorkspaceLink.Watch.Debouncer
import WorkspaceLink.Watch.Error
import WorkspaceLink.Watch.Event
import WorkspaceLink.Watch.Registry

/-!
The workspace watcher. File operations become calls to a language client: files are opened and
deletions reported at once, creations and changes after a quiet period. The state holds all that
later calls depend on, the file system and the client included.
-/

namespace WorkspaceLink

/-- A call that the watcher makes to the language client. -/
inductive WatchCall where
  | «open» (path : Path)
  | change (path : Path)
  | watched (uri : DocumentUri) (change : FileChange)
deriving DecidableEq

/-- The language client as the watcher sees it: the files it has open and the calls made to it, in
order. Whether the `n`-th repetition of a call fails is given. -/
structure WatchClient where
  failure? : WatchCall → Nat → Option ClientError := fun _ _ => none
  opened : List Path := []
  calls : List (Nat × WatchCall) := []

namespace WatchClient

def isOpen (c : WatchClient) (path : Path) : Bool :=
  c.opened.any (Path.same path)

/-- The failure of a call made now, if it fails. -/
def nextFailure? (c : WatchClient) (call : WatchCall) : Option ClientError :=
  c.failure? call (c.calls.countP (·.2 = call))

/-- The client after a call. A file that was opened stays open. -/
def send (c : WatchClient) (time : Nat) (call : WatchCall) : WatchClient :=
  let opened :=
    match call, c.nextFailure? call with
    | .open path, none => if c.isOpen path then c.opened else c.opened ++ [path]
    | _, _ => c.opened
  { c with opened, calls := c.calls ++ [(time, call)] }

def close (c : WatchClient) (path : Path) : WatchClient :=
  { c with opened := c.opened.filter fun p => !Path.same path p }

end WatchClient

/-- What a pending notification is about. The same file may be spelled in several ways. -/
structure NotificationKey where
  path : Path
  change : FileChange

instance : BEq NotificationKey where
  beq a b := Path.same a.path b.path && a.change == b.change

namespace NotificationKey

theorem beq_iff {a b : NotificationKey} :
    (a == b) = true ↔ Path.same a.path b.path = true ∧ a.change = b.change := by
  simp [BEq.beq, Bool.and_eq_true]

instance : EquivBEq NotificationKey where
  rfl := beq_iff.mpr ⟨Path.same_iff.mpr rfl, rfl⟩
  symm h := by
    simp only [beq_iff, Path.same_iff] at h ⊢
    exact ⟨h.1.symm, h.2.symm⟩
  trans h k := by
    simp only [beq_iff, Path.same_iff] at h k ⊢
    exact ⟨h.1.trans k.1, h.2.trans k.2⟩

end NotificationKey

/-- A watcher: its root, and the rules and settings that it was made with. -/
structure Watcher where
  root : Path
  policy : ExclusionPolicy
  settings : WatchSettings

inductive LoopStatus where
  | idle
  | running
  | ended (result : Except WatchError Unit)

def LoopStatus.isRunning : LoopStatus → Bool
  | running => true
  | _ => false

/-- The state of a watcher and of the world around it. -/
structure WatchState where
  files : FileTree
  registry : Registry := {}
  debouncer : Debouncer NotificationKey Path := {}
  client : WatchClient := {}
  subscribed : List Path := []
  unwatchable : List Path := []
  loop : LoopStatus := .idle
  /-- Whether the watcher has been told to stop. -/
  cancelled : Bool := false

namespace Watcher

/-- A watcher for a workspace, whose root must be there. -/
def ofRoot (t : FileTree) (root : Path) (s : Settings) : Except WatchError Watcher :=
  match t.canonical root with
  | .error _ => .error (.pathNotFound root)
  | .ok root => .ok ⟨root, .ofSettings t root s.exclude, s.watch⟩

end Watcher

namespace WatchState

variable (w : Watcher)

/-- The time in milliseconds. -/
def now (s : WatchState) : Nat :=
  s.debouncer.now

/-- The state after a call to the client. -/
def call (s : WatchState) (time : Nat) (c : WatchCall) : WatchState :=
  { s with client := s.client.send time c }

/-- Reports a change of a file. A change to the content of an open file is reported in place. -/
def dispatch (s : WatchState) (time : Nat) (path : Path) (change : FileChange) : WatchState :=
  if change = .changed ∧ s.client.isOpen path then s.call time (.change path)
  else s.call time (.watched (.ofPath path) change)

/-- Lets time pass; pending notifications are sent when they are due. -/
def advance (s : WatchState) (ms : Nat) : WatchState :=
  let fired := s.debouncer.expired ms
  fired.foldl (fun s t => s.dispatch t.due t.action t.key.change)
    { s with debouncer := s.debouncer.advance ms }

/-- Plans the report of a change after the quiet period. -/
def schedule (s : WatchState) (path : Path) (change : FileChange) : WatchState :=
  { s with debouncer := s.debouncer.schedule ⟨path, change⟩ w.settings.debounceMs path }

/-- Subscribes a directory, if it can be subscribed. -/
def subscribe? (s : WatchState) (dir : Path) : Option WatchState :=
  if s.unwatchable.any (Path.same dir) then none
  else some { s with subscribed := s.subscribed ++ [dir] }

/-! ### Operations on files -/

/-- A new file is opened and its creation reported later; a new directory is subscribed. -/
def onCreated (s : WatchState) (path : Path) : WatchState :=
  match s.files.find path with
  | .error _ => s
  | .ok (.dir _) =>
    if w.policy.excludesDir path then s else (s.subscribe? path).getD s
  | .ok _ =>
    if w.policy.excludesFile s.files path then s
    else match s.registry.mask? path with
      | none => s
      | some mask =>
        let s := s.call s.now (.open path)
        if mask.wants .created then s.schedule w path .created else s

/-- A written file is reported later. -/
def onWritten (s : WatchState) (path : Path) : WatchState :=
  match s.registry.mask? path with
  | none => s
  | some mask =>
    if mask.wants .changed ∧ !w.policy.excludesFile s.files path then
      s.schedule w path .changed
    else s

/-- A deletion is reported at once, and a pending report of a change is dropped. As the file is
gone, only rules about its path apply. -/
def onRemoved (s : WatchState) (path : Path) : WatchState :=
  match s.registry.mask? path with
  | none => s
  | some mask =>
    if !mask.wants .deleted ∨ w.policy.excludesPath path then s
    else
      let s := { s with debouncer := s.debouncer.cancel ⟨path, .changed⟩ }
      s.dispatch s.now path .deleted

/-- A renamed path is reported deleted and, if a file is there now, handled as created. -/
def onRenamed (s : WatchState) (path : Path) : WatchState :=
  let s := s.onRemoved w path
  if s.files.isFile path then s.onCreated w path else s

def onOperation (s : WatchState) (op : FileOperation) (path : Path) : WatchState :=
  match op with
  | .created => s.onCreated w path
  | .written => s.onWritten w path
  | .removed => s.onRemoved w path
  | .renamed => s.onRenamed w path

def onEvent (s : WatchState) (e : FileEvent) : WatchState :=
  e.operations.foldl (fun s (op, path) => s.onOperation w op path) s

/-! ### The loop -/

/-- Ends the loop: no notification planned before is sent after. -/
def endLoop (s : WatchState) (result : Except WatchError Unit) : WatchState :=
  { s with loop := .ended result, debouncer := s.debouncer.cancelAll }

/-- The directories of the workspace that are not excluded, unless the root is gone. -/
def directories? (s : WatchState) : Option (List Path) :=
  (s.files.walk? w.policy.excludesDir w.root).map fun entries =>
    (entries.filter (·.2 = .dir)).map (·.1)

/-- Subscribes directories in turn, up to the first that cannot be subscribed, which it gives. -/
def subscribeAll (s : WatchState) : List Path → WatchState × Option Path
  | [] => (s, none)
  | dir :: dirs =>
    match s.subscribe? dir with
    | some s => s.subscribeAll dirs
    | none => (s, some dir)

/-- Starts the loop. It does not start if the source of events cannot be made, the workspace cannot
be walked or a directory cannot be subscribed; after a cancellation it ends at once. -/
def start (s : WatchState) (sourceFailure : Option Text) : WatchState :=
  match sourceFailure, s.directories? w with
  | some cause, _ => { s with loop := .ended (.error (.eventSource cause)) }
  | none, none => { s with loop := .ended (.error (.walk w.root)) }
  | none, some dirs =>
    match s.subscribeAll dirs with
    | (s, some dir) => { s with loop := .ended (.error (.eventSource ("cannot watch " ++ dir))) }
    | (s, none) => if s.cancelled then s.endLoop (.ok ()) else { s with loop := .running }

/-- Handles events that the running loop receives together. Notifications that are due at once are
sent after all of them. -/
def deliver (s : WatchState) (events : List FileEvent) : WatchState :=
  if s.loop.isRunning then (events.foldl (fun s e => s.onEvent w e) s).advance 0 else s

/-- The source of events fails; a running loop ends. -/
def failSource (s : WatchState) (cause : Text) : WatchState :=
  if s.loop.isRunning then s.endLoop (.error (.eventSource cause)) else s

/-- Tells the watcher to stop, for good. -/
def cancel (s : WatchState) : WatchState :=
  let s := { s with cancelled := true }
  if s.loop.isRunning then s.endLoop (.ok ()) else s

end WatchState

end WorkspaceLink
