import WorkspaceLink.Watch.OpenWalk

/-!
Runs of a watcher. What happens to a watcher and to the world around it comes one step at a time
and in any order: bulk walks go on beside the loop, and between two of their files anything may
happen. Time passes in steps of its own; a walk that pauses goes on when enough of it has passed.
-/

namespace WorkspaceLink

/-- What can happen at one moment. -/
inductive WatchStep where
  | register (id : Text) (registrations : List WatchRegistration)
  | unregister (id : Text)
  /-- A bulk walk begins: it lists the files that it will visit. -/
  | beginWalk
  /-- The `n`-th of the walks begun so far visits its next file, unless it pauses. -/
  | visit (n : Nat)
  | start (sourceFailure : Option Text)
  /-- The loop handles one operation of an event. -/
  | operation (op : FileOperation) (path : Path)
  | failSource (cause : Text)
  | cancel
  /-- The next loop gets a way of its own to be told to stop. -/
  | rearm
  | advance (ms : Nat)
  /-- The file system, the files open at the client and what can be subscribed change. -/
  | change (files : FileTree) (opened unwatchable : List Path)

/-- A bulk walk that has begun: the files that it has yet to visit, how many it has visited, and when
its last pause ends. -/
structure BulkWalk where
  paths : List Path
  visited : Nat := 0
  resumes : Nat := 0

namespace BulkWalk

/-- The file that a walk visits next, if it has one and does not pause. -/
def next? (walk : BulkWalk) (now : Nat) : Option Path :=
  if now < walk.resumes then none else walk.paths.head?

/-- The walk after its visit of a file. A pause begins after each batch. -/
def goOn (w : Watcher) (walk : BulkWalk) (now : Nat) : BulkWalk where
  paths := walk.paths.tail
  visited := walk.visited + 1
  resumes :=
    if (walk.visited + 1) % max w.settings.openBatchSize 1 = 0 then
      now + w.settings.openBatchPauseMs
    else walk.resumes

end BulkWalk

/-- A watcher's state and the bulk walks begun so far. -/
structure WatchSystem where
  state : WatchState
  walks : List BulkWalk := []

namespace WatchSystem

variable (w : Watcher)

def running (y : WatchSystem) : Bool :=
  y.state.loop.isRunning

/-- The `n`-th walk and the file that it visits next, if it has one and does not pause. -/
def next? (y : WatchSystem) (n : Nat) : Option (BulkWalk × Path) := do
  let walk ← y.walks[n]?
  let path ← walk.next? y.state.now
  some (walk, path)

/-- A walk visits its next file. -/
def visit (y : WatchSystem) (n : Nat) : WatchSystem :=
  match y.next? n with
  | some (walk, path) =>
    ⟨(y.state.openCandidate {} path).1, y.walks.set n (walk.goOn w y.state.now)⟩
  | none => y

/-- The system after a step. Without a running loop operations are lost, and no second loop is
started beside a running one. -/
def step (y : WatchSystem) : WatchStep → WatchSystem
  | .register id registrations =>
    { y with state.registry := y.state.registry.add id registrations }
  | .unregister id => { y with state := y.state.unregister id }
  | .beginWalk => { y with walks := y.walks ++ [{ paths := y.state.candidates w }] }
  | .visit n => y.visit w n
  | .start sourceFailure =>
    if y.running then y else { y with state := y.state.start w sourceFailure }
  | .operation op path =>
    if y.running then { y with state := y.state.onOperation w op path } else y
  | .failSource cause => { y with state := y.state.failSource cause }
  | .cancel => { y with state := y.state.cancel }
  | .rearm => if y.running then y else { y with state.cancelled := false }
  | .advance ms => { y with state := y.state.advance ms }
  | .change files opened unwatchable =>
    { y with state.files := files, state.client.opened := opened, state.unwatchable := unwatchable }

/-- The system after steps in turn. -/
def run (y : WatchSystem) (steps : List WatchStep) : WatchSystem :=
  steps.foldl (step w) y

end WatchSystem

/-- A run: a watcher to which nothing has happened yet, the world around it, and the steps that
follow. It is given which aborts of timers come too late. -/
structure WatchRun where
  watcher : Watcher
  files : FileTree
  client : WatchClient := {}
  late : Nat → Bool := fun _ => false
  steps : List WatchStep

namespace WatchRun

variable (r : WatchRun)

/-- The system before the `n`-th step; after the last step it stays as it is. -/
def system (n : Nat) : WatchSystem :=
  let debouncer := { late := r.late }
  .run r.watcher { state := { files := r.files, client := r.client, debouncer } } (r.steps.take n)

def state (n : Nat) : WatchState :=
  (r.system n).state

/-- The time before the `n`-th step. -/
def clock (n : Nat) : Nat :=
  (r.state n).now

/-- The calls to the client in the `n`-th step, each with its time. -/
def callsAt (n : Nat) : List (Nat × WatchCall) :=
  (r.state (n + 1)).client.calls.drop (r.state n).client.calls.length

end WatchRun

end WorkspaceLink
