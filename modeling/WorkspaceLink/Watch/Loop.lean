import WorkspaceLink.Watch.Run

/-!
The loop of a watcher. Events come from their source one after the other and wait in line until the
loop takes them up. The loop handles the operations of an event in turn, and between two of them
anything may happen beside it. Before it takes up another event it looks whether it has been told to
stop.
-/

namespace WorkspaceLink

/-- What a source of events brings. -/
inductive SourceItem where
  | event (e : FileEvent)
  | failure (cause : Text)

/-- Whether a step of a watcher is none of its loop. -/
def WatchStep.isBeside : WatchStep → Bool
  | register _ _ => true
  | unregister _ => true
  | beginWalk => true
  | visit _ => true
  | advance _ => true
  | change _ _ _ => true
  | _ => false

/-- What can happen at one moment to a watcher and its loop. -/
inductive LoopStep where
  | beside (x : WatchStep) (h : x.isBeside = true)
  | start (sourceFailure : Option Text)
  | arrive (item : SourceItem)
  /-- The loop goes on by one operation, takes up what comes next, or ends. -/
  | turn
  | cancel
  /-- The next loop gets a way of its own to be told to stop. -/
  | rearm

/-- A watcher with its loop: what waits in line, what is left of the event that the loop handles, and
whether it has been told to stop. -/
structure LoopSystem where
  system : WatchSystem
  queue : List SourceItem := []
  rest : List (FileOperation × Path) := []
  told : Bool := false

namespace LoopSystem

variable (w : Watcher)

/-- The turn of a running loop. With the loop, its source ends, and what is in line is dropped. -/
def turn (y : LoopSystem) : LoopSystem :=
  match y.rest with
  | (op, path) :: rest => { y with system := y.system.step w (.operation op path), rest }
  | [] =>
    if y.told then { y with system := y.system.step w .cancel, queue := [] }
    else match y.queue with
      | [] => y
      | .event e :: queue => { y with queue, rest := e.operations }
      | .failure cause :: _ => { y with system := y.system.step w (.failSource cause), queue := [] }

/-- The system after a step. Without a running loop there is no source, and nothing arrives. -/
def step (y : LoopSystem) : LoopStep → LoopSystem
  | .beside x _ => { y with system := y.system.step w x }
  | .start sourceFailure =>
    if y.system.running then y else { y with system := y.system.step w (.start sourceFailure) }
  | .arrive item => if y.system.running then { y with queue := y.queue ++ [item] } else y
  | .turn => if y.system.running then y.turn w else y
  | .cancel =>
    if y.system.running then { y with told := true }
    else { y with system := y.system.step w .cancel, told := true }
  | .rearm =>
    if y.system.running then y else { y with system := y.system.step w .rearm, told := false }

/-- The system after steps in turn. -/
def run (y : LoopSystem) (steps : List LoopStep) : LoopSystem :=
  steps.foldl (step w) y

end LoopSystem

/-- A run of a watcher with its loop. -/
structure LoopRun where
  watcher : Watcher
  files : FileTree
  client : WatchClient := {}
  late : Nat → Bool := fun _ => false
  steps : List LoopStep

namespace LoopRun

variable (r : LoopRun)

/-- The watcher to which nothing has happened yet. -/
def initial : LoopSystem :=
  let debouncer := { late := r.late }
  { system := { state := { files := r.files, client := r.client, debouncer } } }

/-- The system before the `n`-th step; after the last step it stays as it is. -/
def system (n : Nat) : LoopSystem :=
  r.initial.run r.watcher (r.steps.take n)

def running (n : Nat) : Bool :=
  (r.system n).system.running

/-- The calls to the client in the `n`-th step, each with its time. -/
def callsAt (n : Nat) : List (Nat × WatchCall) :=
  (r.system (n + 1)).system.state.client.calls.drop (r.system n).system.state.client.calls.length

end LoopRun

end WorkspaceLink
