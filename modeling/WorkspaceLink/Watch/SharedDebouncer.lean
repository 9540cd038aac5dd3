import WorkspaceLink.Watch.Debouncer

/-!
A debouncer that several callers share. What an operation does is cut into the steps between which
others may come: a caller takes a generation before it locks the table, and a timer is a task, which
wakes, locks the table to look for its entry, and acts after it has let go of the lock. An abort
arrives in a step of its own, and perhaps too late for a task that is awake.
-/

namespace WorkspaceLink

/-- How far the task of a timer has come. One that is awake has yet to look at the table. -/
inductive TaskPhase where
  | asleep | awake | acting | finished | aborted
deriving DecidableEq

/-- What an abort makes of a task. It stops one that sleeps; whether it stops one that is awake or
acts depends on whether it comes too late. -/
def TaskPhase.abort (late : Bool) : TaskPhase → TaskPhase
  | asleep => aborted
  | awake => if late then awake else aborted
  | acting => if late then acting else aborted
  | finished => finished
  | aborted => aborted

/-- The task of a timer. -/
structure TimerTask (κ α : Type) extends Sleeper κ α where
  phase : TaskPhase

/-- A caller that has taken a generation for an action and has yet to lock the table. -/
structure PendingCall (κ α : Type) where
  key : κ
  delay : Nat
  action : α
  generation : Nat

/-- What callers and tasks do, one step at a time. -/
inductive TaskEvent (κ α : Type) where
  /-- A caller that schedules an action takes a generation. -/
  | take (key : κ) (delay : Nat) (action : α)
  /-- With the table locked it spawns the task and puts it in the place of the one before. -/
  | insert (key : κ) (generation : Nat)
  | cancel (key : κ)
  | cancelAll
  /-- The abort of a task arrives. -/
  | abort (generation : Nat) (late : Bool)
  | wake (generation : Nat)
  /-- A task finds its entry, takes it from the table, and its action starts. -/
  | start (generation : Nat)
  /-- A task does not find its entry. -/
  | giveUp (generation : Nat)
  | finish (generation : Nat)
  | pass (ms : Nat)

/-- The table of a debouncer with the callers and tasks around it. -/
structure SharedDebouncer (κ α : Type) where
  now : Nat := 0
  next : Nat := 0
  calls : List (PendingCall κ α) := []
  table : List (PendingEntry κ) := []
  tasks : List (TimerTask κ α) := []
  /-- The tasks whose abort has been asked for and has not arrived, by generation. -/
  aborts : List Nat := []

namespace SharedDebouncer

open Debouncer (generation? erase)

variable {κ α : Type}

def take (s : SharedDebouncer κ α) (key : κ) (delay : Nat) (action : α) : SharedDebouncer κ α :=
  { s with next := s.next + 1, calls := s.calls ++ [⟨key, delay, action, s.next⟩] }

/-- Changes the phase of the task with a generation. -/
def setPhase (s : SharedDebouncer κ α) (generation : Nat) (f : TaskPhase → TaskPhase) :
    SharedDebouncer κ α :=
  { s with
    tasks := s.tasks.map fun t =>
      if t.generation = generation then { t with phase := f t.phase } else t }

def abort (s : SharedDebouncer κ α) (generation : Nat) (late : Bool) : SharedDebouncer κ α :=
  { s.setPhase generation (.abort late) with aborts := s.aborts.erase generation }

def cancelAll (s : SharedDebouncer κ α) : SharedDebouncer κ α :=
  { s with table := [], aborts := s.aborts ++ s.table.map (·.generation) }

variable [BEq κ]

def cancel (s : SharedDebouncer κ α) (key : κ) : SharedDebouncer κ α :=
  { s with
    table := erase s.table key
    aborts := s.aborts ++ (generation? s.table key).toList }

def insert (s : SharedDebouncer κ α) (c : PendingCall κ α) : SharedDebouncer κ α :=
  let s := s.cancel c.key
  { s with
    calls := s.calls.filter (·.generation ≠ c.generation)
    table := s.table ++ [⟨c.key, c.generation⟩]
    tasks := s.tasks ++ [⟨⟨⟨c.key, s.now + c.delay, c.action⟩, c.generation⟩, .asleep⟩] }

/-- A task takes its own entry from the table and begins to act. -/
def start (s : SharedDebouncer κ α) (t : TimerTask κ α) : SharedDebouncer κ α :=
  { s.setPhase t.generation (fun _ => .acting) with table := erase s.table t.key }

/-- The steps that may come next, in any order. -/
inductive Step (s : SharedDebouncer κ α) : TaskEvent κ α → SharedDebouncer κ α → Prop where
  | take (key : κ) (delay : Nat) (action : α) :
    Step s (.take key delay action) (s.take key delay action)
  | insert {c : PendingCall κ α} (hc : c ∈ s.calls) :
    Step s (.insert c.key c.generation) (s.insert c)
  | cancel (key : κ) : Step s (.cancel key) (s.cancel key)
  | cancelAll : Step s .cancelAll s.cancelAll
  | abort {g : Nat} (late : Bool) (hg : g ∈ s.aborts) : Step s (.abort g late) (s.abort g late)
  | wake {t : TimerTask κ α} (ht : t ∈ s.tasks) (hp : t.phase = .asleep) (hdue : t.due ≤ s.now) :
    Step s (.wake t.generation) (s.setPhase t.generation fun _ => .awake)
  | start {t : TimerTask κ α} (ht : t ∈ s.tasks) (hp : t.phase = .awake)
      (hown : generation? s.table t.key = some t.generation) :
    Step s (.start t.generation) (s.start t)
  | giveUp {t : TimerTask κ α} (ht : t ∈ s.tasks) (hp : t.phase = .awake)
      (hown : generation? s.table t.key ≠ some t.generation) :
    Step s (.giveUp t.generation) (s.setPhase t.generation fun _ => .finished)
  | finish {t : TimerTask κ α} (ht : t ∈ s.tasks) (hp : t.phase = .acting) :
    Step s (.finish t.generation) (s.setPhase t.generation fun _ => .finished)
  | pass (ms : Nat) : Step s (.pass ms) { s with now := s.now + ms }

/-- Steps in turn, by what is done in them. -/
inductive Run : SharedDebouncer κ α → List (TaskEvent κ α) → SharedDebouncer κ α → Prop where
  | nil {s : SharedDebouncer κ α} : Run s [] s
  | cons {s s' s'' : SharedDebouncer κ α} {x : TaskEvent κ α} {xs : List (TaskEvent κ α)}
      (hx : s.Step x s') (hxs : Run s' xs s'') : Run s (x :: xs) s''

end SharedDebouncer

end WorkspaceLink
