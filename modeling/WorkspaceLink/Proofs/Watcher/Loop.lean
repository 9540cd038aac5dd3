import WorkspaceLink.Proofs.Watcher.SmallSteps
import WorkspaceLink.Watch.Loop

/-! A watcher with its loop is a watcher whose steps come in an order that the loop decides, so that
what holds of all runs of a watcher holds of it. -/

namespace WorkspaceLink

namespace WatchSystem

variable (w : Watcher) (y : WatchSystem)

/-- A step that does nothing: the visit of a walk that has not begun. -/
def idle : WatchStep :=
  .visit y.walks.length

theorem step_idle : y.step w y.idle = y := by
  change y.visit w y.walks.length = y
  rw [visit, next?, List.getElem?_eq_none (Nat.le_refl _)]
  rfl

theorem cancel_running : (y.step w .cancel).running = false := by
  rw [step, WatchState.cancel]
  dsimp only
  split
  · rfl
  · next h => exact eq_false_of_ne_true h

theorem failSource_running (cause : Text) : (y.step w (.failSource cause)).running = false := by
  rw [step, WatchState.failSource]
  split
  · rfl
  · next h => exact eq_false_of_ne_true h

theorem beside_running {x : WatchStep} (hx : x.isBeside = true) :
    (y.step w x).running = y.running := by
  cases x with
  | visit n => exact (y.visit_keeps w n).2
  | advance ms => exact y.advance_running w ms
  | register id registrations => rfl
  | unregister id => rfl
  | beginWalk => rfl
  | change files opened unwatchable => rfl
  | _ => cases hx

end WatchSystem

namespace LoopSystem

variable (w : Watcher) (y : LoopSystem)

/-- What a turn of the running loop does to the watcher. -/
def turnMove : WatchStep :=
  match y.rest with
  | (op, path) :: _ => .operation op path
  | [] =>
    if y.told then .cancel
    else match y.queue with
      | .failure cause :: _ => .failSource cause
      | _ => y.system.idle

/-- What a step does to the watcher. -/
def move : LoopStep → WatchStep
  | .beside x _ => x
  | .start sourceFailure => .start sourceFailure
  | .arrive _ => y.system.idle
  | .turn => if y.system.running then y.turnMove else y.system.idle
  | .cancel => if y.system.running then y.system.idle else .cancel
  | .rearm => .rearm

theorem turn_system : (y.turn w).system = y.system.step w y.turnMove := by
  rw [turn, turnMove]
  cases y.rest with
  | cons o rest => rfl
  | nil =>
    dsimp only
    split
    · rfl
    · cases y.queue with
      | nil => exact (y.system.step_idle w).symm
      | cons item queue =>
        cases item with
        | event e => exact (y.system.step_idle w).symm
        | failure cause => rfl

theorem step_system (x : LoopStep) : (y.step w x).system = y.system.step w (y.move x) := by
  cases hrun : y.system.running with
  | true =>
    cases x with
    | beside x h => rfl
    | start sourceFailure => simp [step, move, hrun, WatchSystem.step]
    | arrive item => simp [step, move, hrun, WatchSystem.step_idle]
    | turn => simp [step, move, hrun, turn_system]
    | cancel => simp [step, move, hrun, WatchSystem.step_idle]
    | rearm => simp [step, move, hrun, WatchSystem.step]
  | false =>
    cases x with
    | beside x h => rfl
    | start sourceFailure => simp [step, move, hrun]
    | arrive item => simp [step, move, hrun, WatchSystem.step_idle]
    | turn => simp [step, move, hrun, WatchSystem.step_idle]
    | cancel => simp [step, move, hrun]
    | rearm => simp [step, move, hrun]

theorem run_cons (x : LoopStep) (xs : List LoopStep) :
    y.run w (x :: xs) = (y.step w x).run w xs :=
  rfl

theorem run_append (xs ys : List LoopStep) : y.run w (xs ++ ys) = (y.run w xs).run w ys := by
  simp only [run, List.foldl_append]

/-- What steps in turn do to the watcher. -/
def moves (y : LoopSystem) : List LoopStep → List WatchStep
  | [] => []
  | x :: xs => y.move x :: moves (y.step w x) xs

theorem run_system (xs : List LoopStep) : (y.run w xs).system = y.system.run w (y.moves w xs) := by
  induction xs generalizing y with
  | nil => rfl
  | cons x xs ih =>
    rw [moves, WatchSystem.run, List.foldl_cons, ← step_system]
    exact ih (y.step w x)

theorem moves_take (xs : List LoopStep) (n : ℕ) :
    (y.moves w xs).take n = y.moves w (xs.take n) := by
  induction xs generalizing y n with
  | nil => simp [moves]
  | cons x xs ih =>
    cases n with
    | zero => rfl
    | succ n => rw [moves, List.take_succ_cons, List.take_succ_cons, moves, ih]

theorem getElem?_moves (xs : List LoopStep) (n : ℕ) :
    (y.moves w xs)[n]? = xs[n]?.map (y.run w (xs.take n)).move := by
  induction xs generalizing y n with
  | nil => rfl
  | cons x xs ih =>
    cases n with
    | zero => rfl
    | succ n =>
      rw [moves, List.getElem?_cons_succ, List.getElem?_cons_succ, List.take_succ_cons, ih]
      rfl

/-! ### Events that arrive together -/

/-- The steps in which events arrive and the loop handles them. -/
def eventTurns (e : FileEvent) : List LoopStep :=
  .turn :: e.operations.map fun _ => .turn

theorem run_arrivals (events : List FileEvent) (hrun : y.system.running = true) :
    y.run w (events.map fun e => .arrive (.event e)) =
      { y with queue := y.queue ++ events.map .event } := by
  induction events generalizing y with
  | nil => simp [run]
  | cons e events ih =>
    have hstep : y.step w (.arrive (.event e)) = { y with queue := y.queue ++ [.event e] } :=
      if_pos hrun
    have hrest := ih { y with queue := y.queue ++ [.event e] } hrun
    rw [List.map_cons, run_cons, hstep, hrest]
    simp

theorem run_rest (hrun : y.system.running = true) :
    y.run w (y.rest.map fun _ => .turn) =
      { y with
        system := y.system.run w (y.rest.map fun (op, path) => .operation op path)
        rest := [] } := by
  obtain ⟨system, queue, rest, told⟩ := y
  induction rest generalizing system with
  | nil => rfl
  | cons o rest ih =>
    -- no operation ends the loop, so the next turn finds it running
    have hstep : step w ⟨system, queue, o :: rest, told⟩ .turn =
        ⟨system.step w (.operation o.1 o.2), queue, rest, told⟩ := if_pos hrun
    have hrest := ih (system.step w (.operation o.1 o.2))
      ((system.operation_running w o.1 o.2).trans hrun)
    rw [List.map_cons, run_cons, hstep]
    exact hrest

/-- A loop that has nothing left to do and is not told to stop handles what waits in line. -/
theorem run_eventTurns (events : List FileEvent) (hrun : y.system.running = true)
    (hqueue : y.queue = events.map .event) (hrest : y.rest = []) (htold : y.told = false) :
    y.run w (events.flatMap eventTurns) =
      { y with
        system := { y.system with
          state := events.foldl (fun s e => s.onEvent w e) y.system.state }
        queue := [] } := by
  obtain ⟨system, queue, rest, told⟩ := y
  obtain rfl : rest = [] := hrest
  obtain rfl : told = false := htold
  obtain rfl : queue = events.map .event := hqueue
  induction events generalizing system with
  | nil => rfl
  | cons e events ih =>
    let taken : LoopSystem := ⟨system, events.map .event, e.operations, false⟩
    have htake : step w ⟨system, (e :: events).map .event, [], false⟩ .turn = taken := if_pos hrun
    have hevent : taken.run w (e.operations.map fun _ => .turn) =
        ⟨{ system with state := system.state.onEvent w e }, events.map .event, [], false⟩ := by
      rw [run_rest w taken hrun, WatchSystem.run_operations w system e.operations hrun]
      rfl
    have hrun' : (system.run w (WatchSystem.eventSteps e)).running = true := by
      rw [← hrun]
      apply WatchSystem.run_running
      intro x hx
      obtain ⟨o, _, rfl⟩ := List.mem_map.mp hx
      exact ⟨o.1, o.2, rfl⟩
    rw [WatchSystem.eventSteps, WatchSystem.run_operations w system e.operations hrun] at hrun'
    rw [List.flatMap_cons, run_append, eventTurns, run_cons, htake, hevent]
    exact ih _ hrun'

/-- Events that a running loop receives together arrive and are handled in turn; what is due at once
is sent after all of them. -/
theorem run_deliver (events : List FileEvent) (hrun : y.system.running = true)
    (hqueue : y.queue = []) (hrest : y.rest = []) (htold : y.told = false) :
    y.run w ((events.map fun e => .arrive (.event e)) ++ events.flatMap eventTurns ++
        [.beside (.advance 0) rfl]) =
      { y with system := { y.system with state := y.system.state.deliver w events } } := by
  have hdeliver : y.system.state.deliver w events =
      (events.foldl (fun s e => s.onEvent w e) y.system.state).advance 0 := if_pos hrun
  have hturns := run_eventTurns w { y with queue := events.map .event } events hrun rfl hrest htold
  rw [run_append, run_append, run_arrivals w y events hrun, hqueue, List.nil_append, hturns, hdeliver]
  obtain ⟨system, queue, rest, told⟩ := y
  obtain rfl : queue = [] := hqueue
  rfl

end LoopSystem

/-! ### Runs -/

namespace LoopRun

variable (r : LoopRun)

/-- The run of the watcher alone. -/
def toWatchRun : WatchRun :=
  { r with steps := r.initial.moves r.watcher r.steps }

theorem system_toWatchRun (n : ℕ) : r.toWatchRun.system n = (r.system n).system := by
  rw [system, LoopSystem.run_system, ← LoopSystem.moves_take]
  rfl

theorem callsAt_toWatchRun (n : ℕ) : r.toWatchRun.callsAt n = r.callsAt n := by
  rw [WatchRun.callsAt, WatchRun.state, WatchRun.state, system_toWatchRun, system_toWatchRun]
  rfl

variable {r} {n : ℕ} {x : LoopStep}

theorem system_step (hx : r.steps[n]? = some x) :
    r.system (n + 1) = (r.system n).step r.watcher x := by
  rw [system, LoopSystem.run, List.take_add_one, List.foldl_append, hx]
  rfl

theorem system_stay (hx : r.steps[n]? = none) : r.system (n + 1) = r.system n := by
  rw [system, LoopSystem.run, List.take_add_one, hx]
  simp [system, LoopSystem.run]

theorem getElem?_toWatchRun (n : ℕ) :
    r.toWatchRun.steps[n]? = r.steps[n]?.map (r.system n).move :=
  LoopSystem.getElem?_moves _ _ _ _

end LoopRun

end WorkspaceLink
