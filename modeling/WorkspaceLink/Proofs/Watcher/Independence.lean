import WorkspaceLink.Proofs.Watcher.OnePath
import WorkspaceLink.Proofs.Watcher.Prompt

/-! Paths do not interfere: what the client is told about a file, and when, is the same if the events
are delivered without what they say about other files. -/

namespace WorkspaceLink

variable {p : Path}

/-! ### Events without other files -/

/-- An event without its paths other than one. -/
def FileEvent.only (path : Path) (e : FileEvent) : FileEvent :=
  { e with paths := e.paths.filter fun bytes => (Text.decode? bytes).any (Path.same path) }

theorem FileEvent.operations_only (path : Path) (e : FileEvent) :
    (e.only path).operations = e.operations.filter (Path.same path ·.2) := by
  have hpaths (paths : List (List UInt8)) :
      (paths.filter fun bytes => (Text.decode? bytes).any (Path.same path)).filterMap Text.decode? =
        (paths.filterMap Text.decode?).filter (Path.same path) := by
    induction paths with
    | nil => rfl
    | cons bytes paths ih =>
      cases h : Text.decode? bytes with
      | none => simp [h, ih]
      | some q => cases hq : Path.same path q <;> simp [h, hq, ih]
  rw [operations, operations, only]
  cases e.kind.operation? with
  | none => rfl
  | some op =>
    dsimp only
    rw [hpaths, List.filter_map]
    rfl

/-- A way to leave out of events what they say about files other than one. -/
structure EventFilter (p : Path) where
  keep : FileEvent → Option FileEvent
  kept : ∀ {e e' : FileEvent}, keep e = some e' →
    e'.operations = e.operations.filter (Path.same p ·.2)
  dropped : ∀ {e : FileEvent}, keep e = none → e.operations.filter (Path.same p ·.2) = []

namespace EventFilter

/-- Leaves out the other paths of every event. -/
def strip (p : Path) : EventFilter p where
  keep e := some (e.only p)
  kept h := Option.some.inj h ▸ FileEvent.operations_only p _
  dropped := nofun

/-- Leaves out the events that have no paths left, too. -/
def drop (p : Path) : EventFilter p where
  keep e := if (e.only p).paths.isEmpty then none else some (e.only p)
  kept h := by
    split at h
    · cases h
    · exact Option.some.inj h ▸ FileEvent.operations_only p _
  dropped {e} h := by
    split at h
    · next hnone =>
      rw [← FileEvent.operations_only, FileEvent.operations, List.isEmpty_iff.mp hnone]
      cases (e.only p).kind.operation? <;> rfl
    · cases h

def keepItem (f : EventFilter p) : SourceItem → Option SourceItem
  | .event e => (f.keep e).map .event
  | .failure cause => some (.failure cause)

/-- A step if what arrives is filtered. All other steps stay. -/
def keepStep (f : EventFilter p) : LoopStep → Option LoopStep
  | .arrive item => (f.keepItem item).map .arrive
  | x => some x

end EventFilter

namespace LoopSystem

variable (w : Watcher) (f : EventFilter p) (y z : LoopSystem)

/-- Whether the running loop, when it gets its turn, handles an operation on another file or takes up
an event that is left out. -/
def turnsAside : Bool :=
  match y.rest with
  | (_, path) :: _ => !Path.same p path
  | [] =>
    !y.told && match y.queue with
      | .event e :: _ => (f.keep e).isNone
      | _ => false

/-- A step if events are delivered filtered, and a turn stays in its place or goes with what it
handles. -/
def filterStep : LoopStep → List LoopStep
  | .arrive item => ((f.keepItem item).map .arrive).toList
  | .turn => if y.system.running && y.turnsAside f then [] else [.turn]
  | x => [x]

/-- Steps in turn if events are delivered filtered and what is kept is handled in its place. -/
def filterSteps (y : LoopSystem) : List LoopStep → List LoopStep
  | [] => []
  | x :: xs => y.filterStep f x ++ filterSteps (y.step w x) xs

/-- Two systems of which a path can tell the same; events that reach the second are filtered. -/
structure SameFor : Prop where
  system : WatchSystem.SameFor p y.system z.system
  queue : z.queue = y.queue.filterMap f.keepItem
  rest : z.rest = y.rest.filter (Path.same p ·.2)
  told : z.told = y.told

variable {w f y z}

theorem SameFor.turn (h : SameFor f y z) (hy : y.system.Tidy) (hz : z.system.Tidy)
    (haside : y.turnsAside f = false) : SameFor f (y.turn w) (z.turn w) := by
  obtain ⟨system, queue, rest, told⟩ := y
  obtain ⟨system', queue', rest', told'⟩ := z
  obtain ⟨hsystem, hqueue, hrest, htold⟩ := h
  dsimp only at hsystem hqueue hrest htold hy hz
  subst hqueue hrest htold
  cases rest with
  | cons o rest =>
    -- the operation is one on the path
    obtain ⟨op, path⟩ := o
    have hp : Path.same p path = true := by simpa [turnsAside] using haside
    have hcons : ((op, path) :: rest).filter (Path.same p ·.2) =
        (op, path) :: rest.filter (Path.same p ·.2) := List.filter_cons_of_pos hp
    rw [hcons]
    exact ⟨hsystem.step w hy hz (.operation op path), rfl, rfl, rfl⟩
  | nil =>
    cases told' with
    | true => exact ⟨hsystem.step w hy hz .cancel, rfl, rfl, rfl⟩
    | false =>
      cases queue with
      | nil => exact ⟨hsystem, rfl, rfl, rfl⟩
      | cons item queue =>
        cases item with
        | failure cause => exact ⟨hsystem.step w hy hz (.failSource cause), rfl, rfl, rfl⟩
        | event e =>
          cases hkeep : f.keep e with
          | none => simp [turnsAside, hkeep] at haside
          | some e' =>
            have hcons : (SourceItem.event e :: queue).filterMap f.keepItem =
                .event e' :: queue.filterMap f.keepItem := by
              simp [EventFilter.keepItem, hkeep]
            rw [hcons]
            exact ⟨hsystem, rfl, f.kept hkeep, rfl⟩

/-- What a turn does aside does not show. -/
theorem SameFor.turn_aside (h : SameFor f y z) (hy : y.system.Tidy)
    (haside : y.turnsAside f = true) : SameFor f (y.turn w) z := by
  obtain ⟨system, queue, rest, told⟩ := y
  obtain ⟨system', queue', rest', told'⟩ := z
  obtain ⟨hsystem, hqueue, hrest, htold⟩ := h
  dsimp only at hsystem hqueue hrest htold hy
  subst hqueue hrest htold
  cases rest with
  | cons o rest =>
    obtain ⟨op, path⟩ := o
    have hp : Path.same p path = false := by simpa [turnsAside] using haside
    have hcons : ((op, path) :: rest).filter (Path.same p ·.2) = rest.filter (Path.same p ·.2) :=
      List.filter_cons_of_neg (ne_true_of_eq_false hp)
    rw [hcons]
    have hback := WatchSystem.sameFor_operation w hy op hp
    exact ⟨hback.symm.trans hsystem, rfl, rfl, rfl⟩
  | nil =>
    cases told' with
    | true => cases haside
    | false =>
      cases queue with
      | nil => cases haside
      | cons item queue =>
        cases item with
        | failure cause => cases haside
        | event e =>
          have hkeep : f.keep e = none := by simpa [turnsAside] using haside
          have hcons : (SourceItem.event e :: queue).filterMap f.keepItem =
              queue.filterMap f.keepItem := by
            simp [EventFilter.keepItem, hkeep]
          rw [hcons]
          exact ⟨hsystem, rfl, (f.dropped hkeep).symm, rfl⟩

theorem SameFor.step (h : SameFor f y z) (hy : y.system.Tidy) (hz : z.system.Tidy) (x : LoopStep) :
    SameFor f (y.step w x) (z.run w (y.filterStep f x)) := by
  have hrun := h.system.running
  cases x with
  | beside x hx => exact { h with system := h.system.step w hy hz x }
  | start sourceFailure =>
    change SameFor f (y.step w (.start sourceFailure)) (z.step w (.start sourceFailure))
    rw [LoopSystem.step, LoopSystem.step, hrun]
    split
    · exact h
    · exact { h with system := h.system.step w hy hz (.start sourceFailure) }
  | arrive item =>
    have hitem : (y.queue ++ [item]).filterMap f.keepItem =
        z.queue ++ (f.keepItem item).toList := by
      rw [List.filterMap_append, h.queue]
      cases hkeep : f.keepItem item <;> simp [hkeep]
    rw [LoopSystem.step, filterStep]
    cases hkeep : f.keepItem item with
    | none =>
      rw [hkeep, Option.toList_none, List.append_nil] at hitem
      split
      · exact { h with queue := hitem.symm }
      · exact h
    | some item' =>
      rw [hkeep] at hitem
      change SameFor f _ (z.step w (.arrive item'))
      rw [LoopSystem.step, hrun]
      split
      · exact { h with queue := hitem.symm }
      · exact h
  | turn =>
    rw [LoopSystem.step, filterStep]
    cases hy' : y.system.running with
    | false =>
      change SameFor f y (z.step w .turn)
      rw [LoopSystem.step, hrun, hy']
      exact h
    | true =>
      cases haside : y.turnsAside f with
      | true => exact h.turn_aside hy haside
      | false =>
        change SameFor f (y.turn w) (z.step w .turn)
        rw [LoopSystem.step, hrun, hy']
        exact h.turn hy hz haside
  | cancel =>
    change SameFor f (y.step w .cancel) (z.step w .cancel)
    rw [LoopSystem.step, LoopSystem.step, hrun]
    split
    · exact { h with told := rfl }
    · exact { h with system := h.system.step w hy hz .cancel, told := rfl }
  | rearm =>
    change SameFor f (y.step w .rearm) (z.step w .rearm)
    rw [LoopSystem.step, LoopSystem.step, hrun]
    split
    · exact h
    · exact { h with system := h.system.step w hy hz .rearm, told := rfl }

theorem run_tidy (hy : y.system.Tidy) (xs : List LoopStep) : (y.run w xs).system.Tidy := by
  induction xs generalizing y with
  | nil => exact hy
  | cons x xs ih =>
    have hstep : (y.step w x).system.Tidy := by
      rw [step_system]
      exact hy.step _
    exact ih hstep

theorem SameFor.run (h : SameFor f y z) (hy : y.system.Tidy) (hz : z.system.Tidy)
    (xs : List LoopStep) : SameFor f (y.run w xs) (z.run w (y.filterSteps w f xs)) := by
  induction xs generalizing y z with
  | nil => exact h
  | cons x xs ih =>
    rw [filterSteps, run_append]
    exact ih (h.step hy hz x) (run_tidy hy [x]) (run_tidy hz _)

/-! ### A loop that goes on at once -/

theorem SameFor.isWaiting (h : SameFor f y z) (hy : y.IsWaiting) : z.IsWaiting := by
  intro hrun
  rw [h.system.running] at hrun
  obtain ⟨hrest, hqueue, htold⟩ := hy hrun
  rw [h.rest, h.queue, h.told, hrest, hqueue, htold]
  exact ⟨rfl, rfl, rfl⟩

/-- The second system takes as many turns as the first takes that are not aside. -/
theorem SameFor.run_turns (h : SameFor f y z) (hy : y.system.Tidy) (hz : z.system.Tidy) (k : ℕ) :
    ∃ m, SameFor f (y.run w (List.replicate k .turn)) (z.run w (List.replicate m .turn)) := by
  induction k generalizing y z with
  | zero => exact ⟨0, h⟩
  | succ k ih =>
    obtain ⟨m, hm⟩ := ih (h.step hy hz .turn) (run_tidy hy [.turn]) (run_tidy hz _)
    rw [filterStep] at hm
    split at hm
    · exact ⟨m, hm⟩
    · exact ⟨m + 1, hm⟩

theorem SameFor.catchUp (h : SameFor f y z) (hy : y.system.Tidy) (hz : z.system.Tidy) :
    SameFor f (y.catchUp w) (z.catchUp w) := by
  obtain ⟨m, hm⟩ := h.run_turns (w := w) hy hz y.turnsLeft
  have hwaits := hm.isWaiting (y.catchUp_isWaiting w)
  rwa [catchUp_eq_of_isWaiting hwaits] at hm

theorem SameFor.step_kept (h : SameFor f y z) (hy : y.system.Tidy) (hz : z.system.Tidy)
    (hwaits : y.IsWaiting) (x : LoopStep) :
    SameFor f (y.step w x) (z.run w (f.keepStep x).toList) := by
  have hstep := h.step (w := w) hy hz x
  cases x with
  | turn =>
    -- the loop waits in both systems, so that a turn does nothing
    have hnothing : z.run w (f.keepStep .turn).toList = z := (h.isWaiting hwaits).step_turn
    rw [hwaits.step_turn, hnothing]
    exact h
  | _ => exact hstep

theorem SameFor.run_promptSteps (h : SameFor f y z) (hy : y.system.Tidy) (hz : z.system.Tidy)
    (hwaits : y.IsWaiting) (xs : List LoopStep) :
    SameFor f (y.run w (y.promptSteps w xs))
      (z.run w (z.promptSteps w (xs.filterMap f.keepStep))) := by
  induction xs generalizing y z with
  | nil => exact h
  | cons x xs ih =>
    have hstep := h.step_kept (w := w) hy hz hwaits x
    have hy' : (y.step w x).system.Tidy := run_tidy hy [x]
    have hwaits' := (y.step w x).catchUp_isWaiting w
    rw [LoopSystem.run_promptSteps]
    cases hkeep : f.keepStep x with
    | none =>
      rw [hkeep] at hstep
      have hcaught : SameFor f ((y.step w x).catchUp w) (z.catchUp w) := hstep.catchUp hy' hz
      rw [(h.isWaiting hwaits).catchUp_eq] at hcaught
      rw [List.filterMap_cons_none hkeep]
      exact ih hcaught (run_tidy hy' _) hz hwaits'
    | some x' =>
      rw [hkeep] at hstep
      have hz' : (z.step w x').system.Tidy := run_tidy hz [x']
      rw [List.filterMap_cons_some hkeep, LoopSystem.run_promptSteps]
      exact ih (hstep.catchUp hy' hz') (run_tidy hy' _) (run_tidy hz' _) hwaits'

end LoopSystem

namespace LoopRun

variable (r : LoopRun)

/-- The calls about a path in a run, each with its time. -/
def callsAbout (path : Path) : List (ℕ × WatchCall) :=
  (r.system r.steps.length).system.state.client.callsAbout path

/-- The run in which events arrive filtered. All that happens beside them stays, and so does the time
at which they arrive. -/
def receiving (f : EventFilter p) : LoopRun :=
  { r with steps := r.steps.filterMap f.keepStep }

/-- The run in which events arrive filtered, and the loop has its turns for what is kept where it had
them before. -/
def filtered (f : EventFilter p) : LoopRun :=
  { r with steps := r.initial.filterSteps r.watcher f r.steps }

theorem callsAbout_eq {f : EventFilter p} {r r' : LoopRun}
    (h : LoopSystem.SameFor f (r.initial.run r.watcher r.steps)
      (r'.initial.run r'.watcher r'.steps)) :
    r'.callsAbout p = r.callsAbout p := by
  rw [callsAbout, callsAbout, system, system, List.take_length, List.take_length]
  exact h.system.client.calls

theorem initial_tidy : r.initial.system.Tidy :=
  ⟨fun _ => rfl, nofun⟩

theorem initial_sameFor (f : EventFilter p) : LoopSystem.SameFor f r.initial r.initial :=
  ⟨⟨.refl _, rfl, .refl p _⟩, rfl, rfl, rfl⟩

theorem callsAbout_receiving (f : EventFilter p) :
    (r.receiving f).promptly.callsAbout p = r.promptly.callsAbout p := by
  have hwaits : r.initial.IsWaiting := nofun
  exact callsAbout_eq
    ((r.initial_sameFor f).run_promptSteps r.initial_tidy r.initial_tidy hwaits r.steps)

theorem callsAbout_filtered (f : EventFilter p) : (r.filtered f).callsAbout p = r.callsAbout p :=
  callsAbout_eq ((r.initial_sameFor f).run r.initial_tidy r.initial_tidy r.steps)

/-- What the client is told about a path, and when, in the order in which it is told, does not depend
on other files. -/
structure Apart (r : LoopRun) (p : Path) : Prop where
  /-- It is the same if each event arrives without its other paths. -/
  stripped : (r.receiving (.strip p)).promptly.callsAbout p = r.promptly.callsAbout p
  /-- It is the same if events that have no paths left do not arrive. -/
  dropped : (r.receiving (.drop p)).promptly.callsAbout p = r.promptly.callsAbout p
  /-- It is the same in two runs that differ only in where events about other files come, and in
  what they say. -/
  reordered : ∀ r' : LoopRun, r'.receiving (.drop p) = r.receiving (.drop p) →
    r'.promptly.callsAbout p = r.promptly.callsAbout p
  /-- Other things may happen between the turns of the loop. It is the same if the loop handles what
  it hears about the path in the same places among them. -/
  inPlace : ∀ f : EventFilter p, (r.filtered f).callsAbout p = r.callsAbout p

/-- Two files are written, and one event tells about both. -/
def sharedEvent : LoopRun :=
  let files : FileTree := ⟨.dir [("ws", .dir [("a.go", .file .empty), ("b.go", .file .empty)])]⟩
  { watcher :=
      { root := "/ws"
        policy := .ofSettings files "/ws" .default
        settings := .default }
    files
    steps :=
      [.beside (.register "go" [⟨⟨none, "**/*.go"⟩, none⟩]) rfl, .start none,
        .arrive (.event ⟨.modify .data, [Text.utf8 "/ws/b.go", Text.utf8 "/ws/a.go"]⟩),
        .beside (.advance 300) rfl] }

example : sharedEvent.promptly.callsAbout "/ws/a.go" =
    [(300, .watched (.ofPath "/ws/a.go") .changed)] := by
  decide +kernel

end LoopRun

end WorkspaceLink
